import Netepoll.Expansion
import Netepoll.Lib.Words

/-! What `$NAME`, `${NAME}`, `${NAME:-word}` and `${NAME:+word}` stand for, wherever they
are in a template. -/

namespace Netepoll

open CString Words

/-! ## What stands before a dollar sign -/

/-- Every `${` has a `}` behind it. -/
def BracesClosed (t : List UInt8) : Prop :=
  ∀ before after, t = before ++ 36 :: 123 :: after → 125 ∈ after

theorem bracesClosed_nil : BracesClosed [] := fun before _ h => by
  cases before <;> cases h

theorem BracesClosed.drop {t : List UInt8} (h : BracesClosed t) (k : Nat) :
    BracesClosed (t.drop k) := by
  intro before after heq
  refine h (t.take k ++ before) after ?_
  rw [List.append_assoc, ← heq, List.take_append_drop]

/-- A dollar sign does not change what is cut off before it. -/
theorem nextPiece_append {t : List UInt8} (ht : t ≠ []) (h : BracesClosed t) (rest : List UInt8) :
    ∃ p k, nextPiece t = some (p, k) ∧ nextPiece (t ++ 36 :: rest) = some (p, k) := by
  obtain ⟨c, cs, rfl⟩ := List.exists_cons_of_ne_nil ht
  rw [List.cons_append, nextPiece, nextPiece]
  by_cases hc : c ≠ 36
  · rw [if_pos hc, if_pos hc]
    exact ⟨_, _, rfl, rfl⟩
  rw [if_neg hc, if_neg hc]
  rw [ne_eq, not_not] at hc
  subst hc
  cases cs with
  | nil => exact ⟨_, _, rfl, rfl⟩
  | cons d ds =>
    rw [List.cons_append, List.head?_cons, List.head?_cons, List.tail_cons, List.tail_cons]
    by_cases hd : some d = some (123 : UInt8)
    · have hclose : 125 ∈ ds := h [] ds (by cases hd; rfl)
      rw [if_pos hd, if_pos hd, if_pos hclose, if_pos (List.mem_append_left _ hclose),
        takeWhile_append_left hclose rfl]
      exact ⟨_, _, rfl, rfl⟩
    · have hname : (d :: (ds ++ 36 :: rest)).takeWhile envChr = (d :: ds).takeWhile envChr :=
        takeWhile_append_ends (d :: ds) (ends_cons rfl)
      rw [if_neg hd, if_neg hd]
      simp only [hname]
      exact ⟨_, _, rfl, rfl⟩

theorem pieces_append {t : List UInt8} (h : BracesClosed t) (rest : List UInt8) :
    pieces (t ++ 36 :: rest) = pieces t ++ pieces (36 :: rest) := by
  induction t using pieces.induct with
  | case1 t hnone =>
    have ht : t = [] := by
      by_contra ht
      obtain ⟨p, k, hsome, -⟩ := nextPiece_append ht h rest
      rw [hnone] at hsome
      cases hsome
    rw [ht, pieces_none (t := []) rfl, List.nil_append, List.nil_append]
  | case2 t p k hnext ih =>
    have ht : t ≠ [] := fun heq => by
      rw [heq] at hnext
      cases hnext
    obtain ⟨p', k', hsome, happend⟩ := nextPiece_append ht h rest
    rw [hnext] at hsome
    cases hsome
    rw [pieces_some hnext, pieces_some happend,
      List.drop_append_of_le_length (nextPiece_pos hnext).2, ih (h.drop k), List.cons_append]

/-! ## Occurrences -/

/-- `${body}` -/
def braced (body : List UInt8) : List UInt8 := 36 :: 123 :: (body ++ [125])

theorem pieces_braced {body : List UInt8} (h : 125 ∉ body) (after : List UInt8) :
    pieces (braced body ++ after) = .var body :: pieces after := by
  have hword : ∀ c ∈ body, (c != 125) = true := fun c hc => by
    simpa using fun heq : c = 125 => h (heq ▸ hc)
  have hbody : (body ++ 125 :: after).takeWhile (fun c => c != 125) = body :=
    Words.takeWhile_append hword (ends_cons rfl)
  have hshape : braced body ++ after = 36 :: 123 :: (body ++ 125 :: after) := by simp [braced]
  have hnext : nextPiece (braced body ++ after) = some (.var body, body.length + 3) := by
    rw [hshape, nextPiece, if_neg (by decide), List.head?_cons, if_pos rfl, List.tail_cons]
    simp only [hbody]
    rw [if_pos (List.mem_append_right _ List.mem_cons_self)]
  have hlen : (braced body).length = body.length + 3 := by simp [braced]
  rw [pieces_some hnext, ← hlen, List.drop_left]

/-- A name that `strspn` finds whole. -/
structure VarName where
  chars : List UInt8
  chars_ne : chars ≠ []
  allowed : ∀ c ∈ chars, envChr c = true

theorem pieces_dollar (name : VarName) {after : List UInt8} (h : Ends envChr after) :
    pieces (36 :: name.chars ++ after) = .var name.chars :: pieces after := by
  have hname : (name.chars ++ after).takeWhile envChr = name.chars :=
    Words.takeWhile_append name.allowed h
  have hhead : (name.chars ++ after).head? ≠ some 123 := by
    obtain ⟨c, cs, heq⟩ := List.exists_cons_of_ne_nil name.chars_ne
    rw [heq, List.cons_append, List.head?_cons]
    rintro ⟨⟩
    exact absurd (name.allowed 123 (heq ▸ List.mem_cons_self)) (by decide)
  have hnext : nextPiece (36 :: name.chars ++ after) =
      some (.var name.chars, name.chars.length + 1) := by
    rw [List.cons_append, nextPiece, if_neg (by decide), if_neg hhead]
    simp only [hname]
  rw [pieces_some hnext, ← List.length_cons, List.drop_left]

/-! ## The text of a body -/

/-- No value is longer than what is copied of it. -/
def ShortValues (env : Environ) : Prop :=
  ∀ name value, env name = some value → value.chars.length ≤ envValueSize

def value (env : Environ) (name : List UInt8) : List UInt8 :=
  ((env name).map Text.chars).getD []

theorem value_length_le {env : Environ} (h : ShortValues env) (name : List UInt8) :
    (value env name).length ≤ envValueSize := by
  rw [value]
  cases hv : env name with
  | none => exact Nat.zero_le _
  | some v => exact h name v hv

/-- The text for a body is the value of its name, the word behind its operator, or nothing. -/
theorem bodyText_cases (env : Environ) (body : List UInt8) :
    bodyText env body = value env (body.takeWhile envChr) ∨
      bodyText env body = (body.dropWhile envChr).drop 2 ∨ bodyText env body = [] := by
  simp only [bodyText, value]
  cases env (body.takeWhile envChr) with
  | none =>
    split
    · exact Or.inr (Or.inl rfl)
    · split <;> exact Or.inr (Or.inr rfl)
  | some v =>
    split
    · exact Or.inl rfl
    · split
      · exact Or.inr (Or.inl rfl)
      · exact Or.inl rfl

/-- With short values a piece that is not refused is copied whole. -/
theorem text_length_le {env : Environ} (h : ShortValues env) {p : Piece} (hp : ¬ p.Refused) :
    (p.text env).length ≤ envValueSize := by
  cases p with
  | literal c => exact Nat.le_of_lt (by decide : 1 < envValueSize)
  | var body =>
    have hbody : body.length ≤ envNameSize := Nat.le_of_not_lt hp
    have hsize : envNameSize ≤ envValueSize := by decide
    have hword : ((body.dropWhile envChr).drop 2).length ≤ body.length := by
      rw [List.length_drop]
      have := (List.dropWhile_suffix envChr (l := body)).length_le
      omega
    rcases bodyText_cases env body with heq | heq | heq
    · rw [Piece.text, heq]
      exact value_length_le h _
    · rw [Piece.text, heq]
      omega
    · rw [Piece.text, heq]
      exact Nat.zero_le _

theorem VarName.takeWhile (name : VarName) {rest : List UInt8} (h : Ends envChr rest) :
    (name.chars ++ rest).takeWhile envChr = name.chars :=
  Words.takeWhile_append name.allowed h

theorem VarName.dropWhile (name : VarName) {rest : List UInt8} (h : Ends envChr rest) :
    (name.chars ++ rest).dropWhile envChr = rest :=
  Words.dropWhile_append name.allowed h

theorem bodyText_name (env : Environ) (name : VarName) :
    bodyText env name.chars = value env name.chars := by
  have htake := name.takeWhile (ends_nil envChr)
  have hdrop := name.dropWhile (ends_nil envChr)
  rw [List.append_nil] at htake hdrop
  simp [bodyText, htake, hdrop, value]

/-- Only an unset name stands for the word behind `:-`. -/
theorem bodyText_minus (env : Environ) (name : VarName) (word : List UInt8) :
    bodyText env (name.chars ++ 58 :: 45 :: word) =
      ((env name.chars).map Text.chars).getD word := by
  have hends : Ends envChr (58 :: 45 :: word) := ends_cons rfl
  simp [bodyText, name.takeWhile hends, name.dropWhile hends]

theorem bodyText_plus (env : Environ) (name : VarName) (word : List UInt8) :
    bodyText env (name.chars ++ 58 :: 43 :: word) = if env name.chars = none then [] else word := by
  have hends : Ends envChr (58 :: 43 :: word) := ends_cons rfl
  simp only [bodyText, name.takeWhile hends, name.dropWhile hends]
  cases env name.chars with
  | none => rfl
  | some v => rfl

/-! ## What a template makes of an occurrence -/

/-- Texts that are not cut and have room are copied whole. -/
theorem fill_append {env : Environ} {room : Nat} {ps : List Piece} (qs : List Piece)
    (hps : ∀ p ∈ ps, ¬ p.Refused ∧ (p.text env).length ≤ envValueSize)
    (hroom : (ps.flatMap (Piece.text env)).length < room) :
    fill env room (ps ++ qs) =
      ((fill env (room - (ps.flatMap (Piece.text env)).length) qs).1,
        ps.flatMap (Piece.text env) ++
          (fill env (room - (ps.flatMap (Piece.text env)).length) qs).2) := by
  induction ps generalizing room with
  | nil => rfl
  | cons p ps ih =>
    obtain ⟨href, hshort⟩ := hps p List.mem_cons_self
    have hcut : p.cut env = p.text env := List.take_of_length_le hshort
    have hneed := (p.need_bounds env).2.1
    rw [List.flatMap_cons, List.length_append] at hroom
    rw [hcut] at hneed
    rw [List.cons_append, fill_fits _ href (by omega), hcut,
      ih (fun q hq => hps q (List.mem_cons_of_mem _ hq)) (by omega), List.flatMap_cons,
      List.length_append, List.append_assoc, Nat.sub_add_eq]

/-- In front of `after`, with room for the texts, `occurrence` becomes `x`: what stands
before it is expanded, and `after` is expanded into the rest of `OutBuf`. The length of the
template and the index of the last byte that a text may take are `int`s. -/
def Substitutes (env : Environ) (occurrence x : List UInt8) (after : Text) : Prop :=
  ∀ (before : Text) (n : Nat) (outBuf : Block), BracesClosed before.chars →
    (∀ p ∈ pieces before.chars, ¬ p.Refused) →
    ((before.chars ++ occurrence ++ after.chars).length : Int) ≤ intMax →
    (n : Int) + envValueSize ≤ intMax → n ≤ outBuf.length →
    (fullExpansion env before.chars ++ x).length < n →
      ∃ code e e',
        expandEnvStr env (before.chars ++ occurrence ++ after.block) outBuf n =
          some (code, e) ∧
        expandEnvStr env after.block
            (outBuf.drop (fullExpansion env before.chars ++ x).length)
            ((n - (fullExpansion env before.chars ++ x).length : Nat) : Int) =
          some (code, e') ∧
        e.written = fullExpansion env before.chars ++ x ++ e'.written

theorem substitutes_text {env : Environ} (hvalues : ShortValues env)
    {occurrence body : List UInt8} {after : Text} (h0 : 0 ∉ occurrence)
    (hdollar : occurrence.head? = some 36) (hbody : body.length ≤ envNameSize)
    (hpieces : pieces (occurrence ++ after.chars) = .var body :: pieces after.chars) :
    Substitutes env occurrence (bodyText env body) after := by
  intro before n outBuf hclosed href hlen hmax hout hroom
  obtain ⟨rest, hrest⟩ : ∃ rest, occurrence = 36 :: rest := by
    cases occurrence with
    | nil => cases hdollar
    | cons c cs =>
      cases hdollar
      exact ⟨cs, rfl⟩
  have hwhole : Holds (before.chars ++ occurrence ++ after.block)
      (before.chars ++ occurrence ++ after.chars) := by
    refine ⟨fun hm => ?_, [], (List.append_assoc _ after.chars [0]).symm⟩
    rcases List.mem_append.mp hm with hm | hm
    · exact (List.mem_append.mp hm).elim before.noNul h0
    · exact after.noNul hm
  have htexts : (pieces before.chars ++ [Piece.var body]).flatMap (Piece.text env) =
      fullExpansion env before.chars ++ bodyText env body := by
    rw [List.flatMap_append, List.flatMap_singleton]
    rfl
  have hcut : pieces (before.chars ++ occurrence ++ after.chars) =
      pieces before.chars ++ [.var body] ++ pieces after.chars := by
    rw [List.append_assoc, hrest, List.cons_append, pieces_append hclosed, ← List.cons_append,
      ← hrest, hpieces, List.append_assoc, List.singleton_append]
  have hshort : ∀ p ∈ pieces before.chars ++ [.var body],
      ¬ p.Refused ∧ (p.text env).length ≤ envValueSize := by
    intro p hp
    have hp' : ¬ p.Refused := by
      rcases List.mem_append.mp hp with hp | hp
      · exact href p hp
      · rw [List.mem_singleton.mp hp]
        exact Nat.not_lt_of_le hbody
    exact ⟨hp', text_length_le hvalues hp'⟩
  have hfill := fill_append (pieces after.chars) hshort (by rwa [htexts])
  rw [← hcut, htexts] at hfill
  have hafter : (after.chars.length : Int) ≤ intMax := by
    rw [List.length_append] at hlen
    omega
  obtain ⟨⟨code, e⟩, hrun⟩ := expandEnvStr_returns env hwhole hlen (Int.ofNat_le.mpr hout) hmax
  have hrest : n - (fullExpansion env before.chars ++ bodyText env body).length ≤
      (outBuf.drop (fullExpansion env before.chars ++ bodyText env body).length).length := by
    rw [List.length_drop]
    omega
  obtain ⟨⟨code', e'⟩, hrun'⟩ := expandEnvStr_returns env after.holds hafter
    (Int.ofNat_le.mpr hrest) (by omega)
  obtain ⟨hcode, -⟩ := expandEnvStr_fill hwhole hlen hrun
  obtain ⟨hcode', -⟩ := expandEnvStr_fill after.holds hafter hrun'
  have hwritten := expandEnvStr_written hwhole hlen hrun
  have hwritten' := expandEnvStr_written after.holds hafter hrun'
  rw [Int.toNat_natCast] at hcode hcode' hwritten hwritten'
  rw [hfill] at hcode hwritten
  refine ⟨code, e, e', hrun, ?_, ?_⟩
  · rw [hrun', hcode', hcode]
  · rw [hwritten, hwritten']

/-- An occurrence becomes no two different texts. -/
theorem substitutes_unique {env : Environ} {occurrence x y : List UInt8}
    (hocc : (occurrence.length : Int) ≤ intMax)
    (hx : Substitutes env occurrence x .empty) (hy : Substitutes env occurrence y .empty)
    (hxlen : x.length ≤ envValueSize) (hylen : y.length ≤ envValueSize) : x = y := by
  have hfull : fullExpansion env [] = [] := by rw [fullExpansion, pieces_none rfl]; rfl
  have hnothing : ∀ p ∈ pieces [], ¬ p.Refused := by
    rw [pieces_none rfl]
    exact fun p hp => absurd hp List.not_mem_nil
  -- both runs are the same run, and nothing is left to write after it
  have hrun (z : List UInt8) (hz : Substitutes env occurrence z .empty)
      (hlen : z.length ≤ envValueSize) : ∃ code e,
      expandEnvStr env (occurrence ++ [0]) (zeros 257) 257 = some (code, e) ∧ e.written = z := by
    obtain ⟨code, e, e', hrun, hrest, hwritten⟩ := hz .empty 257 (zeros 257)
      bracesClosed_nil hnothing (by simpa using hocc) (by decide) (by rw [zeros_length])
      (by rw [Text.empty_chars, hfull]; exact Nat.lt_succ_of_le hlen)
    have hnil : e'.written = [] := by
      rw [expandEnvStr_written Text.empty.holds (by decide) hrest, Text.empty_chars,
        pieces_none rfl, fill_nil]
    rw [Text.empty_chars, hfull, hnil, List.append_nil] at hwritten
    exact ⟨code, e, hrun, hwritten⟩
  obtain ⟨code, e, he, hex⟩ := hrun x hx hxlen
  obtain ⟨code', e', he', hey⟩ := hrun y hy hylen
  rw [he] at he'
  cases he'
  rw [← hex, hey]

/-! ## The operators -/

/-- `${NAME:-word}`, as the comment in `getEnvVal` has it: the word for a name that is not
set or has an empty value. -/
def valueOrWord (env : Environ) (name word : List UInt8) : List UInt8 :=
  if env name = none ∨ (env name).map Text.chars = some [] then word else value env name

/-- `${NAME:+word}`: the word for a name that is set. -/
def wordIfSet (env : Environ) (name word : List UInt8) : List UInt8 :=
  if env name = none then [] else word

structure OperatorsDocumented (env : Environ) (name : VarName) (word : List UInt8) : Prop where
  minus : ∀ after, Substitutes env (braced (name.chars ++ 58 :: 45 :: word))
    (valueOrWord env name.chars word) after
  plus : ∀ after, Substitutes env (braced (name.chars ++ 58 :: 43 :: word))
    (wordIfSet env name.chars word) after
  /-- `${NAME}`, and `$NAME` where the name ends in front of what follows -/
  plain : ∀ after, Substitutes env (braced name.chars) (value env name.chars) after ∧
    (Ends envChr after.chars → Substitutes env (36 :: name.chars) (value env name.chars) after)

theorem VarName.not_mem (name : VarName) {c : UInt8} (hc : envChr c = false) :
    c ∉ name.chars := fun hm => by
  rw [name.allowed c hm] at hc
  cases hc

theorem not_mem_body (name : VarName) {word : List UInt8} {c d : UInt8}
    (hc : envChr c = false) (h58 : c ≠ 58) (hd : c ≠ d) (hword : c ∉ word) :
    c ∉ name.chars ++ 58 :: d :: word := by
  rw [List.mem_append, List.mem_cons, List.mem_cons]
  rintro (hm | hm | hm | hm)
  · exact name.not_mem hc hm
  · exact h58 hm
  · exact hd hm
  · exact hword hm

theorem substitutes_braced {env : Environ} (hvalues : ShortValues env) {body : List UInt8}
    (h0 : 0 ∉ body) (hclose : 125 ∉ body) (hlen : body.length ≤ envNameSize) (after : Text) :
    Substitutes env (braced body) (bodyText env body) after := by
  refine substitutes_text hvalues ?_ rfl hlen (pieces_braced hclose after.chars)
  simp [braced, h0]

theorem substitutes_dollar {env : Environ} (hvalues : ShortValues env) (name : VarName)
    (hlen : name.chars.length ≤ envNameSize) {after : Text} (h : Ends envChr after.chars) :
    Substitutes env (36 :: name.chars) (value env name.chars) after := by
  rw [← bodyText_name]
  refine substitutes_text hvalues ?_ rfl hlen (pieces_dollar name h)
  rw [List.mem_cons]
  rintro (hm | hm)
  · cases hm
  · exact name.not_mem rfl hm

/-- What the code has for `:-` is the documented text unless the value is empty and the
word is not. -/
theorem valueOrWord_eq_iff (env : Environ) (name word : List UInt8) :
    ((env name).map Text.chars).getD word = valueOrWord env name word ↔
      ((env name).map Text.chars = some [] → word = []) := by
  rw [valueOrWord, value]
  cases env name with
  | none => simp
  | some v =>
    by_cases hv : v.chars = []
    · simp [hv, eq_comm]
    · simp [hv]

/-- The operators do what the comments say if and only if the name is not set to the empty
string with a word that is not empty. -/
theorem operatorsDocumented_iff {env : Environ} (hvalues : ShortValues env) (name : VarName)
    {word : List UInt8} (h0 : 0 ∉ word) (hclose : 125 ∉ word)
    (hlen : name.chars.length + 2 + word.length ≤ envNameSize) :
    OperatorsDocumented env name word ↔
      ((env name.chars).map Text.chars = some [] → word = []) := by
  have hbody (op : UInt8) : (name.chars ++ 58 :: op :: word).length ≤ envNameSize := by
    simp only [List.length_append, List.length_cons]
    omega
  have hminus (after : Text) : Substitutes env (braced (name.chars ++ 58 :: 45 :: word))
      (((env name.chars).map Text.chars).getD word) after := by
    rw [← bodyText_minus]
    exact substitutes_braced hvalues (not_mem_body name rfl (by decide) (by decide) h0)
      (not_mem_body name rfl (by decide) (by decide) hclose) (hbody 45) after
  rw [← valueOrWord_eq_iff]
  constructor
  · intro h
    have hsize : envNameSize ≤ envValueSize := by decide
    have hv := value_length_le hvalues name.chars
    have hocc : ((braced (name.chars ++ 58 :: 45 :: word)).length : Int) ≤ intMax := by
      have hle := hbody 45
      have hmax : (envNameSize : Int) + 3 ≤ intMax := by decide
      rw [braced, List.length_cons, List.length_cons, List.length_append, List.length_singleton]
      omega
    refine substitutes_unique hocc (hminus _) (h.minus _) ?_ ?_
    · rw [value] at hv
      cases hn : env name.chars with
      | none => exact (by omega : word.length ≤ envValueSize)
      | some v => exact hvalues _ v hn
    · rw [valueOrWord]
      split
      · omega
      · exact hv
  · intro h
    refine ⟨fun after => h ▸ hminus after, fun after => ?_, fun after => ⟨?_, fun hends => ?_⟩⟩
    · rw [wordIfSet, ← bodyText_plus]
      exact substitutes_braced hvalues (not_mem_body name rfl (by decide) (by decide) h0)
        (not_mem_body name rfl (by decide) (by decide) hclose) (hbody 43) after
    · rw [← bodyText_name]
      exact substitutes_braced hvalues (name.not_mem rfl) (name.not_mem rfl) (by omega) after
    · exact substitutes_dollar hvalues name (by omega) hends

/-- `A` -/
def nameA : VarName := ⟨[65], List.cons_ne_nil _ _, List.all_eq_true.mp rfl⟩

/-- `A` has the empty value. -/
def emptyA : Environ := fun name => if name = [65] then some .empty else none

theorem shortValues_emptyA : ShortValues emptyA := by
  intro name v hv
  rw [emptyA] at hv
  split at hv
  · cases hv
    exact Nat.zero_le _
  · cases hv

/-- Nothing is set: `${A:-w}` is `w`, and `${A:+w}` is nothing. -/
theorem operatorsDocumented_iff_unset : OperatorsDocumented (fun _ => none) nameA [119] :=
  (operatorsDocumented_iff (fun _ _ h => by cases h) nameA (by decide) (by decide)
    (by decide)).mpr fun h => by cases h

/-- `${A:-w}` -/
theorem not_operatorsDocumented : ¬ OperatorsDocumented emptyA nameA [119] := by
  intro h
  have hword : valueOrWord emptyA [65] [119] = [119] := by decide
  have hvalue : Substitutes emptyA (braced [65, 58, 45, 119]) [] .empty :=
    substitutes_braced shortValues_emptyA (by decide) (by decide) (by decide) _
  have hminus := h.minus .empty
  have := substitutes_unique (by decide) hvalue (hword ▸ hminus) (by decide) (by decide)
  cases this

end Netepoll
