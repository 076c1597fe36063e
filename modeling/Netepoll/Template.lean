import Netepoll.ExpandEnv

/-! Templates as sequences of pieces: their full expansion, and what a buffer takes of it
when each text is cut to 256 bytes and what does not fit ends the copying. -/

namespace Netepoll

open CString

/-- A character, or a `$NAME` or `${body}` with the name or body. -/
inductive Piece where
  | literal (c : UInt8)
  | var (body : List UInt8)
  deriving DecidableEq

/-- The first piece and the number of its characters. There is none at the end and at a
`${` that is not matched. -/
def nextPiece : List UInt8 → Option (Piece × Nat)
  | [] => none
  | c :: cs =>
    if c ≠ 36 then some (.literal c, 1)
    else if cs.head? = some 123 then
      let body := cs.tail.takeWhile (fun c => c != 125)
      if 125 ∈ cs.tail then some (.var body, body.length + 3) else none
    else
      let name := cs.takeWhile envChr
      some (.var name, name.length + 1)

theorem takeWhile_length_lt {p : UInt8 → Bool} {l : List UInt8} {a : UInt8} (ha : a ∈ l)
    (hp : p a = false) : (l.takeWhile p).length < l.length := by
  have hle := (List.takeWhile_prefix p (l := l)).length_le
  refine Nat.lt_of_le_of_ne hle fun heq => ?_
  have hall := (List.takeWhile_prefix p (l := l)).eq_of_length heq
  have htrue := List.all_eq_true.mp (hall ▸ List.all_takeWhile) a ha
  rw [hp] at htrue
  cases htrue

theorem nextPiece_pos {t : List UInt8} {p : Piece} {k : Nat} (h : nextPiece t = some (p, k)) :
    0 < k ∧ k ≤ t.length := by
  cases t with
  | nil => cases h
  | cons c cs =>
    rw [nextPiece] at h
    split at h
    · cases h
      simp
    · split at h
      · next hbrace =>
        split at h
        · next hclose =>
          cases h
          obtain ⟨x, cs, rfl⟩ : ∃ x xs, cs = x :: xs := by
            cases cs with
            | nil => cases hclose
            | cons x xs => exact ⟨x, xs, rfl⟩
          rw [List.tail_cons] at hclose ⊢
          have hlt := takeWhile_length_lt (p := fun c => c != 125) hclose rfl
          simp only [List.length_cons]
          omega
        · cases h
      · cases h
        have := (List.takeWhile_prefix envChr (l := cs)).length_le
        simp only [List.length_cons]
        omega

def pieces (t : List UInt8) : List Piece :=
  match _h : nextPiece t with
  | none => []
  | some (p, k) => p :: pieces (t.drop k)
termination_by t.length
decreasing_by
  have := nextPiece_pos _h
  simp only [List.length_drop]
  omega

theorem pieces_none {t : List UInt8} (h : nextPiece t = none) : pieces t = [] := by
  rw [pieces]
  split
  · rfl
  · next heq => rw [h] at heq; cases heq

theorem pieces_some {t : List UInt8} {p : Piece} {k : Nat} (h : nextPiece t = some (p, k)) :
    pieces t = p :: pieces (t.drop k) := by
  rw [pieces]
  split
  · next heq => rw [h] at heq; cases heq
  · next heq =>
    rw [h] at heq
    cases heq
    rfl

/-! ## Full expansion -/

/-- The text for a name, `name:-word`, `name:+word`, or a name with something else behind. -/
def bodyText (env : Environ) (body : List UInt8) : List UInt8 :=
  let value := (env (body.takeWhile envChr)).map Text.chars
  let rest := body.dropWhile envChr
  if rest.take 2 = [58, 45] then value.getD (rest.drop 2)
  else if rest.take 2 = [58, 43] then (value.map fun _ => rest.drop 2).getD []
  else value.getD []

def Piece.text (env : Environ) : Piece → List UInt8
  | .literal c => [c]
  | .var body => bodyText env body

def fullExpansion (env : Environ) (t : List UInt8) : List UInt8 :=
  (pieces t).flatMap (Piece.text env)

/-! ## What a buffer takes -/

/-- The text as it is copied. -/
def Piece.cut (env : Environ) (p : Piece) : List UInt8 :=
  (p.text env).take envValueSize

/-- The room that a piece needs. -/
def Piece.need (env : Environ) : Piece → Nat
  | .literal _ => 1
  | .var body => ((Piece.var body).cut env).length + 1

/-- A name or body that is too long. -/
def Piece.Refused : Piece → Prop
  | .literal _ => False
  | .var body => envNameSize < body.length

instance : (p : Piece) → Decidable p.Refused
  | .literal _ => isFalse id
  | .var body => inferInstanceAs (Decidable (envNameSize < body.length))

/-- The return code, and the bytes that end up in a buffer with `room` bytes. -/
def fill (env : Environ) : Nat → List Piece → Int × List UInt8
  | _, [] => (0, [])
  | room, p :: ps =>
    if room = 0 then (0, [])
    else if p.Refused then (-1, [])
    else if p.need env ≤ room then
      let r := fill env (room - (p.cut env).length) ps
      (r.1, p.cut env ++ r.2)
    else (0, [])

@[simp] theorem fill_nil (env : Environ) (room : Nat) : fill env room [] = (0, []) := rfl

@[simp] theorem fill_zero (env : Environ) (ps : List Piece) : fill env 0 ps = (0, []) := by
  cases ps with
  | nil => rfl
  | cons p ps => simp [fill]

theorem fill_refused {env : Environ} {room : Nat} {p : Piece} (ps : List Piece)
    (hr : 0 < room) (hp : p.Refused) : fill env room (p :: ps) = (-1, []) := by
  rw [fill, if_neg (by omega), if_pos hp]

theorem fill_fits {env : Environ} {room : Nat} {p : Piece} (ps : List Piece)
    (hp : ¬ p.Refused) (hn : p.need env ≤ room) :
    fill env room (p :: ps) = ((fill env (room - (p.cut env).length) ps).1,
      p.cut env ++ (fill env (room - (p.cut env).length) ps).2) := by
  have hpos : 0 < p.need env := by
    cases p with
    | literal c => exact Nat.one_pos
    | var body => exact Nat.succ_pos _
  rw [fill, if_neg (by omega), if_neg hp, if_pos hn]

theorem fill_full {env : Environ} {room : Nat} {p : Piece} (ps : List Piece)
    (hn : room < p.need env) : (fill env room (p :: ps)).2 = [] := by
  rw [fill]
  split
  · rfl
  split
  · rfl
  · rw [if_neg (by omega)]

theorem Piece.need_bounds (env : Environ) (p : Piece) :
    (p.cut env).length ≤ p.need env ∧ p.need env ≤ (p.cut env).length + 1 ∧ 0 < p.need env := by
  cases p with
  | literal c => exact ⟨Nat.le_refl _, Nat.le_succ _, Nat.one_pos⟩
  | var body => exact ⟨Nat.le_succ _, Nat.le_refl _, Nat.succ_pos _⟩

theorem fill_length_le (env : Environ) (room : Nat) (ps : List Piece) :
    (fill env room ps).2.length ≤ (ps.flatMap (Piece.text env)).length := by
  induction ps generalizing room with
  | nil => exact Nat.le_refl _
  | cons p ps ih =>
    rw [fill]
    split
    · exact Nat.zero_le _
    split
    · exact Nat.zero_le _
    split
    · have hcut : (p.cut env).length ≤ (p.text env).length := List.length_take_le' _ _
      have := ih (room - (p.cut env).length)
      simp only [List.length_append, List.flatMap_cons]
      omega
    · exact Nat.zero_le _

theorem fill_length_le_room (env : Environ) (room : Nat) (ps : List Piece) :
    (fill env room ps).2.length ≤ room := by
  induction ps generalizing room with
  | nil => exact Nat.zero_le _
  | cons p ps ih =>
    rw [fill]
    split
    · exact Nat.zero_le _
    split
    · exact Nat.zero_le _
    split
    · next hneed =>
      have hcut := (p.need_bounds env).1
      have := ih (room - (p.cut env).length)
      simp only [List.length_append]
      omega
    · exact Nat.zero_le _

/-! ## Templates without variables -/

theorem pieces_literals {t : List UInt8} (h : 36 ∉ t) : pieces t = t.map .literal := by
  induction t with
  | nil => exact pieces_none rfl
  | cons c cs ih =>
    have hc : c ≠ 36 := fun hc => h (hc ▸ List.mem_cons_self)
    have hnext : nextPiece (c :: cs) = some (.literal c, 1) := by rw [nextPiece, if_pos hc]
    rw [pieces_some hnext, List.drop_succ_cons, List.drop_zero, List.map_cons,
      ih (List.not_mem_of_not_mem_cons h)]

theorem fill_literals (env : Environ) (room : Nat) (cs : List UInt8) :
    fill env room (cs.map .literal) = (0, cs.take room) := by
  induction cs generalizing room with
  | nil => simp
  | cons c cs ih =>
    cases room with
    | zero => simp
    | succ room =>
      have hcut : (Piece.literal c).cut env = [c] := rfl
      rw [List.map_cons, fill_fits _ id (Nat.succ_le_succ (Nat.zero_le room)), hcut,
        List.length_singleton, Nat.add_sub_cancel, ih]
      rfl

/-! ## When a buffer takes the whole expansion -/

/-- Every text that is not empty comes where it has room, and is not cut. -/
def RoomForAll (env : Environ) (room : Nat) (ps : List Piece) : Prop :=
  ∀ before p after, ps = before ++ p :: after → p.text env ≠ [] →
    (p.text env).length ≤ envValueSize ∧
      (before.flatMap (Piece.text env)).length + p.need env ≤ room

theorem roomForAll_cons {env : Environ} {room : Nat} {p : Piece} {ps : List Piece}
    (hroom : (p.text env).length ≤ room) :
    RoomForAll env room (p :: ps) ↔
      (p.text env ≠ [] → (p.text env).length ≤ envValueSize ∧ p.need env ≤ room) ∧
        RoomForAll env (room - (p.text env).length) ps := by
  constructor
  · refine fun h => ⟨fun hne => ?_, ?_⟩
    · have hp := h [] p ps rfl hne
      rwa [List.flatMap_nil, List.length_nil, Nat.zero_add] at hp
    · rintro before q after rfl hne
      have hq := h (p :: before) q after rfl hne
      rw [List.flatMap_cons, List.length_append] at hq
      exact ⟨hq.1, by omega⟩
  · rintro ⟨hp, hps⟩ before q after heq hne
    cases before with
    | nil =>
      obtain ⟨rfl, -⟩ : p = q ∧ ps = after := by simpa using heq
      rw [List.flatMap_nil, List.length_nil, Nat.zero_add]
      exact hp hne
    | cons p' before =>
      obtain ⟨rfl, rfl⟩ : p = p' ∧ ps = before ++ q :: after := by simpa using heq
      have hq := hps before q after rfl hne
      have hneed := (q.need_bounds env).2.2
      rw [List.flatMap_cons, List.length_append]
      exact ⟨hq.1, by omega⟩

theorem RoomForAll.short {env : Environ} {room : Nat} {ps : List Piece}
    (h : RoomForAll env room ps) (p : Piece) (hp : p ∈ ps) :
    (p.text env).length ≤ envValueSize := by
  obtain ⟨before, after, rfl⟩ := List.append_of_mem hp
  by_cases hempty : p.text env = []
  · rw [hempty]
    exact Nat.zero_le _
  · exact (h before p after rfl hempty).1

/-- If no name or body is refused, the buffer takes the whole expansion if and only if
there is room for all of its texts. -/
theorem fill_eq_texts_iff {env : Environ} {room : Nat} {ps : List Piece}
    (h : (fill env room ps).1 = 0) :
    (fill env room ps).2 = ps.flatMap (Piece.text env) ↔ RoomForAll env room ps := by
  induction ps generalizing room with
  | nil =>
    refine iff_of_true rfl ?_
    rintro before p after heq
    simp at heq
  | cons p ps ih =>
    obtain ⟨hcutle, hneed, hpos⟩ := p.need_bounds env
    have hcut : (p.cut env).length = min envValueSize (p.text env).length := List.length_take
    rcases Nat.lt_or_ge room (p.need env) with hfull | hfits
    · rw [fill_full ps hfull, List.flatMap_cons]
      by_cases hempty : p.text env = []
      · have hzero : room = 0 := by
          rw [hempty, List.length_nil] at hcut
          omega
        subst hzero
        have hnone : (fill env 0 ps).1 = 0 := by rw [fill_zero]
        rw [roomForAll_cons (by rw [hempty]; exact Nat.le_refl 0), hempty, List.nil_append,
          List.length_nil, ← ih hnone, fill_zero]
        exact ⟨fun heq => ⟨fun hne => absurd rfl hne, heq⟩, fun heq => heq.2⟩
      · refine iff_of_false (fun heq => hempty ?_) (fun hroom => ?_)
        · exact (List.append_eq_nil_iff.mp heq.symm).1
        · have hp := (hroom [] p ps rfl hempty).2
          rw [List.flatMap_nil, List.length_nil] at hp
          omega
    by_cases href : p.Refused
    · rw [fill_refused ps (by omega) href] at h
      exact absurd h (by decide)
    rw [fill_fits ps href hfits] at h ⊢
    rw [List.flatMap_cons]
    rcases Nat.lt_or_ge envValueSize (p.text env).length with hlong | hshort
    · refine iff_of_false (fun heq => ?_) (fun hroom => ?_)
      · have hle := fill_length_le env (room - (p.cut env).length) ps
        have hlen := congrArg List.length heq
        rw [List.length_append, List.length_append] at hlen
        omega
      · have hne : p.text env ≠ [] := List.ne_nil_of_length_pos (by omega)
        have := (hroom [] p ps rfl hne).1
        omega
    · have hwhole : p.cut env = p.text env := List.take_of_length_le hshort
      rw [hwhole] at hcutle h ⊢
      rw [roomForAll_cons (by omega), List.append_cancel_left_eq, ih h]
      exact ⟨fun hroom => ⟨fun _ => ⟨hshort, hfits⟩, hroom⟩, fun hroom => hroom.2⟩

/-- No name or body is too long that comes up with room left. -/
def Accepted (env : Environ) (room : Nat) (ps : List Piece) : Prop :=
  ∀ before p after, ps = before ++ p :: after →
    (before.flatMap (Piece.text env)).length < room → ¬ p.Refused

theorem Accepted.tail {env : Environ} {room : Nat} {p : Piece} {ps : List Piece}
    (h : Accepted env room (p :: ps)) : Accepted env (room - (p.text env).length) ps := by
  rintro before q after rfl hlt
  refine h (p :: before) q after rfl ?_
  rw [List.flatMap_cons, List.length_append]
  omega

theorem fill_code_eq_zero {env : Environ} {room : Nat} {ps : List Piece}
    (ha : Accepted env room ps) (hroom : RoomForAll env room ps) : (fill env room ps).1 = 0 := by
  induction ps generalizing room with
  | nil => rfl
  | cons p ps ih =>
    rcases Nat.eq_zero_or_pos room with rfl | hpos
    · rw [fill_zero]
    have href : ¬ p.Refused := ha [] p ps rfl hpos
    rw [fill, if_neg (by omega), if_neg href]
    split
    · next hneed =>
      have hwhole : p.cut env = p.text env :=
        List.take_of_length_le (hroom.short p List.mem_cons_self)
      have hle := (p.need_bounds env).1
      rw [hwhole] at hle ⊢
      exact ih ha.tail ((roomForAll_cons (by omega)).mp hroom).2
    · rfl

/-! ## When a buffer shows a prefix of the full expansion -/

/-- The bytes in the buffer are a prefix of the texts, and all of them when there is more
room than that. -/
def ShowsPrefix (env : Environ) (room : Nat) (bytes : List UInt8) (ps : List Piece) : Prop :=
  bytes <+: ps.flatMap (Piece.text env) ∧
    ((ps.flatMap (Piece.text env)).length < room → bytes = ps.flatMap (Piece.text env))

/-- The first text of more than 256 bytes comes when there is no room for that many, so it
is not copied. Or there would be no room for all of the texts anyway, and what is left after
256 bytes of this one is too little for the piece behind it. -/
def CutHarmless (env : Environ) (room : Nat) (ps : List Piece) : Prop :=
  ∀ before body after, ps = before ++ .var body :: after →
    (∀ p ∈ before, (p.text env).length ≤ envValueSize) →
    envValueSize < (bodyText env body).length →
    (before.flatMap (Piece.text env)).length + envValueSize < room →
      room ≤ (ps.flatMap (Piece.text env)).length ∧
      ∀ p ∈ after.head?,
        room < (before.flatMap (Piece.text env)).length + envValueSize + p.need env

theorem cutHarmless_short {env : Environ} {room : Nat} {p : Piece} {ps : List Piece}
    (hp : (p.text env).length ≤ envValueSize) (hroom : (p.text env).length ≤ room)
    (h : CutHarmless env room (p :: ps)) : CutHarmless env (room - (p.text env).length) ps := by
  rintro before body after rfl hbefore hbody hlt
  have hp' : ∀ q ∈ p :: before, (q.text env).length ≤ envValueSize := by
    intro q hq
    rcases List.mem_cons.mp hq with rfl | hq
    · exact hp
    · exact hbefore q hq
  obtain ⟨hle, hnext⟩ := h (p :: before) body after rfl hp' hbody
    (by rw [List.flatMap_cons, List.length_append]; omega)
  rw [List.flatMap_cons, List.length_append] at hle hnext
  exact ⟨by omega, fun q hq => by have := hnext q hq; omega⟩

theorem cutHarmless_long {env : Environ} {room : Nat} {body : List UInt8} {ps : List Piece}
    (hp : envValueSize < (bodyText env body).length) (hroom : envValueSize < room)
    (h : CutHarmless env room (.var body :: ps)) :
    room ≤ ((Piece.var body :: ps).flatMap (Piece.text env)).length ∧
      ∀ p ∈ ps.head?, room < envValueSize + p.need env := by
  have := h [] body ps rfl (fun _ hq => absurd hq List.not_mem_nil) hp
    (by rw [List.flatMap_nil, List.length_nil]; omega)
  rwa [List.flatMap_nil, List.length_nil, Nat.zero_add] at this

/-- Nothing is cut where no text is that long. -/
theorem cutHarmless_of_short {env : Environ} {room : Nat} {ps : List Piece}
    (h : ∀ p ∈ ps, (p.text env).length ≤ envValueSize) : CutHarmless env room ps := by
  rintro before body after rfl - hbody -
  exact absurd (h _ (List.mem_append_right _ List.mem_cons_self)) (Nat.not_le_of_lt hbody)

theorem showsPrefix_append {env : Environ} {room : Nat} {p : Piece} {ps : List Piece}
    {bytes : List UInt8} (hroom : (p.text env).length ≤ room) :
    ShowsPrefix env room (p.text env ++ bytes) (p :: ps) ↔
      ShowsPrefix env (room - (p.text env).length) bytes ps := by
  simp only [ShowsPrefix, List.flatMap_cons, List.prefix_append_right_inj,
    List.append_cancel_left_eq, List.length_append]
  constructor
  · exact fun h => ⟨h.1, fun hlt => h.2 (by omega)⟩
  · exact fun h => ⟨h.1, fun hlt => h.2 (by omega)⟩

/-- A cut text with nothing behind it, where there is too little room for all. -/
theorem showsPrefix_cut {env : Environ} {room : Nat} {p : Piece} {ps : List Piece}
    (hroom : room ≤ ((p :: ps).flatMap (Piece.text env)).length) :
    ShowsPrefix env room (p.cut env) (p :: ps) := by
  refine ⟨?_, fun hlt => absurd hlt (Nat.not_lt_of_le hroom)⟩
  rw [List.flatMap_cons]
  exact (List.take_prefix _ _).trans (List.prefix_append _ _)

/-- Nothing is shown where not even the first piece has room. -/
theorem showsPrefix_nil {env : Environ} {room : Nat} {ps : List Piece}
    (hroom : room ≤ (ps.flatMap (Piece.text env)).length) : ShowsPrefix env room [] ps :=
  ⟨List.nil_prefix, fun hlt => absurd hlt (Nat.not_lt_of_le hroom)⟩

/-- A buffer filled without an error shows a prefix of the texts if no cut does harm. -/
theorem fill_showsPrefix {env : Environ} {room : Nat} {ps : List Piece}
    (hcode : (fill env room ps).1 = 0) (h : CutHarmless env room ps) :
    ShowsPrefix env room (fill env room ps).2 ps := by
  induction ps generalizing room with
  | nil => exact ⟨List.nil_prefix, fun _ => rfl⟩
  | cons p ps ih =>
    obtain ⟨hcutle, hneed, hpos⟩ := p.need_bounds env
    have hcut : (p.cut env).length = min envValueSize (p.text env).length := List.length_take
    rcases Nat.lt_or_ge room (p.need env) with hfull | hfits
    · rw [fill_full ps hfull]
      refine showsPrefix_nil ?_
      rw [List.flatMap_cons, List.length_append]
      omega
    by_cases href : p.Refused
    · rw [fill_refused ps (by omega) href] at hcode
      exact absurd hcode (by decide)
    rw [fill_fits ps href hfits] at hcode ⊢
    rcases Nat.lt_or_ge envValueSize (p.text env).length with hlong | hshort
    · obtain ⟨body, rfl⟩ : ∃ body, p = .var body := by
        cases p with
        | literal c => exact absurd hlong (by simp [Piece.text, envValueSize])
        | var body => exact ⟨body, rfl⟩
      have hlen : ((Piece.var body).cut env).length = envValueSize := by omega
      have hroom : envValueSize < room := by
        have : (Piece.var body).need env = ((Piece.var body).cut env).length + 1 := rfl
        omega
      obtain ⟨hle, hnext⟩ := cutHarmless_long hlong hroom h
      have hnothing : (fill env (room - ((Piece.var body).cut env).length) ps).2 = [] := by
        cases ps with
        | nil => rfl
        | cons q qs =>
          have := hnext q rfl
          exact fill_full qs (by omega)
      rw [hnothing, List.append_nil]
      exact showsPrefix_cut hle
    · have hwhole : p.cut env = p.text env := List.take_of_length_le hshort
      rw [hwhole] at hcode hcutle ⊢
      rw [showsPrefix_append (by omega)]
      exact ih hcode (cutHarmless_short hshort (by omega) h)

end Netepoll
