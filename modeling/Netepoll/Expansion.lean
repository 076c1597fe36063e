import Netepoll.Template

/-! `expandEnvStr` fills `OutBuf` piece by piece. What it writes is a prefix of the full
expansion unless a text of more than 256 bytes is cut in the middle. -/

namespace Netepoll

open CString Words

/-! ## Names and texts -/

/-- A pointer to the string `s`; a null pointer stands for the empty one. -/
def TextAt (s : List UInt8) : Option Block → Prop
  | none => s = []
  | some p => Holds p s

theorem textAt_value (o : Option Text) :
    TextAt ((o.map Text.chars).getD []) (o.map Text.block) := by
  cases o with
  | none => rfl
  | some v => exact v.holds

/-- A pointer to the word behind an operator is a pointer into the body. -/
theorem word_holds {b : Block} {body op : List UInt8} (h : Holds b body)
    (hop : (body.dropWhile envChr).take 2 = op) (hlen : op.length = 2) :
    Holds (b.drop ((body.takeWhile envChr).length + 2)) ((body.dropWhile envChr).drop 2) := by
  rw [← hop, ← drop_length_takeWhile, List.length_take, List.length_drop] at hlen
  rw [← drop_length_takeWhile, List.drop_drop]
  exact h.drop (by omega)

theorem envText_eq (env : Environ) {b : Block} {body : List UInt8} (h : Holds b body) :
    ∃ text, envText b (body.takeWhile envChr).length
        ((env (body.takeWhile envChr)).map Text.block) = some text ∧
      TextAt (bodyText env body) text := by
  have hle := (List.takeWhile_prefix envChr (l := body)).length_le
  have hdrop := drop_length_takeWhile envChr body
  have hvalue := textAt_value (env (body.takeWhile envChr))
  rw [envText, h.strlen]
  simp only [Option.bind_eq_bind, Option.bind_some, bodyText]
  generalize hv : env (body.takeWhile envChr) = value at hvalue ⊢
  by_cases hn : (body.takeWhile envChr).length = body.length
  · have hrest : body.dropWhile envChr = [] := by rw [← hdrop, hn, List.drop_length]
    rw [if_pos hn, hrest]
    exact ⟨_, rfl, hvalue⟩
  · have hp := h.drop hle
    have hroom : 2 ≤ (b.drop (body.takeWhile envChr).length).length := by
      have := h.length_lt
      rw [List.length_drop]
      omega
    have hcmp := hp.memcmpEq (q := [58, 45]) (by decide) hroom
    have hcmp' := hp.memcmpEq (q := [58, 43]) (by decide) hroom
    rw [if_neg hn, hcmp, hcmp', hdrop]
    simp only [List.length_cons, List.length_nil, Nat.reduceAdd, Option.bind_some,
      decide_eq_true_eq]
    by_cases hminus : (body.dropWhile envChr).take 2 = [58, 45]
    · rw [if_pos hminus, if_pos hminus]
      refine ⟨_, rfl, ?_⟩
      cases value with
      | none => exact word_holds h hminus rfl
      | some v => exact v.holds
    rw [if_neg hminus, if_neg hminus]
    by_cases hplus : (body.dropWhile envChr).take 2 = [58, 43]
    · rw [if_pos hplus, if_pos hplus]
      refine ⟨_, rfl, ?_⟩
      cases value with
      | none => rfl
      | some v => exact word_holds h hplus rfl
    · rw [if_neg hplus, if_neg hplus]
      exact ⟨_, rfl, hvalue⟩

theorem TextAt.noNul {s : List UInt8} {text : Option Block} (h : TextAt s text) : 0 ∉ s := by
  cases text with
  | none =>
    obtain rfl : s = [] := h
    exact List.not_mem_nil
  | some p => exact Holds.noNul h

/-- The copy to an array of zeros. -/
theorem copy_textAt {text : Option Block} {s : List UInt8} (h : TextAt s text) {n m : Nat}
    (hm : n ≤ m) :
    copyText (zeros m) n text = some (s.take n ++ zeros (m - (s.take n).length)) := by
  cases text with
  | none =>
    obtain rfl : s = [] := h
    simp [copyText]
  | some p => exact strncpy_zeros h hm

theorem getEnvVal_eq (env : Environ) {body : List UInt8} (h0 : 0 ∉ body)
    (hlen : body.length ≤ envNameSize) :
    getEnvVal env (body ++ zeros (envNameSize + 1 - body.length)) (zeros (envValueSize + 1))
        envValueSize =
      some ((((Piece.var body).cut env).length : Int), (Piece.var body).cut env ++
        zeros (envValueSize + 1 - ((Piece.var body).cut env).length)) := by
  have hb := holds_zeros h0 (n := envNameSize + 1 - body.length) (by omega)
  have hle := (List.takeWhile_prefix envChr (l := body)).length_le
  have hname : 0 ∉ body.takeWhile envChr := fun hm => h0 ((List.takeWhile_prefix envChr).subset hm)
  obtain ⟨text, htext, hat⟩ := envText_eq env hb
  have hcut : 0 ∉ (Piece.var body).cut env := fun hm =>
    hat.noNul (List.mem_of_mem_take hm)
  have hshort : ((Piece.var body).cut env).length ≤ envValueSize := List.length_take_le _ _
  have hcopy : copyText (zeros (envValueSize + 1)) envValueSize text =
      some ((Piece.var body).cut env ++
        zeros (envValueSize + 1 - ((Piece.var body).cut env).length)) :=
    copy_textAt hat (Nat.le_succ _)
  have hsmall (n : Nat) (hn : n ≤ envValueSize) : toInt n = n :=
    toInt_of_le (Int.le_trans (Int.ofNat_le.mpr hn) (by decide))
  have hsize : envNameSize ≤ envValueSize := by decide
  rw [getEnvVal, hb.strspn, Option.bind_eq_bind, Option.bind_some, hsmall _ (by omega),
    if_neg (by omega), if_neg (by omega), Int.toNat_natCast,
    memcpy_zeros hb hle (by omega), take_length_takeWhile]
  simp only [Option.bind_eq_bind, Option.bind_some]
  rw [getenv, (holds_zeros hname (by omega)).load, Option.map_some, Option.bind_some, htext,
    Option.bind_some, hcopy, Option.bind_some, (holds_zeros hcut (by omega)).strlen,
    Option.bind_some, hsmall _ hshort]

/-- A scanned name or body in `env_name`, with the `i` behind it. -/
def scanned (body : List UInt8) (i : Nat) : Scan :=
  if envNameSize < body.length then .tooLong
  else .name (body ++ zeros (envNameSize + 1 - body.length)) i

theorem copyName_eq {b : Block} {s : List UInt8} (h : Holds b s) (p : UInt8 → Bool) {i : Nat}
    (hi : (i : Int) ≤ intMax) :
    copyName b ((s.takeWhile p).length : Int) i = some (scanned (s.takeWhile p) i) := by
  have hle := (List.takeWhile_prefix p (l := s)).length_le
  rw [copyName, scanned]
  by_cases hlong : envNameSize < (s.takeWhile p).length
  · rw [if_pos (by omega), if_pos hlong]
  · have hlen : ((s.takeWhile p).length : Int).toNat = (s.takeWhile p).length :=
      Int.toNat_natCast _
    rw [if_neg (by omega), if_neg (by omega), if_neg hlong, hlen,
      memcpy_zeros h hle (by omega), take_length_takeWhile, Option.map_some, Int.toNat_natCast]

theorem scanName_eq {b : Block} {t : List UInt8} (h : Holds b t)
    (ht : (t.length : Int) ≤ intMax) {i : Nat} (hi : i ≤ t.length) :
    scanName b i = some
      (if (t.drop i).head? = some 123 then
        if 125 ∈ (t.drop i).tail then
          scanned ((t.drop i).tail.takeWhile fun c => c != 125)
            (i + ((t.drop i).tail.takeWhile fun c => c != 125).length + 2)
        else .unmatched
      else scanned ((t.drop i).takeWhile envChr) (i + ((t.drop i).takeWhile envChr).length)) := by
  have hp := h.drop hi
  have hchar := h.getElem? hi
  have hhead : t[i]? = (t.drop i).head? := by rw [List.head?_drop]
  have hlen : i + (t.drop i).length = t.length := by
    rw [List.length_drop]
    omega
  rw [scanName, hchar, hhead]
  simp only [Option.bind_eq_bind, Option.bind_some]
  generalize hcs : t.drop i = cs at hp hlen ⊢
  by_cases hbrace : cs.head? = some 123
  · obtain ⟨cs, rfl⟩ : ∃ xs, cs = 123 :: xs := by
      cases cs with
      | nil => cases hbrace
      | cons x xs => exact ⟨xs, by rw [List.head?_cons, Option.some.injEq] at hbrace; rw [hbrace]⟩
    have hlt : i < t.length := lt_length_of_drop hcs
    have hbody : Holds (b.drop (i + 1)) cs := by
      have := hp.drop (n := 1) (by simp)
      rwa [List.drop_drop, List.drop_succ_cons, List.drop_zero] at this
    have hindex : index 125 (b.drop i) = some
        (if 125 ∈ cs then some ((cs.takeWhile fun c => c != 125).length + 1) else none) := by
      rw [hp.index (by decide)]
      simp
    rw [if_neg (by rw [hbrace]; simp), hindex, if_pos hbrace, List.tail_cons]
    rw [List.length_cons] at hlen
    by_cases hclose : 125 ∈ cs
    · have hlt := takeWhile_length_lt (p := fun c => c != 125) hclose rfl
      have hsum : (i : Int) + (((cs.takeWhile fun c => c != 125).length : Int) + 2) =
          ((i + (cs.takeWhile fun c => c != 125).length + 2 : Nat) : Int) := by omega
      rw [if_pos hclose, if_pos hclose]
      simp only [Option.bind_some, Int.natCast_add, Int.natCast_one, Int.add_sub_cancel]
      rw [toInt_of_le (by omega), hsum]
      exact copyName_eq hbody _ (by omega)
    · rw [if_neg hclose, if_neg hclose]
      rfl
  · have hne : cs.head?.getD 0 ≠ 123 := fun heq => by
      cases cs with
      | nil => cases heq
      | cons x xs => exact hbrace (congrArg some heq)
    have hle := (List.takeWhile_prefix envChr (l := cs)).length_le
    rw [if_pos hne, hp.strspn, if_neg hbrace, Option.bind_some, toInt_of_le (by omega),
      ← Int.natCast_add]
    exact copyName_eq hp _ (by omega)

/-! ## One turn of the loop -/

/-- A turn on a piece of `k` characters. -/
def pieceTurn (env : Environ) (bufSize : Int) (e : Expand) (k : Nat) : Piece → Option Turn
  | .literal c =>
    if e.pos < e.outBuf.length then
      some (.next ⟨e.i + k, e.pos + 1, splice e.outBuf e.pos [c]⟩)
    else none
  | .var body =>
    let text := (Piece.var body).cut env
    if envNameSize < body.length then some (.leave (-1))
    else if intMax < e.pos + text.length then none
    else if bufSize ≤ e.pos + text.length then some (.leave 0)
    else if e.pos + text.length ≤ e.outBuf.length then
      some (.next ⟨e.i + k, e.pos + text.length, splice e.outBuf e.pos text⟩)
    else none

/-- The turn after a name or body is scanned. -/
theorem scannedTurn_eq (env : Environ) (bufSize : Int) (e : Expand) {body : List UInt8}
    (h0 : 0 ∉ body) {i k : Nat} (hk : i = e.i + k) :
    (match scanned body i with
      | .tooLong => some (.leave (-1))
      | .unmatched => some (.leave 0)
      | .name envName i =>
        (getEnvVal env envName (zeros (envValueSize + 1)) envValueSize).bind fun r =>
          if r.1 < 0 then some (.leave (-1))
          else if intMax < e.pos + r.1 then none
          else if bufSize ≤ e.pos + r.1 then some (.leave 0)
          else (memcpy e.outBuf e.pos r.2 r.1.toNat).bind fun outBuf =>
            some (.next ⟨i, e.pos + r.1.toNat, outBuf⟩)) =
      pieceTurn env bufSize e k (.var body) := by
  subst hk
  rw [scanned, pieceTurn]
  by_cases hlong : envNameSize < body.length
  · rw [if_pos hlong, if_pos hlong]
  rw [if_neg hlong, if_neg hlong]
  simp only [getEnvVal_eq env h0 (Nat.le_of_not_lt hlong), Option.bind_some, Int.toNat_natCast]
  generalize (Piece.var body).cut env = text
  rw [if_neg (by omega)]
  split
  · rfl
  split
  · rfl
  have hle : text.length ≤ (text ++ zeros (envValueSize + 1 - text.length)).length := by
    rw [List.length_append]
    exact Nat.le_add_right _ _
  rw [memcpy, List.take_left]
  by_cases hroom : e.pos + text.length ≤ e.outBuf.length
  · rw [if_pos ⟨hle, hroom⟩, if_pos hroom, Option.bind_some]
  · rw [if_neg (fun h => hroom h.2), if_neg hroom]
    rfl

theorem expandTurn_eq (env : Environ) (bufSize : Int) {b : Block} {t : List UInt8}
    (h : Holds b t) (ht : (t.length : Int) ≤ intMax) {e : Expand} (hi : e.i < t.length) :
    expandTurn env b bufSize e =
      match nextPiece (t.drop e.i) with
      | none => some (.leave 0)
      | some (p, k) => pieceTurn env bufSize e k p := by
  have hchar := h.getElem?_of_lt hi
  have hscan := scanName_eq h ht (i := e.i + 1) hi
  have hdrop := List.drop_eq_getElem_cons hi
  rw [List.getElem?_eq_getElem hi] at hchar
  have h0 : 0 ∉ t.drop (e.i + 1) := fun hm => h.noNul (List.mem_of_mem_drop hm)
  rw [expandTurn, hchar, hdrop, hscan]
  simp only [Option.bind_eq_bind, Option.bind_some, nextPiece]
  generalize t.drop (e.i + 1) = cs at h0 ⊢
  by_cases hlit : t[e.i] = 36
  · have hdollar : ¬ t[e.i] ≠ 36 := fun hne => hne hlit
    rw [if_neg hdollar, if_neg hdollar]
    by_cases hbrace : cs.head? = some 123
    · rw [if_pos hbrace, if_pos hbrace]
      by_cases hclose : 125 ∈ cs.tail
      · rw [if_pos hclose, if_pos hclose]
        have hsub : (cs.tail.takeWhile fun c => c != 125) ⊆ cs.tail :=
          (List.takeWhile_prefix _).subset
        exact scannedTurn_eq env bufSize e
          (fun hm => h0 (List.mem_of_mem_tail (hsub hm))) (by omega)
      · rw [if_neg hclose, if_neg hclose]
    · rw [if_neg hbrace, if_neg hbrace]
      have hsub : cs.takeWhile envChr ⊆ cs := (List.takeWhile_prefix _).subset
      exact scannedTurn_eq env bufSize e (fun hm => h0 (hsub hm)) (by omega)
  · rw [if_pos hlit, if_pos hlit]
    simp only [poke, pieceTurn]
    split <;> rfl

/-! ## Runs of the loop -/

/-- The room that is left in `OutBuf`. -/
def Expand.room (bufSize : Int) (e : Expand) : Nat := (bufSize - e.pos).toNat

/-- `OutBuf` after the piece `p` of `k` characters is copied. -/
def Expand.copied (env : Environ) (e : Expand) (p : Piece) (k : Nat) : Expand :=
  ⟨e.i + k, e.pos + (p.cut env).length, splice e.outBuf e.pos (p.cut env)⟩

/-- A turn either ends the run where `fill` ends or copies the piece as `fill` does. -/
theorem pieceTurn_cases {env : Environ} {bufSize : Int} {e : Expand} {p : Piece} {k : Nat}
    {turn : Turn} (h : pieceTurn env bufSize e k p = some turn)
    (hpos : (e.pos : Int) < bufSize) :
    (∃ code, turn = .leave code ∧ ∀ ps, fill env (e.room bufSize) (p :: ps) = (code, [])) ∨
    (turn = .next (e.copied env p k) ∧ ¬ p.Refused ∧ p.need env ≤ e.room bufSize ∧
      e.pos + (p.cut env).length ≤ e.outBuf.length) := by
  have hroom : (e.room bufSize : Int) = bufSize - e.pos := Int.toNat_of_nonneg (by omega)
  cases p with
  | literal c =>
    simp only [pieceTurn] at h
    split at h
    · next hout =>
      cases h
      refine Or.inr ⟨rfl, id, ?_, hout⟩
      have : (Piece.literal c).need env = 1 := rfl
      omega
    · cases h
  | var body =>
    have hneed : (Piece.var body).need env = ((Piece.var body).cut env).length + 1 := rfl
    simp only [pieceTurn] at h
    split at h
    · next hlong =>
      cases h
      exact Or.inl ⟨-1, rfl, fun ps => fill_refused ps (by omega) hlong⟩
    next hlong =>
    have href : ¬ (Piece.var body).Refused := hlong
    split at h
    · cases h
    split at h
    · next hfull =>
      cases h
      refine Or.inl ⟨0, rfl, fun ps => ?_⟩
      rw [fill, if_neg (by omega), if_neg href, if_neg (by omega)]
    next hfits =>
    split at h
    · next hout =>
      cases h
      exact Or.inr ⟨rfl, href, by omega, hout⟩
    · cases h

/-- The loop ends where nothing is left to copy or no room. -/
theorem fill_done (env : Environ) {bufSize : Int} {t : List UInt8} {e : Expand}
    (hdone : ¬ ((e.i : Int) < t.length ∧ (e.pos : Int) < bufSize)) :
    fill env (e.room bufSize) (pieces (t.drop e.i)) = (0, []) := by
  rcases Nat.lt_or_ge e.i t.length with hlt | hge
  · have hzero : e.room bufSize = 0 := by
      have : ¬ (e.pos : Int) < bufSize := fun hp => hdone ⟨Int.ofNat_lt.mpr hlt, hp⟩
      rw [Expand.room]
      omega
    rw [hzero, fill_zero]
  · rw [List.drop_eq_nil_of_le hge, pieces_none rfl, fill_nil]

/-- From `e` on, the return value `code` and the variables `e'` are those of filling the
rest of `OutBuf` with the pieces of the rest of the template. -/
structure Filled (env : Environ) (bufSize : Int) (t : List UInt8) (e : Expand) (code : Int)
    (e' : Expand) : Prop where
  code : code = (fill env (e.room bufSize) (pieces (t.drop e.i))).1
  pos : e'.pos = e.pos + (fill env (e.room bufSize) (pieces (t.drop e.i))).2.length
  outBuf : e'.outBuf = splice e.outBuf e.pos
    (fill env (e.room bufSize) (pieces (t.drop e.i))).2

theorem filled_of_nothing {env : Environ} {bufSize : Int} {t : List UInt8} {e : Expand}
    {code : Int} (h : fill env (e.room bufSize) (pieces (t.drop e.i)) = (code, [])) :
    Filled env bufSize t e code e := by
  refine ⟨?_, ?_, ?_⟩
  · rw [h]
  · rw [h]
    rfl
  · rw [h, splice_nil]

/-- The pieces behind a copied one are filled in after it. -/
theorem Filled.cons {env : Environ} {bufSize : Int} {t : List UInt8} {e e' : Expand}
    {code : Int} {p : Piece} {k : Nat} (hnext : nextPiece (t.drop e.i) = some (p, k))
    (href : ¬ p.Refused) (hneed : p.need env ≤ e.room bufSize)
    (hroom : e.pos + (p.cut env).length ≤ e.outBuf.length)
    (h : Filled env bufSize t (e.copied env p k) code e') : Filled env bufSize t e code e' := by
  have hleft : (e.copied env p k).room bufSize = e.room bufSize - (p.cut env).length := by
    simp only [Expand.room, Expand.copied]
    omega
  have hfill := fill_fits (pieces ((t.drop e.i).drop k)) href hneed
  rw [← pieces_some hnext, List.drop_drop] at hfill
  obtain ⟨hcode, hpos, hbuf⟩ := h
  rw [hleft] at hcode hpos hbuf
  refine ⟨?_, ?_, ?_⟩
  · rw [hfill, hcode]
    rfl
  · rw [hfill, hpos, List.length_append, ← Nat.add_assoc]
    rfl
  · rw [hfill, hbuf]
    exact splice_splice _ _ hroom

/-- A run of the loop fills the rest of `OutBuf` with the pieces of the rest of the
template. -/
theorem expandLoop_fill {env : Environ} {bufSize : Int} {b : Block} {t : List UInt8}
    (h : Holds b t) (ht : (t.length : Int) ≤ intMax) {fuel : Nat} {e e' : Expand} {code : Int}
    (hout : e.pos ≤ e.outBuf.length)
    (hrun : expandLoop env b t.length bufSize fuel e = some (code, e')) :
    Filled env bufSize t e code e' := by
  induction fuel generalizing e with
  | zero =>
    rw [expandLoop] at hrun
    split at hrun
    · cases hrun
    · next hguard =>
      cases hrun
      exact filled_of_nothing (fill_done env hguard)
  | succ fuel ih =>
    rw [expandLoop] at hrun
    split at hrun
    · next hguard =>
      rw [expandTurn_eq env bufSize h ht (Int.ofNat_lt.mp hguard.1)] at hrun
      cases hnext : nextPiece (t.drop e.i) with
      | none =>
        rw [hnext] at hrun
        cases hrun
        exact filled_of_nothing (by rw [pieces_none hnext, fill_nil])
      | some pk =>
        obtain ⟨p, k⟩ := pk
        rw [hnext] at hrun
        obtain ⟨turn, hturn, hrest⟩ := Option.bind_eq_some_iff.mp hrun
        rcases pieceTurn_cases hturn hguard.2 with ⟨c, rfl, hfill⟩ | ⟨rfl, href, hneed, hroom⟩
        · cases hrest
          exact filled_of_nothing (by rw [pieces_some hnext, hfill])
        · refine (ih ?_ hrest).cons hnext href hneed hroom
          rw [Expand.copied, splice_length hroom]
          exact hroom
    · next hguard =>
      cases hrun
      exact filled_of_nothing (fill_done env hguard)

/-- With `BufSize` bytes behind `OutBuf`, and few enough that `pos+val_len` stays an `int`,
a turn stays inside all arrays. -/
theorem pieceTurn_returns (env : Environ) {bufSize : Int} {e : Expand} (k : Nat) (p : Piece)
    (hpos : (e.pos : Int) < bufSize) (hout : bufSize ≤ e.outBuf.length)
    (hmax : bufSize + envValueSize ≤ intMax) : ∃ turn, pieceTurn env bufSize e k p = some turn := by
  have hcut : ((Piece.cut env p).length : Int) ≤ envValueSize :=
    Int.ofNat_le.mpr (List.length_take_le _ _)
  cases p with
  | literal c =>
    rw [pieceTurn, if_pos (by omega)]
    exact ⟨_, rfl⟩
  | var body =>
    simp only [pieceTurn]
    split
    · exact ⟨_, rfl⟩
    rw [if_neg (by omega)]
    split
    · exact ⟨_, rfl⟩
    · rw [if_pos (by omega)]
      exact ⟨_, rfl⟩

/-- Every turn consumes a character, so as many turns as there are characters will do. -/
theorem expandLoop_returns (env : Environ) {bufSize : Int} {b : Block} {t : List UInt8}
    (h : Holds b t) (ht : (t.length : Int) ≤ intMax) {fuel : Nat} {e : Expand}
    (hfuel : t.length ≤ e.i + fuel) (hout : bufSize ≤ e.outBuf.length)
    (hmax : bufSize + envValueSize ≤ intMax) :
    ∃ r, expandLoop env b t.length bufSize fuel e = some r := by
  induction fuel generalizing e with
  | zero =>
    rw [expandLoop, if_neg (by omega)]
    exact ⟨_, rfl⟩
  | succ fuel ih =>
    rw [expandLoop]
    split
    · next hguard =>
      rw [expandTurn_eq env bufSize h ht (Int.ofNat_lt.mp hguard.1)]
      cases hnext : nextPiece (t.drop e.i) with
      | none => exact ⟨_, rfl⟩
      | some pk =>
        obtain ⟨p, k⟩ := pk
        obtain ⟨turn, hturn⟩ := pieceTurn_returns env k p hguard.2 hout hmax
        simp only [hturn, Option.bind_eq_bind, Option.bind_some]
        rcases pieceTurn_cases hturn hguard.2 with ⟨c, rfl, -⟩ | ⟨rfl, -, -, hroom⟩
        · exact ⟨_, rfl⟩
        · have hk := (nextPiece_pos hnext).1
          refine ih ?_ ?_
          · simp only [Expand.copied]
            omega
          · rw [Expand.copied, splice_length hroom]
            exact hout
    · exact ⟨_, rfl⟩

/-- A template whose length is an `int`. -/
theorem expandEnvStr_loop (env : Environ) {b : Block} {t : List UInt8} (h : Holds b t)
    (ht : (t.length : Int) ≤ intMax) (outBuf : Block) (bufSize : Int) :
    expandEnvStr env b outBuf bufSize =
      expandLoop env b t.length bufSize t.length ⟨0, 0, outBuf⟩ := by
  rw [expandEnvStr, h.strlen, Option.bind_eq_bind, Option.bind_some, toInt_of_le ht]
  simp only [Int.toNat_natCast]

theorem expandEnvStr_returns (env : Environ) {bufSize : Int} {b outBuf : Block}
    {t : List UInt8} (h : Holds b t) (ht : (t.length : Int) ≤ intMax)
    (hout : bufSize ≤ outBuf.length) (hmax : bufSize + envValueSize ≤ intMax) :
    ∃ r, expandEnvStr env b outBuf bufSize = some r := by
  rw [expandEnvStr_loop env h ht]
  exact expandLoop_returns env h ht (by omega) hout hmax

/-- `expandEnvStr` fills `OutBuf` from the start with the pieces of the template. -/
theorem expandEnvStr_fill {env : Environ} {bufSize : Int} {b outBuf : Block} {t : List UInt8}
    (h : Holds b t) (ht : (t.length : Int) ≤ intMax) {e : Expand} {code : Int}
    (hrun : expandEnvStr env b outBuf bufSize = some (code, e)) :
    code = (fill env bufSize.toNat (pieces t)).1 ∧
      e.pos = (fill env bufSize.toNat (pieces t)).2.length ∧
      e.outBuf = splice outBuf 0 (fill env bufSize.toNat (pieces t)).2 := by
  rw [expandEnvStr_loop env h ht] at hrun
  obtain ⟨hcode, hpos, hbuf⟩ := expandLoop_fill h ht (Nat.zero_le _) hrun
  have hroom : Expand.room bufSize ⟨0, 0, outBuf⟩ = bufSize.toNat := by
    rw [Expand.room, Int.natCast_zero, Int.sub_zero]
  rw [hroom, List.drop_zero] at hcode hpos hbuf
  exact ⟨hcode, by rw [hpos, Nat.zero_add], hbuf⟩

/-! ## Templates of any length -/

theorem memcpy_eq_some {dst src r : Block} {off n : Nat} (h : memcpy dst off src n = some r) :
    off + n ≤ dst.length ∧ ∃ bs, bs.length = n ∧ r = splice dst off bs := by
  rw [memcpy] at h
  split at h
  · next hfits =>
    cases h
    exact ⟨hfits.2, _, List.length_take_of_le hfits.1, rfl⟩
  · cases h

/-- `OutBuf` has its length, and is as it was from `pos` on, which is one of its first
`BufSize` bytes or the one behind them. -/
structure Bounded (outBuf : Block) (bufSize : Int) (e : Expand) : Prop where
  pos : e.pos ≤ bufSize.toNat
  length : e.outBuf.length = outBuf.length
  behind : e.outBuf.drop e.pos = outBuf.drop e.pos

theorem Bounded.splice {outBuf : Block} {bufSize : Int} {e : Expand}
    (h : Bounded outBuf bufSize e) {bs : List UInt8} (hroom : e.pos + bs.length ≤ e.outBuf.length)
    (hpos : e.pos + bs.length ≤ bufSize.toNat) (i : Nat) :
    Bounded outBuf bufSize ⟨i, e.pos + bs.length, splice e.outBuf e.pos bs⟩ := by
  refine ⟨hpos, ?_, ?_⟩
  · rw [splice_length hroom, h.length]
  · rw [splice_drop _ (by omega), ← List.drop_drop, h.behind, List.drop_drop]

theorem Bounded.turn {env : Environ} {inBuf outBuf : Block} {bufSize : Int} {e e' : Expand}
    (h : Bounded outBuf bufSize e) (hpos : (e.pos : Int) < bufSize)
    (hturn : expandTurn env inBuf bufSize e = some (.next e')) : Bounded outBuf bufSize e' := by
  rw [expandTurn] at hturn
  obtain ⟨c, -, hturn⟩ := Option.bind_eq_some_iff.mp hturn
  split at hturn
  · obtain ⟨b, hb, hturn⟩ := Option.bind_eq_some_iff.mp hturn
    cases hturn
    rw [poke] at hb
    split at hb
    · next hroom =>
      cases hb
      have hone : e.pos + [c].length ≤ e.outBuf.length := hroom
      exact h.splice hone (by rw [List.length_singleton]; omega) _
    · cases hb
  · obtain ⟨scan, -, hturn⟩ := Option.bind_eq_some_iff.mp hturn
    cases scan with
    | tooLong => cases hturn
    | unmatched => cases hturn
    | name envName i =>
      obtain ⟨⟨valLen, envVal⟩, -, hturn⟩ := Option.bind_eq_some_iff.mp hturn
      simp only at hturn
      split at hturn
      · cases hturn
      next hneg =>
      split at hturn
      · cases hturn
      split at hturn
      · cases hturn
      next hfits =>
      obtain ⟨b, hb, hturn⟩ := Option.bind_eq_some_iff.mp hturn
      cases hturn
      obtain ⟨hroom, bs, hbs, rfl⟩ := memcpy_eq_some hb
      rw [← hbs] at hroom ⊢
      exact h.splice hroom (by omega) _

theorem Bounded.loop {env : Environ} {inBuf outBuf : Block} {len bufSize : Int} {fuel : Nat}
    {e e' : Expand} {code : Int} (h : Bounded outBuf bufSize e)
    (hrun : expandLoop env inBuf len bufSize fuel e = some (code, e')) :
    Bounded outBuf bufSize e' := by
  induction fuel generalizing e with
  | zero =>
    rw [expandLoop] at hrun
    split at hrun
    · cases hrun
    · cases hrun
      exact h
  | succ fuel ih =>
    rw [expandLoop] at hrun
    split at hrun
    · next hguard =>
      obtain ⟨turn, hturn, hrest⟩ := Option.bind_eq_some_iff.mp hrun
      cases turn with
      | leave c =>
        cases hrest
        exact h
      | next e₁ => exact ih (h.turn hguard.2 hturn) hrest
    · cases hrun
      exact h

/-- Whatever the length of the template, where `expandEnvStr` returns it has stayed in the
first `BufSize` bytes of `OutBuf`. -/
theorem expandEnvStr_bounded {env : Environ} {inBuf outBuf : Block} {bufSize : Int} {e : Expand}
    {code : Int} (hrun : expandEnvStr env inBuf outBuf bufSize = some (code, e)) :
    Bounded outBuf bufSize e := by
  rw [expandEnvStr] at hrun
  obtain ⟨n, -, hrun⟩ := Option.bind_eq_some_iff.mp hrun
  have hstart : Bounded outBuf bufSize ⟨0, 0, outBuf⟩ := ⟨Nat.zero_le _, rfl, rfl⟩
  exact hstart.loop hrun

/-- The zeros behind `OutBuf` end a string. -/
theorem expandEnvStr_terminated {env : Environ} {inBuf : Block} {n : Nat} {e : Expand}
    {code : Int} (hrun : expandEnvStr env inBuf (zeros (n + 1)) n = some (code, e)) :
    Holds e.outBuf (e.outBuf.takeWhile fun c => c != 0) := by
  have hb := expandEnvStr_bounded hrun
  have hpos : e.pos ≤ n := hb.pos
  refine holds_takeWhile (List.mem_of_mem_drop (i := e.pos) ?_)
  rw [hb.behind, zeros, List.drop_replicate, List.mem_replicate]
  exact ⟨by omega, rfl⟩

/-! ## What is written is a string -/

theorem bodyText_noNul (env : Environ) {body : List UInt8} (h : 0 ∉ body) :
    0 ∉ bodyText env body := by
  obtain ⟨text, -, hat⟩ := envText_eq env (b := body ++ [0]) ⟨h, [], rfl⟩
  exact hat.noNul

theorem nextPiece_noNul (env : Environ) {t : List UInt8} (h : 0 ∉ t) {p : Piece} {k : Nat}
    (hnext : nextPiece t = some (p, k)) : 0 ∉ p.text env := by
  cases t with
  | nil => cases hnext
  | cons c cs =>
    have hcs : 0 ∉ cs := List.not_mem_of_not_mem_cons h
    have hsub (q : UInt8 → Bool) (l : List UInt8) (hl : 0 ∉ l) : 0 ∉ l.takeWhile q :=
      fun hm => hl ((List.takeWhile_prefix q).subset hm)
    rw [nextPiece] at hnext
    split at hnext
    · cases hnext
      rw [Piece.text, List.mem_singleton]
      exact fun hc => h (hc ▸ List.mem_cons_self)
    split at hnext
    · split at hnext
      · cases hnext
        exact bodyText_noNul env (hsub _ _ fun hm => hcs (List.mem_of_mem_tail hm))
      · cases hnext
    · cases hnext
      exact bodyText_noNul env (hsub _ _ hcs)

theorem pieces_noNul (env : Environ) {t : List UInt8} (h : 0 ∉ t) :
    ∀ p ∈ pieces t, 0 ∉ p.text env := by
  induction t using pieces.induct with
  | case1 t hnext =>
    rw [pieces_none hnext]
    exact fun p hp => absurd hp List.not_mem_nil
  | case2 t p k hnext ih =>
    rw [pieces_some hnext]
    intro q hq
    rcases List.mem_cons.mp hq with rfl | hq
    · exact nextPiece_noNul env h hnext
    · exact ih (fun hm => h (List.mem_of_mem_drop hm)) q hq

theorem fill_noNul {env : Environ} {ps : List Piece} (h : ∀ p ∈ ps, 0 ∉ p.text env)
    (room : Nat) : 0 ∉ (fill env room ps).2 := by
  induction ps generalizing room with
  | nil => exact List.not_mem_nil
  | cons p ps ih =>
    rw [fill]
    split
    · exact List.not_mem_nil
    split
    · exact List.not_mem_nil
    split
    · rw [List.mem_append]
      rintro (hm | hm)
      · exact h p List.mem_cons_self (List.mem_of_mem_take hm)
      · exact ih (fun q hq => h q (List.mem_cons_of_mem _ hq)) _ hm
    · exact List.not_mem_nil

/-- The array of zeros behind `OutBuf` ends the string. -/
theorem expandEnvStr_zeros (env : Environ) {b : Block} {t : List UInt8} (h : Holds b t)
    (ht : (t.length : Int) ≤ intMax) {n : Nat} (hmax : (n : Int) + envValueSize ≤ intMax) :
    ∃ code e, expandEnvStr env b (zeros (n + 1)) n = some (code, e) ∧
      Holds e.outBuf (fill env n (pieces t)).2 := by
  have hroom : (n : Int) ≤ (zeros (n + 1)).length := by
    rw [zeros_length]
    omega
  obtain ⟨⟨code, e⟩, hrun⟩ := expandEnvStr_returns env h ht hroom hmax
  refine ⟨code, e, hrun, ?_⟩
  obtain ⟨-, -, hbuf⟩ := expandEnvStr_fill h ht hrun
  have hle := fill_length_le_room env n (pieces t)
  rw [hbuf, Int.toNat_natCast, splice_zeros]
  exact holds_zeros (fill_noNul (pieces_noNul env h.noNul) n) (by omega)

/-- The bytes that were written. -/
def Expand.written (e : Expand) : List UInt8 := e.outBuf.take e.pos

theorem expandEnvStr_written {env : Environ} {bufSize : Int} {b outBuf : Block}
    {t : List UInt8} (h : Holds b t) (ht : (t.length : Int) ≤ intMax) {e : Expand} {code : Int}
    (hrun : expandEnvStr env b outBuf bufSize = some (code, e)) :
    e.written = (fill env bufSize.toNat (pieces t)).2 := by
  obtain ⟨-, hpos, hbuf⟩ := expandEnvStr_fill h ht hrun
  have htake := splice_take (fill env bufSize.toNat (pieces t)).2 (Nat.zero_le outBuf.length)
  rw [Nat.zero_add, List.take_zero, List.nil_append] at htake
  rw [Expand.written, hpos, hbuf, htake]

/-- A run that returns 0 has written a prefix of the full expansion, all of it where that
is shorter than `BufSize`, if no cut does harm; and only then where it is shorter. -/
theorem expandEnvStr_showsPrefix (env : Environ) (t : Text) (junk outBuf : Block)
    (bufSize : Int) (e : Expand) (ht : (t.chars.length : Int) ≤ intMax)
    (hrun : expandEnvStr env (t.block ++ junk) outBuf bufSize = some (0, e)) :
    (CutHarmless env bufSize.toNat (pieces t.chars) →
      e.written <+: fullExpansion env t.chars ∧
        (((fullExpansion env t.chars).length : Int) < bufSize →
          e.written = fullExpansion env t.chars)) ∧
    (((fullExpansion env t.chars).length : Int) < bufSize →
      e.written = fullExpansion env t.chars → CutHarmless env bufSize.toNat (pieces t.chars)) := by
  have h : Holds (t.block ++ junk) t.chars :=
    ⟨t.noNul, junk, by rw [Text.block, List.append_assoc]; rfl⟩
  have hcode := (expandEnvStr_fill h ht hrun).1
  rw [expandEnvStr_written h ht hrun, fullExpansion]
  constructor
  · intro hcut
    obtain ⟨hpre, hwhole⟩ := fill_showsPrefix hcode.symm hcut
    exact ⟨hpre, fun hlt => hwhole (Int.lt_toNat.mpr hlt)⟩
  · intro _ hwhole
    exact cutHarmless_of_short ((fill_eq_texts_iff hcode.symm).mp hwhole).short

/-- `B` is set to `bb`. -/
def shortEnv : Environ := fun name =>
  if name = [66] then some ⟨[98, 98], by decide⟩ else none

theorem pieces_shortTemplate : pieces [36, 66, 47, 120] =
    [.var [66], .literal 47, .literal 120] := by
  rw [pieces_some (p := .var [66]) (k := 2) rfl, List.drop_succ_cons, List.drop_succ_cons,
    List.drop_zero, pieces_some (p := .literal 47) (k := 1) rfl, List.drop_succ_cons,
    List.drop_zero, pieces_some (p := .literal 120) (k := 1) rfl, List.drop_succ_cons,
    List.drop_zero, pieces_none rfl]

set_option maxRecDepth 8000 in
/-- The template `$B/x` into 3 bytes: `bb/`. -/
theorem expandEnvStr_showsPrefix_short :
    [98, 98, 47] <+: fullExpansion shortEnv [36, 66, 47, 120] ∧
      (((fullExpansion shortEnv [36, 66, 47, 120]).length : Int) < 3 →
        [98, 98, 47] = fullExpansion shortEnv [36, 66, 47, 120]) :=
  (expandEnvStr_showsPrefix shortEnv ⟨[36, 66, 47, 120], by decide⟩ [] [0, 0, 0] 3
    ⟨3, 3, [98, 98, 47]⟩ (by decide) (by decide)).1
    (cutHarmless_of_short (by rw [pieces_shortTemplate]; decide))

/-- `A` is set to 300 bytes `a`. -/
def longEnv : Environ := fun name =>
  if name = [65] then
    some ⟨List.replicate 300 97, fun h => absurd (List.eq_of_mem_replicate h) (by decide)⟩
  else none

theorem pieces_longTemplate : pieces [36, 65, 47, 120] =
    [.var [65], .literal 47, .literal 120] := by
  rw [pieces_some (p := .var [65]) (k := 2) rfl, List.drop_succ_cons, List.drop_succ_cons,
    List.drop_zero, pieces_some (p := .literal 47) (k := 1) rfl, List.drop_succ_cons,
    List.drop_zero, pieces_some (p := .literal 120) (k := 1) rfl, List.drop_succ_cons,
    List.drop_zero, pieces_none rfl]

set_option maxRecDepth 8000 in
/-- The template `$A/x` into 400 bytes: `/x` comes behind 256 bytes of the value. -/
theorem not_expandEnvStr_showsPrefix :
    ¬ ∀ (env : Environ) (t : Text) (junk outBuf : Block) (bufSize : Int) (e : Expand),
      0 ≤ bufSize → expandEnvStr env (t.block ++ junk) outBuf bufSize = some (0, e) →
      e.written <+: fullExpansion env t.chars ∧
        (((fullExpansion env t.chars).length : Int) < bufSize →
          e.written = fullExpansion env t.chars) := by
  intro hall
  have h : Holds ((⟨[36, 65, 47, 120], by decide⟩ : Text).block ++ []) [36, 65, 47, 120] :=
    ⟨by decide, [], rfl⟩
  have ht : (([36, 65, 47, 120] : List UInt8).length : Int) ≤ intMax := by decide
  have hout : (400 : Int) ≤ (zeros 400).length := by
    rw [zeros_length]
    decide
  obtain ⟨⟨code, e⟩, hrun⟩ := expandEnvStr_returns longEnv h ht hout (by decide)
  have hcode := (expandEnvStr_fill h ht hrun).1
  have hwritten := expandEnvStr_written h ht hrun
  rw [pieces_longTemplate] at hcode hwritten
  obtain rfl : code = 0 := by
    rw [hcode]
    decide
  have hpre := (hall _ _ _ _ _ e (by decide) hrun).1
  rw [hwritten, fullExpansion, pieces_longTemplate] at hpre
  revert hpre
  decide

end Netepoll
