import Netepoll.Lib.Words

/-! C arrays as finite blocks of bytes, and the string functions on them. A pointer into
an array is the part of the block from there on. An access outside the block has no
result, so "inside the array" is a statement to prove. -/

namespace CString

/-- The bytes of an array. -/
abbrev Block := List UInt8

/-- What is so for 256 bytes is so for every byte. -/
theorem forall_byte {P : UInt8 → Prop} (h : ∀ n : Fin 256, P (UInt8.ofFin n)) (c : UInt8) : P c :=
  h c.toFin

/-- The greatest `int`. -/
def intMax : Int := 2147483647

/-- A number converted to an `int` of 32 bits. -/
def toInt (n : Int) : Int := n.bmod 4294967296

theorem toInt_of_le {n : Nat} (h : (n : Int) ≤ intMax) : toInt n = n := by
  unfold intMax at h
  exact Int.bmod_eq_of_le (by omega) (by omega)

/-- The conversion of a length never makes it longer. -/
theorem toInt_le (n : Nat) : (toInt n).toNat ≤ n := by
  unfold toInt
  rw [Int.bmod_def]
  split <;> omega

/-- A length of 2 GiB and more, up to 4 GiB, becomes negative. -/
theorem toInt_neg {n : Nat} (h : intMax < n) (h' : n < 4294967296) : toInt n < 0 := by
  unfold intMax at h
  unfold toInt
  rw [Int.bmod_def]
  split <;> omega

/-- `memset` to 0 of an array of `n` bytes. -/
def zeros (n : Nat) : Block := List.replicate n 0

def strlen : Block → Option Nat
  | [] => none
  | c :: cs => if c = 0 then some 0 else (strlen cs).map (· + 1)

def strspn (accept : UInt8 → Bool) : Block → Option Nat
  | [] => none
  | c :: cs => if c ≠ 0 ∧ accept c = true then (strspn accept cs).map (· + 1) else some 0

/-- The distance to the first `ch` of the string, `some none` for a null pointer. -/
def index (ch : UInt8) : Block → Option (Option Nat)
  | [] => none
  | c :: cs =>
    if c = ch then some (some 0)
    else if c = 0 then some none
    else (index ch cs).map (Option.map (· + 1))

/-- `memcmp(p, q, n) == 0` for the `n` bytes of a literal `q`. -/
def memcmpEq (p q : Block) : Option Bool :=
  if q.length ≤ p.length then some (decide (p.take q.length = q)) else none

/-- The block with the bytes from `off` on overwritten by `bs`. -/
def splice (dst : Block) (off : Nat) (bs : List UInt8) : Block :=
  dst.take off ++ bs ++ dst.drop (off + bs.length)

/-- `dst[off] = c`. -/
def poke (dst : Block) (off : Nat) (c : UInt8) : Option Block :=
  if off < dst.length then some (splice dst off [c]) else none

/-- `memset(dst, c, n)`. -/
def memset (dst : Block) (c : UInt8) (n : Nat) : Option Block :=
  if n ≤ dst.length then some (splice dst 0 (List.replicate n c)) else none

/-- `memcpy(dst + off, src, n)`. -/
def memcpy (dst : Block) (off : Nat) (src : Block) (n : Nat) : Option Block :=
  if n ≤ src.length ∧ off + n ≤ dst.length then some (splice dst off (src.take n)) else none

/-- The `n` bytes that `strncpy` stores: the string, then zeros. -/
def strncpyBytes : Nat → Block → Option (List UInt8)
  | 0, _ => some []
  | _ + 1, [] => none
  | n + 1, c :: cs => if c = 0 then some (zeros (n + 1)) else (strncpyBytes n cs).map (c :: ·)

def strncpy (dst src : Block) (n : Nat) : Option Block :=
  if n ≤ dst.length then (strncpyBytes n src).map (splice dst 0) else none

def strcpy (dst src : Block) : Option Block := do
  let len ← strlen src
  memcpy dst 0 src (len + 1)

/-- The bytes up to the terminator. -/
def load (p : Block) : Option (List UInt8) :=
  (strlen p).map p.take

/-! ## Strings in blocks -/

/-- A string: bytes without a terminator among them. -/
structure Text where
  chars : List UInt8
  noNul : 0 ∉ chars

def Text.empty : Text := ⟨[], List.not_mem_nil⟩

@[simp] theorem Text.empty_chars : Text.empty.chars = [] := rfl

/-- The string in the array. -/
def toText (p : Block) : Option Text :=
  if 0 ∈ p then
    some ⟨p.takeWhile (fun c => c != 0), fun h =>
      absurd (List.all_eq_true.mp List.all_takeWhile 0 h) (by decide)⟩
  else none

/-- The smallest array that holds the string. -/
def Text.block (s : Text) : Block := s.chars ++ [0]

/-- The block starts with the string `s` and its terminator. -/
structure Holds (b : Block) (s : List UInt8) : Prop where
  noNul : 0 ∉ s
  bytes : ∃ junk, b = s ++ 0 :: junk

/-- `(null)`, which `%s` prints for a null pointer -/
def nullText : List UInt8 := [40, 110, 117, 108, 108, 41]

/-- What `%s` prints. -/
def printStr (s : Option Text) : List UInt8 := (s.map Text.chars).getD nullText

theorem printStr_noNul (s : Option Text) : 0 ∉ printStr s := by
  cases s with
  | none => decide
  | some t => exact t.noNul

theorem Text.holds (s : Text) : Holds s.block s.chars :=
  ⟨s.noNul, [], rfl⟩

theorem holds_terminated {s : List UInt8} (h : 0 ∉ s) : Holds (s ++ [0]) s := ⟨h, [], rfl⟩

/-- A string that an array filled with zeros has room for. -/
theorem holds_zeros {s : List UInt8} {n : Nat} (h : 0 ∉ s) (hn : 0 < n) :
    Holds (s ++ zeros n) s := by
  obtain ⟨n, rfl⟩ : ∃ m, n = m + 1 := ⟨n - 1, by omega⟩
  exact ⟨h, zeros n, rfl⟩

/-- The head of a string, cut off by zeros. -/
theorem Holds.take_zeros {b : Block} {s : List UInt8} (h : Holds b s) (n : Nat) {m : Nat}
    (hm : 0 < m) : Holds (s.take n ++ zeros m) (s.take n) :=
  holds_zeros (fun h0 => h.noNul (List.mem_of_mem_take h0)) hm

/-- An array with a zero byte holds what comes before the first one. -/
theorem holds_takeWhile {b : Block} (h : 0 ∈ b) : Holds b (b.takeWhile fun c => c != 0) := by
  induction b with
  | nil => cases h
  | cons c b ih =>
    rw [List.takeWhile_cons]
    by_cases hc : c = 0
    · subst hc
      exact ⟨List.not_mem_nil, b, rfl⟩
    · obtain ⟨h0, junk, hb⟩ := ih ((List.mem_cons.mp h).resolve_left (Ne.symm hc))
      rw [if_pos (by simpa using hc)]
      refine ⟨fun hm => ?_, junk, congrArg (c :: ·) hb⟩
      rcases List.mem_cons.mp hm with hm | hm
      · exact hc hm.symm
      · exact h0 hm

/-- Bytes with zeros behind them. -/
theorem holds_append_zeros (bs : List UInt8) {n : Nat} (hn : 0 < n) :
    Holds (bs ++ zeros n) (bs.takeWhile fun c => c != 0) := by
  obtain ⟨n, rfl⟩ : ∃ m, n = m + 1 := ⟨n - 1, by omega⟩
  have hends : Words.Ends (fun c : UInt8 => c != 0) (zeros (n + 1)) := Words.ends_cons rfl
  rw [← Words.takeWhile_append_ends bs hends]
  exact holds_takeWhile (List.mem_append_right _ (List.mem_replicate.mpr ⟨Nat.succ_ne_zero n, rfl⟩))

theorem Holds.zero_mem {b : Block} {s : List UInt8} (h : Holds b s) : 0 ∈ b := by
  obtain ⟨junk, rfl⟩ := h.bytes
  exact List.mem_append_right _ List.mem_cons_self

theorem Holds.length_lt {b : Block} {s : List UInt8} (h : Holds b s) : s.length < b.length := by
  obtain ⟨junk, rfl⟩ := h.bytes
  simp

/-- A pointer that moves on inside the string. -/
theorem Holds.drop {b : Block} {s : List UInt8} (h : Holds b s) {n : Nat} (hn : n ≤ s.length) :
    Holds (b.drop n) (s.drop n) := by
  obtain ⟨junk, rfl⟩ := h.bytes
  exact ⟨fun h0 => h.noNul (List.mem_of_mem_drop h0), junk, List.drop_append_of_le_length hn⟩

theorem Holds.take {b : Block} {s : List UInt8} (h : Holds b s) {n : Nat} (hn : n ≤ s.length) :
    b.take n = s.take n := by
  obtain ⟨junk, rfl⟩ := h.bytes
  exact List.take_append_of_le_length hn

theorem Holds.getElem? {b : Block} {s : List UInt8} (h : Holds b s) {n : Nat}
    (hn : n ≤ s.length) : b[n]? = some (s[n]?.getD 0) := by
  obtain ⟨junk, rfl⟩ := h.bytes
  rcases Nat.lt_or_eq_of_le hn with hlt | rfl
  · rw [List.getElem?_append_left hlt, List.getElem?_eq_getElem hlt]
    rfl
  · simp

theorem Holds.getElem?_of_lt {b : Block} {s : List UInt8} (h : Holds b s) {n : Nat}
    (hn : n < s.length) : b[n]? = s[n]? := by
  rw [h.getElem? (Nat.le_of_lt hn), List.getElem?_eq_getElem hn]
  rfl

theorem Holds.strlen {b : Block} {s : List UInt8} (h : Holds b s) :
    strlen b = some s.length := by
  obtain ⟨h0, junk, rfl⟩ := h
  induction s with
  | nil => rfl
  | cons c s ih =>
    have hc : c ≠ 0 := fun hc => h0 (hc ▸ List.mem_cons_self)
    rw [List.cons_append, CString.strlen, if_neg hc, ih (List.not_mem_of_not_mem_cons h0)]
    rfl

theorem Holds.load {b : Block} {s : List UInt8} (h : Holds b s) : load b = some s := by
  rw [CString.load, h.strlen, Option.map_some, h.take (Nat.le_refl _), List.take_length]

theorem Holds.unique {b : Block} {s r : List UInt8} (hs : Holds b s) (hr : Holds b r) : s = r :=
  Option.some.inj (hs.load.symm.trans hr.load)

theorem Text.ext_chars {s t : Text} (h : s.chars = t.chars) : s = t := by
  cases s
  cases t
  cases h
  rfl

theorem Text.map_chars_inj {x y : Option Text} : x.map Text.chars = y.map Text.chars ↔ x = y :=
  (Option.map_injective fun _ _ => Text.ext_chars).eq_iff

theorem Holds.toText {b : Block} {s : Text} (h : Holds b s.chars) : toText b = some s := by
  obtain ⟨h0, junk, rfl⟩ := h
  rw [CString.toText, if_pos (by simp)]
  refine congrArg some (Text.ext_chars ?_)
  have hall : ∀ c ∈ s.chars, (c != 0) = true := fun c hc => by
    simpa using fun h : c = 0 => h0 (h ▸ hc)
  simp [List.takeWhile_append_of_pos hall]

theorem Holds.strspn {b : Block} {s : List UInt8} (h : Holds b s) (accept : UInt8 → Bool) :
    strspn accept b = some (s.takeWhile accept).length := by
  obtain ⟨h0, junk, rfl⟩ := h
  induction s with
  | nil => simp [CString.strspn]
  | cons c s ih =>
    have hc : c ≠ 0 := fun hc => h0 (hc ▸ List.mem_cons_self)
    rw [List.cons_append, CString.strspn, List.takeWhile_cons]
    cases ha : accept c with
    | true =>
      rw [if_pos ⟨hc, rfl⟩, ih (List.not_mem_of_not_mem_cons h0)]
      rfl
    | false => simp

theorem Holds.index {b : Block} {s : List UInt8} (h : Holds b s) {ch : UInt8} (hch : ch ≠ 0) :
    index ch b =
      some (if ch ∈ s then some (s.takeWhile (fun c => c != ch)).length else none) := by
  obtain ⟨h0, junk, rfl⟩ := h
  induction s with
  | nil => simp [CString.index, hch.symm]
  | cons c s ih =>
    have hc : c ≠ 0 := fun hc => h0 (hc ▸ List.mem_cons_self)
    rw [List.cons_append, CString.index]
    by_cases heq : c = ch
    · subst heq
      simp
    · have hne : (c != ch) = true := by simpa using heq
      rw [if_neg heq, if_neg hc, ih (List.not_mem_of_not_mem_cons h0),
        List.takeWhile_cons, if_pos hne]
      by_cases hm : ch ∈ s
      · simp [hm]
      · simp [hm, Ne.symm heq]

theorem Holds.exists_index {b : Block} {s : List UInt8} (h : Holds b s) {ch : UInt8}
    (hch : ch ≠ 0) : ∃ found, CString.index ch b = some found ∧ (found.isSome = true ↔ ch ∈ s) := by
  refine ⟨_, h.index hch, ?_⟩
  by_cases hm : ch ∈ s <;> simp [hm]

theorem Holds.strncpyBytes {b : Block} {s : List UInt8} (h : Holds b s) (n : Nat) :
    strncpyBytes n b = some (s.take n ++ zeros (n - s.length)) := by
  obtain ⟨h0, junk, rfl⟩ := h
  induction s generalizing n with
  | nil => cases n <;> simp [CString.strncpyBytes, zeros]
  | cons c s ih =>
    have hc : c ≠ 0 := fun hc => h0 (hc ▸ List.mem_cons_self)
    cases n with
    | zero => simp [CString.strncpyBytes, zeros]
    | succ n =>
      rw [List.cons_append, CString.strncpyBytes, if_neg hc,
        ih n (List.not_mem_of_not_mem_cons h0)]
      simp

theorem Holds.memcmpEq {b : Block} {s : List UInt8} (h : Holds b s) {q : Block}
    (hq : 0 ∉ q) (hlen : q.length ≤ b.length) :
    memcmpEq b q = some (decide (s.take q.length = q)) := by
  rw [CString.memcmpEq, if_pos hlen]
  rcases Nat.lt_or_ge s.length q.length with hlt | hle
  · -- a string that is too short differs at its terminator at the latest
    obtain ⟨h0, junk, rfl⟩ := h
    have hb : (s ++ 0 :: junk).take q.length ≠ q := fun heq => by
      refine hq (heq ▸ List.mem_of_getElem? (i := s.length) ?_)
      rw [List.getElem?_take_of_lt hlt, List.getElem?_append_right (Nat.le_refl _),
        Nat.sub_self]
      rfl
    have hs : s.take q.length ≠ q := fun heq => by
      have := congrArg List.length heq
      rw [List.length_take] at this
      omega
    rw [decide_eq_false hs, decide_eq_false hb]
  · rw [h.take hle]

/-! ## Pointers that move on -/

theorem getElem?_of_drop {b : Block} {i : Nat} {c : UInt8} {cs : List UInt8}
    (h : b.drop i = c :: cs) : b[i]? = some c := by
  have h0 : (b.drop i)[0]? = b[i + 0]? := List.getElem?_drop
  rw [h] at h0
  exact h0.symm

theorem lt_length_of_drop {b : Block} {i : Nat} {c : UInt8} {cs : List UInt8}
    (h : b.drop i = c :: cs) : i < b.length :=
  (List.getElem?_eq_some_iff.mp (getElem?_of_drop h)).1

theorem drop_succ_of_drop {b : Block} {i : Nat} {c : UInt8} {cs : List UInt8}
    (h : b.drop i = c :: cs) : b.drop (i + 1) = cs := by
  rw [← List.drop_drop, h]
  rfl

/-! ## Stores -/

@[simp] theorem zeros_length (n : Nat) : (zeros n).length = n := List.length_replicate

theorem splice_length {dst : Block} {off : Nat} {bs : List UInt8}
    (h : off + bs.length ≤ dst.length) : (splice dst off bs).length = dst.length := by
  simp only [splice, List.length_append, List.length_take, List.length_drop]
  omega

@[simp] theorem splice_nil (dst : Block) (off : Nat) : splice dst off [] = dst := by
  simp [splice]

theorem splice_zero (dst : Block) (bs : List UInt8) :
    splice dst 0 bs = bs ++ dst.drop bs.length := by
  rw [splice, List.take_zero, List.nil_append, Nat.zero_add]

/-- A store over another one of the same size. -/
theorem splice_overwrite {dst : Block} {xs ys : List UInt8} (h : xs.length = ys.length) :
    splice (splice dst 0 xs) 0 ys = splice dst 0 ys := by
  rw [splice_zero dst xs, splice_zero, splice_zero, ← h, List.drop_left]

theorem length_le_of_fill {xs ys : List UInt8} {n : Nat} (hx : xs.length ≤ n)
    (h : ∀ c, xs ++ List.replicate (n - xs.length) c = ys ++ List.replicate (n - ys.length) c) :
    xs.length ≤ ys.length := by
  by_contra hlt
  have hfill (c : UInt8) : xs[ys.length]? = some c := by
    have hget := congrArg (fun l => l[ys.length]?) (h c)
    rwa [List.getElem?_append_left (by omega), List.getElem?_append_right (Nat.le_refl _),
      Nat.sub_self, List.getElem?_replicate_of_lt (by omega)] at hget
  have hsame := (hfill 0).symm.trans (hfill 1)
  exact absurd hsame (by decide)

/-- Stored bytes that cannot be told apart in any array are the same. -/
theorem eq_of_splice {xs ys : List UInt8} {n : Nat} (hx : xs.length ≤ n) (hy : ys.length ≤ n)
    (h : ∀ out : Block, n ≤ out.length → splice out 0 xs = splice out 0 ys) : xs = ys := by
  have hfill (c : UInt8) : xs ++ List.replicate (n - xs.length) c =
      ys ++ List.replicate (n - ys.length) c := by
    have heq := h (List.replicate n c) (by rw [List.length_replicate])
    rwa [splice_zero, splice_zero, List.drop_replicate, List.drop_replicate] at heq
  have hlen : xs.length = ys.length :=
    Nat.le_antisymm (length_le_of_fill hx hfill) (length_le_of_fill hy fun c => (hfill c).symm)
  exact List.append_inj_left (hfill 0) hlen

theorem splice_zero_inj {dst : Block} {xs ys : List UInt8} (h : xs.length = ys.length) :
    splice dst 0 xs = splice dst 0 ys ↔ xs = ys := by
  rw [splice_zero, splice_zero]
  exact ⟨fun heq => List.append_inj_left heq h, fun heq => by rw [heq]⟩

/-- What stands before the end of the stored bytes. -/
theorem splice_take {dst : Block} {off : Nat} (bs : List UInt8) (h : off ≤ dst.length) :
    (splice dst off bs).take (off + bs.length) = dst.take off ++ bs := by
  have hlen : (dst.take off ++ bs).length = off + bs.length := by
    rw [List.length_append, List.length_take, Nat.min_eq_left h]
  exact List.take_left' hlen

theorem splice_take_of_le {dst : Block} {off n : Nat} {bs : List UInt8} (h : off ≤ dst.length)
    (hn : n ≤ bs.length) : (splice dst off bs).take (off + n) = dst.take off ++ bs.take n := by
  have hoff : (dst.take off).length = off := by rw [List.length_take, Nat.min_eq_left h]
  have htake := splice_take bs h
  calc (splice dst off bs).take (off + n)
      = ((splice dst off bs).take (off + bs.length)).take (off + n) := by
        rw [List.take_take, Nat.min_eq_left (by omega)]
    _ = dst.take off ++ bs.take n := by
        rw [htake, List.take_append, hoff, List.take_of_length_le (by omega)]
        congr 2
        omega

/-- What stands after the stored bytes. -/
theorem splice_drop {dst : Block} {off : Nat} (bs : List UInt8) (h : off ≤ dst.length) :
    (splice dst off bs).drop (off + bs.length) = dst.drop (off + bs.length) := by
  have hlen : (dst.take off ++ bs).length = off + bs.length := by
    rw [List.length_append, List.length_take, Nat.min_eq_left h]
  exact List.drop_left' hlen

theorem splice_drop_of_le {dst : Block} {off m : Nat} {bs : List UInt8}
    (hm : off + bs.length ≤ m) (h : off ≤ dst.length) :
    (splice dst off bs).drop m = dst.drop m := by
  obtain ⟨n, rfl⟩ : ∃ n, m = off + bs.length + n := ⟨m - (off + bs.length), by omega⟩
  rw [← List.drop_drop, splice_drop bs h, List.drop_drop]

/-- Two stores side by side are one store. -/
theorem splice_splice {dst : Block} {off : Nat} (xs ys : List UInt8)
    (h : off + xs.length ≤ dst.length) :
    splice (splice dst off xs) (off + xs.length) ys = splice dst off (xs ++ ys) := by
  have hoff : off ≤ dst.length := by omega
  have hdrop : (splice dst off xs).drop (off + xs.length + ys.length) =
      dst.drop (off + xs.length + ys.length) := splice_drop_of_le (Nat.le_add_right _ _) hoff
  unfold splice at hdrop ⊢
  rw [hdrop, ← splice, splice_take xs hoff]
  simp only [List.append_assoc, List.length_append, Nat.add_assoc]

@[simp] theorem splice_single_length {dst : Block} {off : Nat} (c : UInt8)
    (h : off < dst.length) : (splice dst off [c]).length = dst.length :=
  splice_length (by rw [List.length_singleton]; omega)

theorem splice_cons {dst : Block} {off : Nat} (c : UInt8) (cs : List UInt8)
    (h : off < dst.length) : splice (splice dst off [c]) (off + 1) cs = splice dst off (c :: cs) :=
  splice_splice [c] cs (by rw [List.length_singleton]; omega)

/-- Bytes stored into a part of the array that was filled with `c`. -/
theorem splice_replicate {dst : Block} {t p : Nat} (c : UInt8) (bs : List UInt8)
    (hp : p + bs.length ≤ t) :
    splice (splice dst 0 (List.replicate t c)) p bs =
      List.replicate p c ++ bs ++ List.replicate (t - (p + bs.length)) c ++ dst.drop t := by
  have hfill : splice dst 0 (List.replicate t c) = List.replicate t c ++ dst.drop t := by
    simp [splice]
  rw [hfill, splice, List.take_append_of_le_length (by rw [List.length_replicate]; omega),
    List.drop_append_of_le_length (by rw [List.length_replicate]; omega), List.take_replicate,
    List.drop_replicate, Nat.min_eq_left (by omega), List.append_assoc _ _ (dst.drop t)]

/-- A string at the head of an array of zeros, and the zeros after it. -/
theorem splice_zeros {bs : List UInt8} {n : Nat} :
    splice (zeros n) 0 bs = bs ++ zeros (n - bs.length) := by
  simp [splice, zeros, List.drop_replicate]

theorem splice_append_zeros (s bs : List UInt8) (n : Nat) :
    splice (s ++ zeros n) s.length bs = s ++ bs ++ zeros (n - bs.length) := by
  rw [splice, List.take_left, ← List.drop_drop, List.drop_left, zeros, List.drop_replicate]
  rfl

/-- A terminator behind the first `n` bytes. -/
theorem poke_zero_holds {b : Block} {n : Nat} (hn : n < b.length) (h0 : 0 ∉ b.take n) :
    ∃ b', poke b n 0 = some b' ∧ Holds b' (b.take n) := by
  refine ⟨splice b n [0], if_pos hn, h0, b.drop (n + 1), ?_⟩
  rw [splice, List.append_assoc]
  rfl

theorem memcpy_zeros {b : Block} {s : List UInt8} {n m : Nat} (h : Holds b s)
    (hn : n ≤ s.length) (hm : n ≤ m) :
    memcpy (zeros m) 0 b n = some (s.take n ++ zeros (m - n)) := by
  have hb : n ≤ b.length := by
    have := h.length_lt
    omega
  rw [memcpy, if_pos ⟨hb, by rw [zeros_length]; omega⟩, h.take hn, splice_zeros,
    List.length_take, Nat.min_eq_left hn]

theorem Holds.strcpy_eq {b : Block} {s : List UInt8} (h : Holds b s) (dst : Block) :
    strcpy dst b =
      if s.length < dst.length then some (splice dst 0 (s ++ [0])) else none := by
  obtain ⟨h0, junk, rfl⟩ := h
  rw [CString.strcpy, Holds.strlen ⟨h0, junk, rfl⟩, Option.bind_eq_bind, Option.bind_some, memcpy]
  have htake : (s ++ 0 :: junk).take (s.length + 1) = s ++ [0] := by
    rw [List.take_append, List.take_of_length_le (Nat.le_succ _)]
    simp
  simp only [htake, List.length_append, List.length_cons]
  split
  · rw [if_pos (by omega)]
  · rw [if_neg (by omega)]

theorem Holds.strcpy_holds {b : Block} {s : List UInt8} (h : Holds b s) {dst : Block}
    (hlen : s.length < dst.length) : ∃ b', strcpy dst b = some b' ∧ Holds b' s := by
  refine ⟨splice dst 0 (s ++ [0]), ?_, h.noNul, dst.drop (s ++ [0]).length, ?_⟩
  · rw [h.strcpy_eq, if_pos hlen]
  · rw [splice_zero, List.append_assoc]
    rfl

/-- The terminator in an array of zeros is one of them. -/
theorem splice_zeros_string {s : List UInt8} {n : Nat} (h : s.length < n) :
    splice (zeros n) 0 (s ++ [0]) = s ++ zeros (n - s.length) := by
  obtain ⟨k, rfl⟩ : ∃ k, n = s.length + (k + 1) := ⟨n - s.length - 1, by omega⟩
  rw [splice_zeros, List.length_append, List.length_singleton, List.append_assoc,
    Nat.add_sub_cancel_left, show s.length + (k + 1) - (s.length + 1) = k by omega]
  rfl

theorem Holds.strcpy_zeros {b : Block} {s : List UInt8} {n : Nat} (h : Holds b s)
    (hn : s.length < n) : strcpy (zeros n) b = some (s ++ zeros (n - s.length)) := by
  rw [h.strcpy_eq, if_pos (by rwa [zeros_length]), splice_zeros_string hn]

theorem strncpy_zeros {b : Block} {s : List UInt8} {n m : Nat} (h : Holds b s) (hm : n ≤ m) :
    strncpy (zeros m) b n = some (s.take n ++ zeros (m - (s.take n).length)) := by
  rw [strncpy, if_pos (by rwa [zeros_length]), h.strncpyBytes, Option.map_some, splice_zeros]
  simp only [zeros, List.append_assoc, List.replicate_append_replicate, List.length_append,
    List.length_replicate, List.length_take]
  congr 3
  omega

/-- A string copied through an array of its own, which cuts it off. -/
theorem Holds.copy_holds {p : Block} {s : List UInt8} (h : Holds p s) {n m : Nat} (hm : n < m)
    {dst : Block} (hlen : (s.take n).length < dst.length) :
    ∃ b', (strncpy (zeros m) p n).bind (fun str => strcpy dst str) = some b' ∧
      Holds b' (s.take n) := by
  have hcut : Holds (s.take n ++ zeros (m - (s.take n).length)) (s.take n) := by
    have hle := List.length_take_le n s
    exact h.take_zeros n (by omega)
  obtain ⟨b', hcopy, hb'⟩ := hcut.strcpy_holds hlen
  refine ⟨b', ?_, hb'⟩
  rw [strncpy_zeros h (Nat.le_of_lt hm), Option.bind_some, hcopy]

end CString
