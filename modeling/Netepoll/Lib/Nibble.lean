import Mathlib.Data.UInt

/-! Halves of bytes, the digits that print them, and digits packed two to a byte. A last
digit without a partner takes the high half. -/

namespace Nibble

def byte (a b : UInt8) : UInt8 := a * 16 + b

def high (c : UInt8) : UInt8 := c / 16

def low (c : UInt8) : UInt8 := c % 16

/-- The digit that prints `d`, with letters in upper case. -/
def hexChar (d : UInt8) : UInt8 := if d ≤ 9 then d + 48 else d + 55

/-- `0` to `9`, `A` to `F` and `a` to `f`. -/
def IsHex (c : UInt8) : Prop := (48 ≤ c ∧ c ≤ 57) ∨ (65 ≤ c ∧ c ≤ 70) ∨ (97 ≤ c ∧ c ≤ 102)

instance (c : UInt8) : Decidable (IsHex c) :=
  inferInstanceAs (Decidable ((48 ≤ c ∧ c ≤ 57) ∨ (65 ≤ c ∧ c ≤ 70) ∨ (97 ≤ c ∧ c ≤ 102)))

def hexVal (c : UInt8) : UInt8 :=
  if 97 ≤ c then c - 97 + 10 else if 65 ≤ c then c - 65 + 10 else c - 48

/-- Letters `a` to `f` become `A` to `F`. -/
def upper (c : UInt8) : UInt8 := if 97 ≤ c ∧ c ≤ 122 then c - 32 else c

def pack : List UInt8 → List UInt8
  | [] => []
  | [a] => [byte a 0]
  | a :: b :: ds => byte a b :: pack ds

def unpack : List UInt8 → List UInt8
  | [] => []
  | c :: cs => high c :: low c :: unpack cs

/-- A zero before an odd number of digits. -/
def padLeft (ds : List UInt8) : List UInt8 := if ds.length % 2 = 1 then 0 :: ds else ds

/-- The first `n` digits, for an odd `n` without a zero in front. -/
def dropPad (n : Nat) (ds : List UInt8) : List UInt8 :=
  (if n % 2 = 1 ∧ ds.head? = some 0 then ds.drop 1 else ds).take n

/-! ## One byte -/

theorem high_byte {a b : UInt8} (ha : a < 16) (hb : b < 16) : high (byte a b) = a := by
  unfold high byte
  grind

theorem low_byte (a : UInt8) {b : UInt8} (hb : b < 16) : low (byte a b) = b := by
  unfold low byte
  grind

@[simp] theorem byte_high_low (c : UInt8) : byte (high c) (low c) = c := by
  unfold byte high low
  grind

theorem high_lt (c : UInt8) : high c < 16 := by
  unfold high
  grind

theorem low_lt (c : UInt8) : low c < 16 := by
  unfold low
  grind

/-- For a given string, by evaluation. -/
theorem isHex_of_all {s : List UInt8} (h : s.all (fun c => decide (IsHex c)) = true) :
    ∀ c ∈ s, IsHex c :=
  fun c hc => of_decide_eq_true (List.all_eq_true.mp h c hc)

theorem isHex_hexChar {d : UInt8} (hd : d < 16) : IsHex (hexChar d) := by
  unfold IsHex hexChar
  grind

theorem hexVal_hexChar {d : UInt8} (hd : d < 16) : hexVal (hexChar d) = d := by
  unfold hexVal hexChar
  grind

theorem hexVal_lt {c : UInt8} (hc : IsHex c) : hexVal c < 16 := by
  unfold IsHex at hc
  unfold hexVal
  grind

theorem hexVal_eq_zero_iff (c : UInt8) : hexVal c = 0 ↔ c = 48 := by
  unfold hexVal
  grind

theorem upper_eq_zero_iff (c : UInt8) : upper c = 48 ↔ c = 48 := by
  unfold upper
  grind

theorem hexChar_hexVal {c : UInt8} (hc : IsHex c) : hexChar (hexVal c) = upper c := by
  unfold IsHex at hc
  unfold hexChar hexVal upper
  grind

theorem hexChar_eq_zero_iff {d : UInt8} (hd : d < 16) : hexChar d = 48 ↔ d = 0 := by
  unfold hexChar
  grind

/-! ## The halves in bit operations -/

theorem shiftLeft_or {a b : UInt8} (hb : b < 16) : (a <<< 4) ||| b = byte a b := by
  have hb4 : b.toNat < 2 ^ 4 := hb
  have hor : (a.toNat <<< 4 % 2 ^ 8) ||| b.toNat = (a.toNat * 16 + b.toNat) % 2 ^ 8 := by
    have hmod := Nat.or_mod_two_pow (a := a.toNat <<< 4) (b := b.toNat) (n := 8)
    rw [← Nat.shiftLeft_add_eq_or_of_lt hb4, Nat.mod_eq_of_lt b.toNat_lt, Nat.shiftLeft_eq] at hmod
    rw [Nat.shiftLeft_eq]
    exact hmod.symm
  apply UInt8.toNat_inj.mp
  rw [byte, UInt8.toNat_or, UInt8.toNat_shiftLeft, UInt8.toNat_add, UInt8.toNat_mul,
    Nat.mod_add_mod]
  exact hor

theorem shiftRight_four (c : UInt8) : c >>> 4 = high c := by
  apply UInt8.toNat_inj.mp
  rw [high, UInt8.toNat_shiftRight, UInt8.toNat_div]
  exact Nat.shiftRight_eq_div_pow c.toNat 4

theorem and_fifteen (c : UInt8) : c &&& 0x0f = low c := by
  apply UInt8.toNat_inj.mp
  rw [low, UInt8.toNat_and, UInt8.toNat_mod]
  exact Nat.and_two_pow_sub_one_eq_mod c.toNat 4

/-! ## Digit strings -/

theorem map_hexVal_lt {s : List UInt8} (hs : ∀ c ∈ s, IsHex c) : ∀ d ∈ s.map hexVal, d < 16 := by
  intro d hd
  obtain ⟨c, hc, rfl⟩ := List.mem_map.mp hd
  exact hexVal_lt (hs c hc)

theorem map_hexChar_hexVal {s : List UInt8} (hs : ∀ c ∈ s, IsHex c) :
    (s.map hexVal).map hexChar = s.map upper := by
  rw [List.map_map]
  exact List.map_congr_left fun c hc => hexChar_hexVal (hs c hc)

theorem head?_map_hexVal (s : List UInt8) :
    (s.map hexVal).head? = some 0 ↔ s.head? = some 48 := by
  match s with
  | [] => simp
  | c :: s =>
    rw [List.map_cons, List.head?_cons, List.head?_cons, Option.some_inj, Option.some_inj]
    exact hexVal_eq_zero_iff c

theorem map_hexVal_hexChar {ds : List UInt8} (hds : ∀ d ∈ ds, d < 16) :
    (ds.map hexChar).map hexVal = ds := by
  rw [List.map_map]
  exact (List.map_congr_left fun d hd => hexVal_hexChar (hds d hd)).trans (List.map_id ds)

theorem map_isHex_hexChar {ds : List UInt8} (hds : ∀ d ∈ ds, d < 16) :
    ∀ c ∈ ds.map hexChar, IsHex c := by
  intro c hc
  obtain ⟨d, hd, rfl⟩ := List.mem_map.mp hc
  exact isHex_hexChar (hds d hd)

theorem unpack_lt (cs : List UInt8) : ∀ d ∈ unpack cs, d < 16 := by
  induction cs with
  | nil => exact fun d hd => absurd hd List.not_mem_nil
  | cons c cs ih =>
    intro d hd
    rw [unpack, List.mem_cons, List.mem_cons] at hd
    rcases hd with rfl | rfl | hd
    · exact high_lt c
    · exact low_lt c
    · exact ih d hd

theorem pack_length (ds : List UInt8) : (pack ds).length = (ds.length + 1) / 2 := by
  induction ds using pack.induct with
  | case1 => rfl
  | case2 a => simp [pack]
  | case3 a b ds ih =>
    rw [pack, List.length_cons, ih, List.length_cons, List.length_cons]
    omega

theorem unpack_length (cs : List UInt8) : (unpack cs).length = 2 * cs.length := by
  induction cs with
  | nil => rfl
  | cons c cs ih =>
    rw [unpack, List.length_cons, List.length_cons, ih, List.length_cons]
    omega

@[simp] theorem pack_unpack (cs : List UInt8) : pack (unpack cs) = cs := by
  induction cs with
  | nil => rfl
  | cons c cs ih => rw [unpack, pack, byte_high_low, ih]

theorem pack_snoc_zero {ds : List UInt8} (h : ds.length % 2 = 1) : pack (ds ++ [0]) = pack ds := by
  induction ds using pack.induct with
  | case1 => exact absurd h (by decide)
  | case2 a => rfl
  | case3 a b ds ih =>
    rw [List.length_cons, List.length_cons] at h
    rw [List.cons_append, List.cons_append, pack, pack, ih (by omega)]

theorem unpack_pack {ds : List UInt8} (hds : ∀ d ∈ ds, d < 16) (h : ds.length % 2 = 0) :
    unpack (pack ds) = ds := by
  induction ds using pack.induct with
  | case1 => rfl
  | case2 a => simp at h
  | case3 a b ds ih =>
    have ha : a < 16 := hds a List.mem_cons_self
    have hb : b < 16 := hds b (List.mem_cons_of_mem a List.mem_cons_self)
    have hrest : ∀ d ∈ ds, d < 16 := fun d hd =>
      hds d (List.mem_cons_of_mem a (List.mem_cons_of_mem b hd))
    rw [List.length_cons, List.length_cons] at h
    rw [pack, unpack, high_byte ha hb, low_byte a hb, ih hrest (by omega)]

/-- A last digit without a partner comes back with a zero behind it. -/
theorem unpack_pack_odd {ds : List UInt8} (hds : ∀ d ∈ ds, d < 16) (h : ds.length % 2 = 1) :
    unpack (pack ds) = ds ++ [0] := by
  rw [← pack_snoc_zero h]
  refine unpack_pack (fun d hd => ?_) ?_
  · rcases List.mem_append.mp hd with hd | hd
    · exact hds d hd
    · rw [List.mem_singleton.mp hd]
      decide
  · rw [List.length_append, List.length_singleton]
    omega

theorem padLeft_length (ds : List UInt8) : (padLeft ds).length = (ds.length + 1) / 2 * 2 := by
  unfold padLeft
  split
  · rw [List.length_cons]
    omega
  · omega

theorem padLeft_lt {ds : List UInt8} (hds : ∀ d ∈ ds, d < 16) : ∀ d ∈ padLeft ds, d < 16 := by
  unfold padLeft
  split
  · intro d hd
    rcases List.mem_cons.mp hd with rfl | hd
    · decide
    · exact hds d hd
  · exact hds

theorem pack_padLeft_length (ds : List UInt8) :
    (pack (padLeft ds)).length = (ds.length + 1) / 2 := by
  rw [pack_length, padLeft_length]
  omega

theorem unpack_pack_padLeft {ds : List UInt8} (hds : ∀ d ∈ ds, d < 16) :
    unpack (pack (padLeft ds)) = padLeft ds :=
  unpack_pack (padLeft_lt hds) (by rw [padLeft_length]; omega)

theorem dropPad_even {n : Nat} (h : n % 2 = 0) (ds : List UInt8) : dropPad n ds = ds.take n := by
  rw [dropPad, if_neg (by omega)]

/-- The zero that `padLeft` puts in front is the one that `dropPad` takes away. -/
theorem dropPad_padLeft (ds : List UInt8) : dropPad ds.length (padLeft ds) = ds := by
  rw [dropPad, padLeft]
  rcases Nat.mod_two_eq_zero_or_one ds.length with heven | hodd
  · rw [if_neg (by omega), if_neg (by omega), List.take_length]
  · rw [if_pos hodd, if_pos ⟨hodd, rfl⟩, List.drop_succ_cons, List.drop_zero, List.take_length]

/-- What `dropPad` makes of an odd number of digits with a zero behind them. -/
theorem dropPad_snoc_zero {ds : List UInt8} (h : ds.length % 2 = 1) :
    dropPad ds.length (ds ++ [0]) = if ds.head? = some 0 then ds.drop 1 ++ [0] else ds := by
  match ds, h with
  | d :: ds, h =>
    have hlen : (d :: ds).length = (ds ++ [0]).length := by
      rw [List.length_cons, List.length_append, List.length_singleton]
    rw [dropPad, List.cons_append, List.head?_cons, List.head?_cons]
    by_cases hd : d = 0
    · rw [if_pos ⟨h, congrArg some hd⟩, if_pos (congrArg some hd), List.drop_succ_cons,
        List.drop_zero, hlen, List.take_length, List.drop_succ_cons, List.drop_zero]
    · have hne : ¬ some d = some 0 := fun he => hd (Option.some.inj he)
      rw [if_neg fun hc => hne hc.2, if_neg hne, ← List.cons_append, List.take_left]

theorem dropPad_pack {ds : List UInt8} (hds : ∀ d ∈ ds, d < 16) :
    dropPad ds.length (unpack (pack ds)) =
      if ds.length % 2 = 1 ∧ ds.head? = some 0 then ds.drop 1 ++ [0] else ds := by
  rcases Nat.mod_two_eq_zero_or_one ds.length with heven | hodd
  · rw [unpack_pack hds heven, dropPad_even heven, List.take_length, if_neg (by omega)]
  · rw [unpack_pack_odd hds hodd, dropPad_snoc_zero hodd]
    simp only [hodd, true_and]

/-- The first `n` digits after a packing aligned to the left. -/
theorem take_unpack_pack {ds : List UInt8} (hds : ∀ d ∈ ds, d < 16) :
    (unpack (pack ds)).take ds.length = ds := by
  rcases Nat.mod_two_eq_zero_or_one ds.length with heven | hodd
  · rw [unpack_pack hds heven, List.take_length]
  · rw [unpack_pack_odd hds hodd, List.take_left]

/-- A list that starts with `z` is the same with that `z` at its end only if all of it is
`z`. -/
theorem rotate_eq_iff {α : Type} {z : α} {l : List α} (h : l.head? = some z) :
    l.drop 1 ++ [z] = l ↔ ∀ x ∈ l, x = z := by
  match l, h with
  | x :: l, h =>
    obtain rfl : x = z := Option.some.inj h
    rw [List.drop_succ_cons, List.drop_zero]
    constructor
    · intro heq
      clear h
      induction l with
      | nil => simp
      | cons y l ih =>
        rw [List.cons_append, List.cons.injEq] at heq
        obtain ⟨rfl, heq⟩ := heq
        intro d hd
        rcases List.mem_cons.mp hd with rfl | hd
        · rfl
        · exact ih heq d hd
    · intro hall
      have hl : l = List.replicate l.length x :=
        List.eq_replicate_of_mem fun d hd => hall d (List.mem_cons_of_mem x hd)
      rw [hl, ← List.replicate_succ', ← List.replicate_succ]

/-! ## Pairs -/

/-- `f` of the first two elements, of the next two and so on; a last one alone has `z` for a
partner. -/
def pairsWith {α β : Type} (f : α → α → β) (z : α) : List α → List β
  | [] => []
  | [a] => [f a z]
  | a :: b :: l => f a b :: pairsWith f z l

section PairsWith

variable {α β : Type} {f : α → α → β} {z : α}

theorem pairsWith_length (l : List α) : (pairsWith f z l).length = (l.length + 1) / 2 := by
  induction l using pairsWith.induct with
  | case1 => simp [pairsWith]
  | case2 a => simp [pairsWith]
  | case3 a b l ih =>
    rw [pairsWith, List.length_cons, ih, List.length_cons, List.length_cons]
    omega

theorem pairsWith_append {l : List α} (h : l.length % 2 = 0) (l' : List α) :
    pairsWith f z (l ++ l') = pairsWith f z l ++ pairsWith f z l' := by
  induction l using pairsWith.induct with
  | case1 => rfl
  | case2 a => simp at h
  | case3 a b l ih =>
    rw [List.length_cons, List.length_cons] at h
    rw [List.cons_append, List.cons_append, pairsWith, pairsWith, ih (by omega), List.cons_append]

theorem pairsWith_getElem? {l : List α} {k : Nat} (hk : k < (l.length + 1) / 2) :
    (pairsWith f z l)[k]? = some (f (l.getD (2 * k) z) (l.getD (2 * k + 1) z)) := by
  induction l using pairsWith.induct generalizing k with
  | case1 => simp at hk
  | case2 a =>
    obtain rfl : k = 0 := by simpa using hk
    rfl
  | case3 a b l ih =>
    cases k with
    | zero => rfl
    | succ k =>
      rw [List.length_cons, List.length_cons] at hk
      rw [pairsWith, List.getElem?_cons_succ, ih (by omega)]
      rfl

/-- Only what can stand second in a pair matters. -/
theorem pairsWith_congr {g : α → α → β} {l : List α} (hz : ∀ a, f a z = g a z)
    (h : ∀ b ∈ l, ∀ a, f a b = g a b) : pairsWith f z l = pairsWith g z l := by
  induction l using pairsWith.induct with
  | case1 => rfl
  | case2 a => rw [pairsWith, pairsWith, hz]
  | case3 a b l ih =>
    have hb : b ∈ a :: b :: l := List.mem_cons_of_mem a List.mem_cons_self
    rw [pairsWith, pairsWith, h b hb,
      ih fun c hc => h c (List.mem_cons_of_mem a (List.mem_cons_of_mem b hc))]

end PairsWith

theorem pack_eq_pairsWith (ds : List UInt8) : pack ds = pairsWith byte 0 ds := by
  induction ds using pack.induct with
  | case1 => rfl
  | case2 a => rfl
  | case3 a b ds ih => rw [pack, pairsWith, ih]

/-! ## Numbers -/

/-- The last `w` digits of `n`, the highest one first. -/
def printHex : Nat → Nat → List UInt8
  | 0, _ => []
  | w + 1, n => printHex w (n / 16) ++ [hexChar (UInt8.ofNat (n % 16))]

def hexNumber (ds : List UInt8) : Nat := ds.foldl (fun n c => 16 * n + (hexVal c).toNat) 0

theorem ofNat_mod_lt (n : Nat) : UInt8.ofNat (n % 16) < 16 := by
  have hmod : n % 16 < 16 := Nat.mod_lt n (by decide)
  rw [UInt8.lt_iff_toNat_lt, UInt8.toNat_ofNat']
  show n % 16 % 256 < 16
  omega

@[simp] theorem printHex_length (w n : Nat) : (printHex w n).length = w := by
  induction w generalizing n with
  | zero => rfl
  | succ w ih => rw [printHex, List.length_append, ih, List.length_singleton]

theorem isHex_printHex (w n : Nat) : ∀ c ∈ printHex w n, IsHex c := by
  induction w generalizing n with
  | zero => exact fun c hc => absurd hc List.not_mem_nil
  | succ w ih =>
    intro c hc
    rcases List.mem_append.mp hc with hc | hc
    · exact ih (n / 16) c hc
    · rw [List.mem_singleton.mp hc]
      exact isHex_hexChar (ofNat_mod_lt n)

theorem hexNumber_printHex (w n : Nat) : hexNumber (printHex w n) = n % 16 ^ w := by
  induction w generalizing n with
  | zero => rw [Nat.pow_zero, Nat.mod_one]; rfl
  | succ w ih =>
    have hdigit : (UInt8.ofNat (n % 16)).toNat = n % 16 := by
      rw [UInt8.toNat_ofNat']
      show n % 16 % 256 = n % 16
      omega
    have hlast : hexNumber (printHex (w + 1) n) =
        16 * hexNumber (printHex w (n / 16)) + n % 16 := by
      rw [printHex, hexNumber, List.foldl_append]
      simp only [List.foldl_cons, List.foldl_nil, hexVal_hexChar (ofNat_mod_lt n), hdigit]
      rfl
    rw [hlast, ih, Nat.pow_succ, Nat.mul_comm (16 ^ w) 16, Nat.mod_mul]
    omega

end Nibble
