import Netepoll.Bcd

/-! Which characters a byte that `asc_to_bcd` stores depends on. Every character has a value,
also one that is no digit; the value of 0xAC is 0x55, which the loop takes for "no digit
pending". -/

namespace Netepoll

open CString Nibble

/-- The character for the high half of byte `k`, `none` for the zero in front. -/
def highChar (s : List UInt8) (type : UInt8) (k : Nat) : Option UInt8 :=
  if s.length % 2 = 1 ∧ type ≠ 0 then if k = 0 then none else s[2 * k - 1]? else s[2 * k]?

/-- The character for the low half of byte `k`, `none` behind the last one. -/
def lowChar (s : List UInt8) (type : UInt8) (k : Nat) : Option UInt8 :=
  if s.length % 2 = 1 ∧ type ≠ 0 then s[2 * k]? else s[2 * k + 1]?

/-- `asc_to_bcd` stores `(n+1)/2` bytes and nothing else, and byte `k` is `f k` of the two
characters paired into it. -/
def StoresPairs (f : Nat → Option UInt8 → Option UInt8 → UInt8) (type : UInt8)
    (s : List UInt8) : Prop :=
  ∀ (junk : List UInt8) (out : Block), (s.length + 1) / 2 ≤ out.length →
    asc_to_bcd out (s ++ junk) s.length type =
      some (splice out 0 ((List.range ((s.length + 1) / 2)).map fun k =>
        f k (highChar s type k) (lowChar s type k)))

/-- The value of a character, and of a place without one. -/
def charDigit (c : Option UInt8) : UInt8 := c.elim 0 asc_to_bcd_digit

/-- Byte `k` has the values of its own two characters. -/
def DigitByDigit (type : UInt8) (s : List UInt8) : Prop :=
  StoresPairs (fun _ a b => joinDigits (charDigit a) (charDigit b)) type s

/-- One pair begins with the digit `0x55`, and by coincidence the digits behind it make the same
bytes without it. -/
def Coincides (ds : List UInt8) : Prop :=
  ∃ before behind, ds = before ++ 0x55 :: behind ∧ before.length % 2 = 0 ∧ Unmarked before ∧
    Unmarked behind ∧ pairsWith joinDigits 0 behind = pairsWith joinDigits 0 (0x55 :: behind)

theorem asc_to_bcd_digit_mark {c : UInt8} : asc_to_bcd_digit c = 0x55 ↔ c = 0xAC := by
  unfold asc_to_bcd_digit
  grind

/-! ## Pairs of characters and pairs of digits -/

theorem asc_to_bcd_digits_length (s : List UInt8) (type : UInt8) :
    ((asc_to_bcd_digits s type).length + 1) / 2 = (s.length + 1) / 2 := by
  rw [asc_to_bcd_digits]
  split
  · rw [List.length_cons, List.length_map]
    omega
  · rw [List.length_map]

theorem getD_map_digit (s : List UInt8) (i : Nat) :
    (s.map asc_to_bcd_digit).getD i 0 = charDigit s[i]? := by
  rw [List.getD_eq_getElem?_getD, List.getElem?_map]
  cases s[i]? <;> rfl

theorem charDigit_highChar (s : List UInt8) (type : UInt8) (k : Nat) :
    (asc_to_bcd_digits s type).getD (2 * k) 0 = charDigit (highChar s type k) := by
  rw [asc_to_bcd_digits, highChar]
  split
  · cases k with
    | zero => rfl
    | succ k => exact getD_map_digit s (2 * k + 1)
  · exact getD_map_digit s (2 * k)

theorem charDigit_lowChar (s : List UInt8) (type : UInt8) (k : Nat) :
    (asc_to_bcd_digits s type).getD (2 * k + 1) 0 = charDigit (lowChar s type k) := by
  rw [asc_to_bcd_digits, lowChar]
  split
  · exact getD_map_digit s (2 * k)
  · exact getD_map_digit s (2 * k + 1)

/-- The bytes of the pairs of digits are those of the pairs of characters. -/
theorem pairsWith_digits (s : List UInt8) (type : UInt8) :
    pairsWith joinDigits 0 (asc_to_bcd_digits s type) =
      (List.range ((s.length + 1) / 2)).map fun k =>
        joinDigits (charDigit (highChar s type k)) (charDigit (lowChar s type k)) := by
  refine List.ext_getElem? fun k => ?_
  rcases Nat.lt_or_ge k ((s.length + 1) / 2) with hlt | hge
  · rw [pairsWith_getElem? (by rwa [asc_to_bcd_digits_length]), charDigit_highChar,
      charDigit_lowChar, List.getElem?_map, List.getElem?_range hlt]
    rfl
  · rw [List.getElem?_eq_none (by rwa [pairsWith_length, asc_to_bcd_digits_length]),
      List.getElem?_eq_none (by rwa [List.length_map, List.length_range])]

theorem unmarked_digits_iff (s : List UInt8) (type : UInt8) :
    Unmarked (asc_to_bcd_digits s type) ↔ ∀ k, highChar s type k ≠ some 0xAC := by
  have hmap (i : Nat) : (s.map asc_to_bcd_digit)[i]? = some 0x55 ↔ s[i]? = some 0xAC := by
    rw [List.getElem?_map, Option.map_eq_some_iff]
    constructor
    · rintro ⟨c, hc, hmark⟩
      rw [hc, asc_to_bcd_digit_mark.mp hmark]
    · exact fun hc => ⟨0xAC, hc, rfl⟩
  refine forall_congr' fun k => not_congr ?_
  rw [asc_to_bcd_digits, highChar]
  split
  · cases k with
    | zero =>
      refine iff_of_false (fun h => absurd (Option.some.inj h) (by decide)) fun h => ?_
      cases h
    | succ k => exact hmap (2 * k + 1)
  · exact hmap (2 * k)

/-! ## A digit that is taken for none -/

/-- Behind whole pairs the loop begins anew. -/
theorem asc_to_bcd_bytes_append {before : List UInt8} (h : before.length % 2 = 0)
    (hbefore : Unmarked before) (ds : List UInt8) :
    asc_to_bcd_bytes (before ++ ds) =
      pairsWith joinDigits 0 before ++ asc_to_bcd_bytes ds := by
  induction before using pairsWith.induct with
  | case1 => simp [pairsWith]
  | case2 a => simp at h
  | case3 a b l ih =>
    obtain ⟨ha, hl⟩ := unmarked_cons_cons.mp hbefore
    rw [List.length_cons, List.length_cons] at h
    rw [List.cons_append, List.cons_append, asc_to_bcd_bytes, if_neg ha, pairsWith,
      ih (by omega) hl, List.cons_append]

/-- Only an odd number of digits with none taken away makes so many bytes. -/
theorem unmarked_of_length {ds : List UInt8}
    (h : (ds.length + 2) / 2 ≤ (asc_to_bcd_bytes ds).length) : Unmarked ds := by
  induction ds using asc_to_bcd_bytes.induct with
  | case1 => exact absurd h (by decide)
  | case2 => exact absurd h (by decide)
  | case3 a ha => exact unmarked_singleton.mpr ha
  | case4 b ds _ =>
    have hle := asc_to_bcd_bytes_length_le (b :: ds)
    rw [asc_to_bcd_bytes_mark, List.length_cons, List.length_cons] at h
    rw [List.length_cons] at hle
    omega
  | case5 a b ds ha ih =>
    rw [asc_to_bcd_bytes, if_neg ha, List.length_cons, List.length_cons, List.length_cons] at h
    exact unmarked_cons_cons.mpr ⟨ha, ih (by omega)⟩

theorem coincides_cons_cons {a b : UInt8} {ds : List UInt8} (ha : a ≠ 0x55) (h : Coincides ds) :
    Coincides (a :: b :: ds) := by
  obtain ⟨before, behind, rfl, hlen, hbefore, hrest⟩ := h
  refine ⟨a :: b :: before, behind, rfl, ?_, unmarked_cons_cons.mpr ⟨ha, hbefore⟩, hrest⟩
  rw [List.length_cons, List.length_cons]
  omega

theorem asc_to_bcd_bytes_eq_iff (ds : List UInt8) :
    asc_to_bcd_bytes ds = pairsWith joinDigits 0 ds ↔ Unmarked ds ∨ Coincides ds := by
  constructor
  · intro h
    induction ds using pairsWith.induct with
    | case1 => exact .inl unmarked_nil
    | case2 a =>
      refine .inl (unmarked_of_length ?_)
      rw [h, pairsWith_length]
      exact (by decide : (1 + 2) / 2 ≤ (1 + 1) / 2)
    | case3 a b ds ih =>
      by_cases ha : a = 0x55
      · -- what comes out is the rest without the first digit
        subst ha
        rw [asc_to_bcd_bytes_mark] at h
        have hbehind : Unmarked (b :: ds) := by
          refine unmarked_of_length ?_
          rw [h, pairsWith_length]
          exact Nat.le_refl _
        rw [asc_to_bcd_bytes_eq hbehind] at h
        exact .inr ⟨[], b :: ds, rfl, rfl, unmarked_nil, hbehind, h⟩
      · rw [asc_to_bcd_bytes, if_neg ha, pairsWith] at h
        rcases ih (List.cons.inj h).2 with hds | hds
        · exact .inl (unmarked_cons_cons.mpr ⟨ha, hds⟩)
        · exact .inr (coincides_cons_cons ha hds)
  · rintro (h | ⟨before, behind, rfl, hlen, hbefore, hbehind, hsame⟩)
    · exact asc_to_bcd_bytes_eq h
    · rw [asc_to_bcd_bytes_append hlen hbefore, asc_to_bcd_bytes_mark,
        asc_to_bcd_bytes_eq hbehind, hsame, pairsWith_append hlen]

/-- Every byte has the values of its own two characters if and only if no 0xAC stands first in
a pair, or one does and the digits behind it coincide. -/
theorem digitByDigit_iff (type : UInt8) (s : List UInt8) :
    DigitByDigit type s ↔
      (∀ k, highChar s type k ≠ some 0xAC) ∨ Coincides (asc_to_bcd_digits s type) := by
  rw [← unmarked_digits_iff, ← asc_to_bcd_bytes_eq_iff, DigitByDigit, StoresPairs,
    ← pairsWith_digits]
  constructor
  · intro h
    refine eq_of_splice (n := (s.length + 1) / 2) ?_ ?_ fun out hout => ?_
    · rw [← asc_to_bcd_digits_length s type]
      exact asc_to_bcd_bytes_length_le _
    · rw [pairsWith_length, asc_to_bcd_digits_length]
    · have hstore := h [] out hout
      rw [asc_to_bcd_eq_bytes s [] type hout] at hstore
      exact Option.some.inj hstore
  · intro h junk out hout
    rw [asc_to_bcd_eq_bytes s junk type hout, h]

/-- Between `0xAC 1 2 3` and `0 1 2 3` the second byte differs, though its characters are the
same. -/
theorem not_storesPairs :
    ¬ ∀ (n : Nat) (type : UInt8), ∃ f, ∀ s : List UInt8, s.length = n → StoresPairs f type s := by
  intro h
  obtain ⟨f, hf⟩ := h 4 0
  have hlost := hf [0xAC, 49, 50, 51] rfl [] (zeros 2) (by decide)
  have hplain := hf [48, 49, 50, 51] rfl [] (zeros 2) (by decide)
  have hlostByte : some [0x12, 0x30] = some [f 0 (some 0xAC) (some 49), f 1 (some 50) (some 51)] :=
    hlost
  have hplainByte : some [0x01, 0x23] = some [f 0 (some 48) (some 49), f 1 (some 50) (some 51)] :=
    hplain
  simp only [Option.some.injEq, List.cons.injEq, and_true] at hlostByte hplainByte
  exact absurd (hlostByte.2.trans hplainByte.2.symm) (by decide)

end Netepoll
