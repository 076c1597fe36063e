import Mathlib.Algebra.GroupWithZero.Nat
import Netepoll.Lib.Words

/-! Decimal numbers in C strings: what `%d` prints, and what `strtol`, `atoi` and the `%d` of
`scanf` read. Printing a number and reading it again gives the number. -/

namespace Decimal

open Words

def isSpace (c : UInt8) : Bool := c == 32 || (9 ≤ c && c ≤ 13)

def isDigit (c : UInt8) : Bool := 48 ≤ c && c ≤ 57

/-! ## Printing -/

/-- `%u` -/
def printNat (n : Nat) : List UInt8 := (Nat.toDigits 10 n).map fun c => UInt8.ofNat c.toNat

/-- `%d` -/
def printInt (n : Int) : List UInt8 :=
  if n < 0 then 45 :: printNat n.natAbs else printNat n.natAbs

/-! ## Reading -/

/-- The number that digits stand for in base `b`. -/
def number (b : Nat) (ds : List UInt8) : Nat := ds.foldl (fun n c => b * n + (c.toNat - 48)) 0

/-- Whether there is a minus, and what is behind the sign. -/
def readSign : List UInt8 → Bool × List UInt8
  | [] => (false, [])
  | c :: s => if c = 45 then (true, s) else if c = 43 then (false, s) else (false, c :: s)

/-- The number at the front, if there is one, and what is left. -/
def readInt (s : List UInt8) : Option Int × List UInt8 :=
  let signed := readSign (s.dropWhile isSpace)
  let ds := signed.2.takeWhile isDigit
  if ds = [] then (none, signed.2)
  else
    (some (if signed.1 = true then -(number 10 ds : Int) else number 10 ds),
      signed.2.dropWhile isDigit)

/-- A number as a `long`, where `strtol` stops at the ends of the range. -/
def toLong (n : Int) : Int := max (-9223372036854775808) (min n 9223372036854775807)

/-- The `int` that is left of a `long`. -/
def ofLong (n : Int) : Int := n.bmod 4294967296

/-- `(int) strtol(s, NULL, 10)` -/
def atoi (s : List UInt8) : Int := ofLong (toLong ((readInt s).1.getD 0))

/-! ## Round trip -/

theorem digit_toNat {n : Nat} {c : Char} (hc : c ∈ Nat.toDigits 10 n) :
    48 ≤ c.toNat ∧ c.toNat ≤ 57 :=
  Char.isDigit_iff_toNat.mp (Nat.isDigit_of_mem_toDigits (by decide) (by decide) hc)

theorem isDigit_printNat (n : Nat) : ∀ c ∈ printNat n, isDigit c = true := by
  intro c hc
  obtain ⟨d, hd, rfl⟩ := List.mem_map.mp hc
  obtain ⟨hlow, hhigh⟩ := digit_toNat hd
  have hbyte : (UInt8.ofNat d.toNat).toNat = d.toNat := by
    rw [UInt8.toNat_ofNat']
    omega
  rw [isDigit, Bool.and_eq_true, decide_eq_true_eq, decide_eq_true_eq, UInt8.le_iff_toNat_le,
    UInt8.le_iff_toNat_le, hbyte]
  exact ⟨hlow, hhigh⟩

theorem printNat_ne_nil (n : Nat) : printNat n ≠ [] := by
  simp [printNat, Nat.toDigits_ne_nil]

theorem number_printNat (n : Nat) : number 10 (printNat n) = n := by
  have hfold : number 10 (printNat n) = Nat.ofDigitChars 10 (Nat.toDigits 10 n) 0 := by
    rw [number, printNat, Nat.ofDigitChars_eq_foldl, List.foldl_map]
    refine List.foldl_ext _ _ 0 fun m c hc => ?_
    obtain ⟨-, hhigh⟩ := digit_toNat hc
    have hbyte : (UInt8.ofNat c.toNat).toNat = c.toNat := by
      rw [UInt8.toNat_ofNat']
      omega
    rw [hbyte]
    rfl
  rw [hfold, Nat.ofDigitChars_ten_toDigits]

theorem printNat_length_le {n k : Nat} (hk : 0 < k) : (printNat n).length ≤ k ↔ n < 10 ^ k := by
  rw [printNat, List.length_map, Nat.length_toDigits_le_iff (by decide) hk]

theorem not_isSpace_of_isDigit {c : UInt8} (h : isDigit c = true) : isSpace c = false := by
  simp only [isDigit, isSpace, Bool.and_eq_true, decide_eq_true_eq, Bool.or_eq_false_iff,
    beq_eq_false_iff_ne, Bool.and_eq_false_iff, decide_eq_false_iff_not, ne_eq] at h ⊢
  refine ⟨?_, .inr ?_⟩
  · rintro rfl
    exact absurd h.1 (by decide)
  · intro hle
    exact absurd (UInt8.le_trans h.1 hle) (by decide)

/-- What starts with a number has no space in front of it, and no sign but its own. -/
theorem readSign_digits {ds rest : List UInt8} (hne : ds ≠ [])
    (hds : ∀ c ∈ ds, isDigit c = true) :
    (ds ++ rest).dropWhile isSpace = ds ++ rest ∧ readSign (ds ++ rest) = (false, ds ++ rest) := by
  cases ds with
  | nil => exact absurd rfl hne
  | cons c ds =>
    have hc := hds c List.mem_cons_self
    have hminus : c ≠ 45 := by rintro rfl; exact absurd hc (by decide)
    have hplus : c ≠ 43 := by rintro rfl; exact absurd hc (by decide)
    constructor
    · rw [List.cons_append, List.dropWhile_cons, not_isSpace_of_isDigit hc]
      rfl
    · rw [List.cons_append, readSign, if_neg hminus, if_neg hplus]

/-- **Round trip.** A printed number is read back, also behind spaces. -/
theorem readInt_printInt (n : Int) {blank rest : List UInt8}
    (hblank : ∀ c ∈ blank, isSpace c = true) (hrest : Ends isDigit rest) :
    readInt (blank ++ printInt n ++ rest) = (some n, rest) := by
  have hds := isDigit_printNat n.natAbs
  have hne := printNat_ne_nil n.natAbs
  obtain ⟨hskip, hsign⟩ : _ ∧ readSign (printNat n.natAbs ++ rest) = (false, _) :=
    readSign_digits hne hds
  have htake := takeWhile_append hds hrest
  have hdrop := dropWhile_append hds hrest
  have hnum := number_printNat n.natAbs
  rw [List.append_assoc, readInt, List.dropWhile_append_of_pos hblank]
  by_cases hneg : n < 0
  · have hspace : (printInt n ++ rest).dropWhile isSpace = 45 :: (printNat n.natAbs ++ rest) := by
      rw [printInt, if_pos hneg]
      rfl
    rw [hspace, readSign, if_pos rfl]
    simp only [htake, hdrop, hnum, if_neg hne, if_true]
    congr 2
    omega
  · have hspace : (printInt n ++ rest).dropWhile isSpace = printNat n.natAbs ++ rest := by
      rw [printInt, if_neg hneg, hskip]
    rw [hspace, hsign]
    simp only [htake, hdrop, hnum, if_neg hne, Bool.false_eq_true, if_false]
    congr 2
    omega

theorem ofLong_toLong {n : Int} (hlow : -2147483648 ≤ n) (hhigh : n ≤ 2147483647) :
    ofLong (toLong n) = n := by
  have hlong : toLong n = n := by
    unfold toLong
    omega
  rw [hlong, ofLong]
  exact Int.bmod_eq_of_le_mul_two (by omega) (by omega)

theorem atoi_printInt {n : Int} (hlow : -2147483648 ≤ n) (hhigh : n ≤ 2147483647)
    {rest : List UInt8} (hrest : Ends isDigit rest) : atoi (printInt n ++ rest) = n := by
  have hread : readInt ([] ++ printInt n ++ rest) = (some n, rest) :=
    readInt_printInt n (fun c hc => by cases hc) hrest
  rw [List.nil_append] at hread
  rw [atoi, hread]
  exact ofLong_toLong hlow hhigh

theorem printInt_length_le {n : Int} (hlow : -2147483648 ≤ n) (hhigh : n ≤ 2147483647) :
    (printInt n).length ≤ 11 := by
  have hlen : (printNat n.natAbs).length ≤ 10 :=
    (printNat_length_le (by decide)).mpr (by omega)
  unfold printInt
  split
  · rw [List.length_cons]
    omega
  · omega

theorem printInt_ne_zero (n : Int) : ∀ c ∈ printInt n, c ≠ 0 := by
  have hdigit (c : UInt8) (hc : c ∈ printNat n.natAbs) : c ≠ 0 := by
    rintro rfl
    exact absurd (isDigit_printNat n.natAbs 0 hc) (by decide)
  unfold printInt
  split
  · intro c hc
    rcases List.mem_cons.mp hc with rfl | hc
    · decide
    · exact hdigit c hc
  · exact hdigit

end Decimal
