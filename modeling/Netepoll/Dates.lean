import Netepoll.Bcd

/-! `isDate`, `isTime` and `isDatetime` (strtool.c) on arrays of bytes, and the calendar
that they check against. -/

namespace Netepoll

open CString

/-! ## strtool.c -/

def isdigit (c : UInt8) : Bool := 48 ≤ c && c ≤ 57

/-- The first `len` bytes of `str`, up to the first one that is no digit. -/
def isDigit : Block → Nat → Option Int
  | _, 0 => some 1
  | [], _ + 1 => none
  | c :: str, len + 1 => if isdigit c = false then some 0 else isDigit str len

def isYear (year : Int) : Int := if year < 1700 ∨ year > 3000 then 0 else 1

def isLeapYear (year : Int) : Int :=
  if (year.tmod 4 = 0 ∧ year.tmod 100 ≠ 0) ∨ year.tmod 400 = 0 ∨ year.tmod 1000 = 0 then 1 else 0

def isMonth (month : Int) : Int := if month > 12 ∨ month < 1 then 0 else 1

def monthDays : List Int := [0, 31, 28, 31, 30, 31, 30, 31, 31, 30, 31, 30, 31]

def mxday_month (year month : Int) : Int :=
  if isYear year = 0 ∨ isMonth month = 0 then 0
  else
    let mxday := monthDays.getD month.toNat 0
    if isLeapYear year ≠ 0 ∧ month = 2 then mxday + 1 else mxday

def isDay (year month day : Int) : Int :=
  if day < 1 ∨ day > mxday_month year month then 0 else 1

/-- `Str[i]-'0'` -/
def digitAt (str : Block) (i : Nat) : Option Int := (str[i]?).map fun c => charToInt c - 48

/-- Two digits as a number. -/
def twoDigits (str : Block) (i : Nat) : Option Int := do
  let a ← digitAt str i
  let b ← digitAt str (i + 1)
  some (a * 10 + b)

/-- `!isDigit(Str, n) || strlen(Str) != n`, negated -/
def isDigitString (str : Block) (n : Nat) : Option Bool := do
  let digits ← isDigit str n
  if digits = 0 then some false
  else
    let len ← strlen str
    some (len == n)

def isDate (str : Block) : Option Int := do
  let ok ← isDigitString str 8
  if !ok then some 0
  else
    let a ← digitAt str 0
    let b ← digitAt str 1
    let c ← digitAt str 2
    let d ← digitAt str 3
    let year := a * 1000 + b * 100 + c * 10 + d
    let month ← twoDigits str 4
    let day ← twoDigits str 6
    some (if isDay year month day = 0 then 0 else 1)

def isTime (str : Block) : Option Int := do
  let ok ← isDigitString str 6
  if !ok then some 0
  else
    let hour ← twoDigits str 0
    let minute ← twoDigits str 2
    let second ← twoDigits str 4
    some (if (hour > 23 ∨ hour < 0) ∨ (minute > 59 ∨ minute < 0) ∨ (second > 59 ∨ second < 0) then 0
      else 1)

def isDatetime (str : Block) : Option Int := do
  let date ← memcpy (zeros 9) 0 str 8
  let time ← memcpy (zeros 7) 0 (str.drop 8) 6
  if (← isDate date) = 0 then some 0
  else if (← isTime time) = 0 then some 0
  else some 1

/-! ## The calendar -/

def LeapYear (y : Nat) : Prop := (4 ∣ y ∧ ¬ 100 ∣ y) ∨ 400 ∣ y

instance (y : Nat) : Decidable (LeapYear y) := inferInstanceAs (Decidable (_ ∨ _))

def monthLength (y m : Nat) : Nat :=
  if m = 2 then if LeapYear y then 29 else 28
  else if m = 4 ∨ m = 6 ∨ m = 9 ∨ m = 11 then 30
  else 31

/-- The number that decimal digits make. -/
def decimalNumber (ds : List UInt8) : Nat := ds.foldl (fun n c => 10 * n + (c.toNat - 48)) 0

structure DigitString (n : Nat) (s : List UInt8) : Prop where
  length : s.length = n
  digits : ∀ c ∈ s, isdigit c = true

/-- Eight digits that make a date from 1700 to 3000. -/
structure GregorianDate (s : List UInt8) : Prop where
  digits : DigitString 8 s
  year : 1700 ≤ decimalNumber (s.take 4) ∧ decimalNumber (s.take 4) ≤ 3000
  month : 1 ≤ decimalNumber ((s.drop 4).take 2) ∧ decimalNumber ((s.drop 4).take 2) ≤ 12
  day : 1 ≤ decimalNumber (s.drop 6) ∧ decimalNumber (s.drop 6) ≤
    monthLength (decimalNumber (s.take 4)) (decimalNumber ((s.drop 4).take 2))

/-! ## Digits -/

theorem isdigit_toNat {c : UInt8} (h : isdigit c = true) : 48 ≤ c.toNat ∧ c.toNat ≤ 57 := by
  rw [isdigit, Bool.and_eq_true, decide_eq_true_eq, decide_eq_true_eq] at h
  exact h

theorem charToInt_digit {c : UInt8} (h : isdigit c = true) : charToInt c = c.toNat := by
  have hc := isdigit_toNat h
  exact charToInt_of_lt (UInt8.lt_iff_toNat_lt.mpr (Nat.lt_of_le_of_lt hc.2 (by decide)))

/-- A string that is too short is no string of digits, as its terminator shows. -/
theorem isDigit_eq {b : Block} {s : List UInt8} (h : Holds b s) (n : Nat) :
    isDigit b n = some (if n ≤ s.length ∧ (s.take n).all isdigit = true then 1 else 0) := by
  obtain ⟨h0, junk, rfl⟩ := h
  induction n generalizing s with
  | zero => simp [isDigit]
  | succ n ih =>
    cases s with
    | nil => rw [List.nil_append, isDigit, if_pos (by decide), if_neg (by simp)]
    | cons c s =>
      rw [List.cons_append, isDigit]
      cases hc : isdigit c with
      | false => simp [hc]
      | true =>
        rw [if_neg (by decide), ih (List.not_mem_of_not_mem_cons h0)]
        simp [hc]

instance (n : Nat) (s : List UInt8) : Decidable (DigitString n s) :=
  decidable_of_iff (s.length = n ∧ s.all isdigit = true)
    ⟨fun h => ⟨h.1, List.all_eq_true.mp h.2⟩, fun h => ⟨h.length, List.all_eq_true.mpr h.digits⟩⟩

theorem isDigitString_eq {b : Block} {s : List UInt8} (h : Holds b s) (n : Nat) :
    isDigitString b n = some (decide (DigitString n s)) := by
  rw [isDigitString, isDigit_eq h, h.strlen]
  simp only [Option.bind_eq_bind, Option.bind_some]
  by_cases hdigits : n ≤ s.length ∧ (s.take n).all isdigit = true
  · rw [if_pos hdigits, if_neg (by decide)]
    by_cases hlen : s.length = n
    · have hstring : DigitString n s := by
        refine ⟨hlen, ?_⟩
        have htake := List.all_eq_true.mp hdigits.2
        rwa [← hlen, List.take_length] at htake
      rw [decide_eq_true hstring, beq_iff_eq.mpr hlen]
    · have hno : ¬ DigitString n s := fun hstring => hlen hstring.length
      rw [decide_eq_false hno, beq_eq_false_iff_ne.mpr hlen]
  · have hno : ¬ DigitString n s := fun hstring => by
      refine hdigits ⟨Nat.le_of_eq hstring.length.symm, List.all_eq_true.mpr fun c hc => ?_⟩
      exact hstring.digits c (List.mem_of_mem_take hc)
    rw [if_neg hdigits, if_pos rfl, decide_eq_false hno]

theorem digitAt_eq {b : Block} {s : List UInt8} (h : Holds b s) {i : Nat} {c : UInt8}
    (hi : s[i]? = some c) (hc : isdigit c = true) :
    digitAt b i = some ((c.toNat - 48 : Nat) : Int) := by
  have hlt := (List.getElem?_eq_some_iff.mp hi).1
  have hle := (isdigit_toNat hc).1
  rw [digitAt, h.getElem?_of_lt hlt, hi, Option.map_some, charToInt_digit hc,
    Int.ofNat_sub hle]
  rfl

/-- The number of the two digits at `i`. -/
theorem twoDigits_eq {b : Block} {s : List UInt8} (h : Holds b s) {i : Nat}
    (hi : i + 2 ≤ s.length) (hs : ∀ c ∈ s, isdigit c = true) :
    twoDigits b i = some ((decimalNumber ((s.drop i).take 2) : Nat) : Int) := by
  have hfirst : s[i]? = some s[i] := List.getElem?_eq_getElem (by omega)
  have hsecond : s[i + 1]? = some s[i + 1] := List.getElem?_eq_getElem (by omega)
  have hpair : (s.drop i).take 2 = [s[i], s[i + 1]] := by
    rw [List.drop_eq_getElem_cons (by omega), List.drop_eq_getElem_cons (by omega)]
    rfl
  rw [twoDigits, digitAt_eq h hfirst (hs _ (List.getElem_mem _)),
    digitAt_eq h hsecond (hs _ (List.getElem_mem _)), hpair]
  simp only [Option.bind_eq_bind, Option.bind_some, decimalNumber, List.foldl_cons, List.foldl_nil,
    Option.some.injEq]
  omega

/-! ## Dates -/

/-- The code's leap years: the year 3000 is one of them. -/
theorem isLeapYear_iff {y : Nat} (hy : 1700 ≤ y ∧ y ≤ 3000) :
    isLeapYear y ≠ 0 ↔ LeapYear y ∨ y = 3000 := by
  have hcast (k : Nat) : (y : Int).tmod k = 0 ↔ k ∣ y := by
    rw [← Int.natCast_dvd_natCast]
    exact Int.dvd_iff_tmod_eq_zero.symm
  have hcode : isLeapYear y ≠ 0 ↔ (4 ∣ y ∧ ¬ 100 ∣ y) ∨ 400 ∣ y ∨ 1000 ∣ y := by
    rw [isLeapYear, ← hcast 4, ← hcast 100, ← hcast 400, ← hcast 1000]
    split
    · next h => exact iff_of_true (by decide) h
    · next h => exact iff_of_false (by decide) h
  rw [hcode, LeapYear]
  omega

/-- Apart from the leap days the month table is the calendar's. -/
theorem monthDays_eq {y m : Nat} (hm : 1 ≤ m ∧ m ≤ 12) :
    monthDays.getD m 0 = ((if m = 2 then 28 else monthLength y m : Nat) : Int) := by
  have hcases : m = 1 ∨ m = 2 ∨ m = 3 ∨ m = 4 ∨ m = 5 ∨ m = 6 ∨ m = 7 ∨ m = 8 ∨ m = 9 ∨ m = 10 ∨
      m = 11 ∨ m = 12 := by omega
  rcases hcases with rfl | rfl | rfl | rfl | rfl | rfl | rfl | rfl | rfl | rfl | rfl | rfl <;> rfl

theorem mxday_month_eq {y m : Nat} (hy : 1700 ≤ y ∧ y ≤ 3000) (hm : 1 ≤ m ∧ m ≤ 12) :
    mxday_month y m = ((if y = 3000 ∧ m = 2 then 29 else monthLength y m : Nat) : Int) := by
  have hyear : isYear y = 1 := by rw [isYear, if_neg (by omega)]
  have hmonth : isMonth m = 1 := by rw [isMonth, if_neg (by omega)]
  have hleap := isLeapYear_iff hy
  rw [mxday_month, hyear, hmonth, if_neg (by decide), Int.toNat_natCast]
  simp only [monthDays_eq (y := y) hm]
  by_cases h2 : m = 2
  · subst h2
    have h3000 : y = 3000 → ¬ LeapYear y := by
      rintro rfl
      decide
    by_cases hl : LeapYear y ∨ y = 3000
    · rw [if_pos ⟨hleap.mpr hl, rfl⟩, monthLength, if_pos rfl]
      grind
    · rw [if_neg fun h => hl (hleap.mp h.1), monthLength, if_pos rfl]
      grind
  · rw [if_neg (by omega), if_neg h2, if_neg (by omega)]

/-- A month that is none has no days, nor has one in a year out of range. -/
theorem mxday_month_none {y m : Nat} (h : ¬ ((1700 ≤ y ∧ y ≤ 3000) ∧ 1 ≤ m ∧ m ≤ 12)) :
    mxday_month y m = 0 := by
  rw [mxday_month, if_pos]
  rw [isYear, isMonth]
  grind

theorem decimalNumber_four (a b c d : UInt8) :
    decimalNumber [a, b, c, d] = (a.toNat - 48) * 1000 + (b.toNat - 48) * 100 +
      (c.toNat - 48) * 10 + (d.toNat - 48) := by
  simp only [decimalNumber, List.foldl_cons, List.foldl_nil]
  omega

/-- A fixed number of digits is told by its number. -/
theorem decimalNumber_inj {s t : List UInt8} (hlen : s.length = t.length)
    (hs : ∀ c ∈ s, isdigit c = true) (ht : ∀ c ∈ t, isdigit c = true)
    (h : decimalNumber s = decimalNumber t) : s = t := by
  induction s using List.reverseRecOn generalizing t with
  | nil => exact (List.length_eq_zero_iff.mp hlen.symm).symm
  | append_singleton s c ih =>
    rcases List.eq_nil_or_concat t with rfl | ⟨t, d, rfl⟩
    · simp at hlen
    · rw [List.concat_eq_append] at hlen ht h ⊢
      rw [decimalNumber, decimalNumber, List.foldl_append, List.foldl_append] at h
      change 10 * decimalNumber s + _ = 10 * decimalNumber t + _ at h
      have hc := isdigit_toNat (hs c (by simp))
      have hd := isdigit_toNat (ht d (by simp))
      have hcd : c = d := UInt8.toNat_inj.mp (by omega)
      have hst : s = t := by
        refine ih (by simpa using hlen) (fun x hx => hs x (by simp [hx]))
          (fun x hx => ht x (by simp [hx])) ?_
        subst hcd
        omega
      rw [hst, hcd]

/-- 30000229, the day that the code's leap year 3000 has too much. -/
def day30000229 : List UInt8 := [51, 48, 48, 48, 48, 50, 50, 57]

/-- The fields of the one day that the calendar does not have. -/
theorem eq_day30000229 {s : List UInt8} (hs : DigitString 8 s)
    (hy : decimalNumber (s.take 4) = 3000) (hm : decimalNumber ((s.drop 4).take 2) = 2)
    (hd : decimalNumber (s.drop 6) = 29) : s = day30000229 := by
  have hbad : DigitString 8 day30000229 := by decide
  have hlen : s.length = day30000229.length := hs.length
  have hpart (i n : Nat)
      (h : decimalNumber ((s.drop i).take n) = decimalNumber ((day30000229.drop i).take n)) :
      (s.drop i).take n = (day30000229.drop i).take n := by
    refine decimalNumber_inj ?_ (fun c hc => hs.digits c ?_) (fun c hc => hbad.digits c ?_) h
    · rw [List.length_take, List.length_take, List.length_drop, List.length_drop, hlen]
    · exact List.mem_of_mem_drop (List.mem_of_mem_take hc)
    · exact List.mem_of_mem_drop (List.mem_of_mem_take hc)
  have hyear : s.take 4 = day30000229.take 4 := hpart 0 4 hy
  have hmonth := hpart 4 2 hm
  have hlast : (s.drop 6).take 2 = s.drop 6 :=
    List.take_of_length_le (by rw [List.length_drop, hs.length])
  have hday : s.drop 6 = day30000229.drop 6 := hlast ▸ hpart 6 2 (by rw [hlast]; exact hd)
  calc s = s.take 4 ++ ((s.drop 4).take 2 ++ s.drop 6) := by
        rw [← List.drop_drop (i := 2) (j := 4), List.take_append_drop, List.take_append_drop]
    _ = day30000229 := by rw [hyear, hmonth, hday]; rfl

/-- The year, the month and the day as the code reads them. -/
theorem isDate_digits {b : Block} {s : List UInt8} (h : Holds b s) (hs : DigitString 8 s) :
    isDate b = some (if isDay (decimalNumber (s.take 4)) (decimalNumber ((s.drop 4).take 2))
      (decimalNumber (s.drop 6)) = 0 then 0 else 1) := by
  have hok : isDigitString b 8 = some true := by rw [isDigitString_eq h, decide_eq_true hs]
  have hmonth := twoDigits_eq h (i := 4) (by rw [hs.length]; decide) hs.digits
  have hday := twoDigits_eq h (i := 6) (by rw [hs.length]) hs.digits
  rw [List.take_of_length_le (by rw [List.length_drop, hs.length])] at hday
  obtain ⟨y0, y1, y2, y3, rest, rfl⟩ : ∃ y0 y1 y2 y3 rest, s = y0 :: y1 :: y2 :: y3 :: rest := by
    have hlen := hs.length
    match s, hlen with
    | y0 :: y1 :: y2 :: y3 :: rest, _ => exact ⟨y0, y1, y2, y3, rest, rfl⟩
  have h0 := digitAt_eq h (i := 0) rfl (hs.digits y0 (by simp))
  have h1 := digitAt_eq h (i := 1) rfl (hs.digits y1 (by simp))
  have h2 := digitAt_eq h (i := 2) rfl (hs.digits y2 (by simp))
  have h3 := digitAt_eq h (i := 3) rfl (hs.digits y3 (by simp))
  have hyear : ((y0.toNat - 48 : Nat) : Int) * 1000 + ((y1.toNat - 48 : Nat) : Int) * 100 +
      ((y2.toNat - 48 : Nat) : Int) * 10 + ((y3.toNat - 48 : Nat) : Int) =
        (decimalNumber [y0, y1, y2, y3] : Nat) := by
    rw [decimalNumber_four]
    push_cast
    rfl
  rw [isDate, hok, h0, h1, h2, h3, hmonth, hday]
  simp only [Option.bind_eq_bind, Option.bind_some, hyear]
  rfl

theorem isDay_iff (y m d : Nat) : isDay y m d ≠ 0 ↔
    (1700 ≤ y ∧ y ≤ 3000) ∧ (1 ≤ m ∧ m ≤ 12) ∧
      1 ≤ d ∧ d ≤ if y = 3000 ∧ m = 2 then 29 else monthLength y m := by
  have hcode : isDay y m d ≠ 0 ↔ 1 ≤ d ∧ (d : Int) ≤ mxday_month y m := by
    rw [isDay]
    grind
  rw [hcode]
  by_cases hrange : (1700 ≤ y ∧ y ≤ 3000) ∧ 1 ≤ m ∧ m ≤ 12
  · rw [mxday_month_eq hrange.1 hrange.2, Int.ofNat_le]
    exact ⟨fun h => ⟨hrange.1, hrange.2, h⟩, fun h => h.2.2⟩
  · rw [mxday_month_none hrange]
    exact iff_of_false (by omega) fun h => hrange ⟨h.1, h.2.1⟩

theorem isDate_no_digits {b : Block} {s : List UInt8} (h : Holds b s) (hs : ¬ DigitString 8 s) :
    isDate b = some 0 := by
  rw [isDate, isDigitString_eq h, decide_eq_false hs]
  rfl

theorem isDate_iff {b : Block} {s : List UInt8} (h : Holds b s) :
    ∃ r, isDate b = some r ∧ (r = 1 ↔ GregorianDate s ∨ s = day30000229) := by
  by_cases hs : DigitString 8 s
  · refine ⟨_, isDate_digits h hs, ?_⟩
    have hr (x : Int) : (if x = 0 then (0 : Int) else 1) = 1 ↔ x ≠ 0 := by
      split <;> simp [*]
    rw [hr, isDay_iff]
    constructor
    · rintro ⟨hyear, hmonth, hday⟩
      by_cases hfeb : decimalNumber (s.take 4) = 3000 ∧ decimalNumber ((s.drop 4).take 2) = 2
      · rw [if_pos hfeb] at hday
        have hlength : monthLength (decimalNumber (s.take 4))
            (decimalNumber ((s.drop 4).take 2)) = 28 := by
          rw [hfeb.1, hfeb.2]
          decide
        rcases Nat.lt_or_eq_of_le hday.2 with hlt | heq
        · exact .inl ⟨hs, hyear, hmonth, hday.1, by omega⟩
        · exact .inr (eq_day30000229 hs hfeb.1 hfeb.2 heq)
      · rw [if_neg hfeb] at hday
        exact .inl ⟨hs, hyear, hmonth, hday⟩
    · rintro (hdate | rfl)
      · refine ⟨hdate.year, hdate.month, hdate.day.1, Nat.le_trans hdate.day.2 ?_⟩
        split
        · next hfeb =>
          rw [hfeb.1, hfeb.2]
          decide
        · exact Nat.le_refl _
      · decide
  · refine ⟨0, isDate_no_digits h hs, iff_of_false (by decide) ?_⟩
    rintro (hdate | rfl)
    · exact hs hdate.digits
    · exact hs (by decide)

/-- `isDate` tells the dates, whatever stands after the string, and reads nothing of it. -/
def DateExact (s : List UInt8) : Prop :=
  ∀ b, Holds b s → ∃ r, isDate b = some r ∧ (r = 1 ↔ GregorianDate s)

theorem not_dateExact_day : ¬ DateExact day30000229 := by
  intro h
  have hheld : Holds (day30000229 ++ [0]) day30000229 := holds_terminated (by decide)
  obtain ⟨r, hr, hdate⟩ := h _ hheld
  obtain ⟨r', hr', hcode⟩ := isDate_iff hheld
  cases hr.symm.trans hr'
  exact absurd (hdate.mp (hcode.mpr (.inr rfl))).day (by decide)

/-- The one string that `isDate` gets wrong. -/
theorem dateExact_iff (s : Text) : DateExact s.chars ↔ s.chars ≠ day30000229 := by
  constructor
  · rintro h heq
    exact not_dateExact_day (heq ▸ h)
  · intro hne b hb
    obtain ⟨r, hr, hcode⟩ := isDate_iff hb
    exact ⟨r, hr, hcode.trans (or_iff_left hne)⟩

/-- The year 3000 is no leap year, yet 30000229 is accepted. -/
theorem not_dateExact : ¬ ∀ s : Text, DateExact s.chars :=
  fun h => not_dateExact_day (h ⟨day30000229, by decide⟩)

/-! ## Dates with times -/

theorem isTime_digits {b : Block} {s : List UInt8} (h : Holds b s) (hs : DigitString 6 s) :
    isTime b = some (if decimalNumber ((s.drop 0).take 2) > 23 ∨
      decimalNumber ((s.drop 2).take 2) > 59 ∨ decimalNumber ((s.drop 4).take 2) > 59 then 0
        else 1) := by
  have hok : isDigitString b 6 = some true := by rw [isDigitString_eq h, decide_eq_true hs]
  have hhour := twoDigits_eq h (i := 0) (by rw [hs.length]; decide) hs.digits
  have hminute := twoDigits_eq h (i := 2) (by rw [hs.length]; decide) hs.digits
  have hsecond := twoDigits_eq h (i := 4) (by rw [hs.length]) hs.digits
  rw [isTime, hok, hhour, hminute, hsecond]
  simp only [Option.bind_eq_bind, Option.bind_some]
  grind

theorem isTime_no_digits {b : Block} {s : List UInt8} (h : Holds b s) (hs : ¬ DigitString 6 s) :
    isTime b = some 0 := by
  rw [isTime, isDigitString_eq h, decide_eq_false hs]
  rfl

/-- The answer is about the string and not about what stands after it. -/
theorem isDate_held {b : Block} {s : List UInt8} (h : Holds b s) :
    isDate b = some (if isDate (s ++ [0]) = some 1 then 1 else 0) := by
  have hs := holds_terminated h.noNul
  by_cases hdigits : DigitString 8 s
  · rw [isDate_digits h hdigits, isDate_digits hs hdigits]
    split <;> rfl
  · rw [isDate_no_digits h hdigits, isDate_no_digits hs hdigits]
    rfl

theorem isTime_held {b : Block} {s : List UInt8} (h : Holds b s) :
    isTime b = some (if isTime (s ++ [0]) = some 1 then 1 else 0) := by
  have hs := holds_terminated h.noNul
  by_cases hdigits : DigitString 6 s
  · rw [isTime_digits h hdigits, isTime_digits hs hdigits]
    split <;> rfl
  · rw [isTime_no_digits h hdigits, isTime_no_digits hs hdigits]
    rfl

/-- A date and then a time. -/
def DateThenTime (date time : List UInt8) : Prop :=
  isDate (date ++ [0]) = some 1 ∧ isTime (time ++ [0]) = some 1

instance (date time : List UInt8) : Decidable (DateThenTime date time) :=
  inferInstanceAs (Decidable (_ ∧ _))

/-- What `isDatetime` answers about the strings that its two copies hold. -/
theorem isDatetime_copies {b date time : Block} {ds ts : List UInt8}
    (hdate : memcpy (zeros 9) 0 b 8 = some date) (hd : Holds date ds)
    (htime : memcpy (zeros 7) 0 (b.drop 8) 6 = some time) (ht : Holds time ts) :
    isDatetime b = some (if DateThenTime ds ts then 1 else 0) := by
  rw [isDatetime, hdate, htime]
  simp only [Option.bind_eq_bind, Option.bind_some, isDate_held hd, isTime_held ht, DateThenTime]
  by_cases h1 : isDate (ds ++ [0]) = some 1
  · by_cases h2 : isTime (ts ++ [0]) = some 1 <;> simp [h1, h2]
  · simp [h1]

theorem isDatetime_short (s : List UInt8) (h : s.length < 13) : isDatetime (s ++ [0]) = none := by
  have htime : memcpy (zeros 7) 0 ((s ++ [0]).drop 8) 6 = none := by
    rw [memcpy, if_neg]
    rw [List.length_drop, List.length_append, List.length_singleton]
    omega
  rw [isDatetime, htime]
  cases memcpy (zeros 9) 0 (s ++ [0]) 8 <;> rfl

/-- The sixth byte of the time is the terminator. -/
theorem isDatetime_thirteen {b : Block} {s : List UInt8} (h : Holds b s) (hlen : s.length = 13) :
    isDatetime b = some 0 := by
  have hdate := memcpy_zeros h (n := 8) (m := 9) (by omega) (by decide)
  have hrest : Holds (b.drop 8) (s.drop 8) := h.drop (by omega)
  have hfive : (s.drop 8).length = 5 := by rw [List.length_drop, hlen]
  have htime := hrest.strcpy_zeros (n := 7) (by omega)
  rw [strcpy, hrest.strlen, hfive] at htime
  have hd : Holds (s.take 8 ++ zeros (9 - 8)) (s.take 8) :=
    h.take_zeros 8 (by decide)
  have ht : Holds (s.drop 8 ++ zeros (7 - 5)) (s.drop 8) := holds_zeros hrest.noNul (by decide)
  rw [isDatetime_copies hdate hd htime ht, if_neg]
  rintro ⟨-, hno⟩
  have hdigits : ¬ DigitString 6 (s.drop 8) := fun hs => by
    have := hs.length
    omega
  rw [isTime_no_digits (holds_terminated hrest.noNul) hdigits] at hno
  cases hno

/-- Only the first 14 bytes count. -/
theorem isDatetime_long {b : Block} {s : List UInt8} (h : Holds b s) (hlen : 14 ≤ s.length) :
    isDatetime b = some (if DateThenTime (s.take 8) ((s.drop 8).take 6) then 1 else 0) := by
  have hrest : Holds (b.drop 8) (s.drop 8) := h.drop (by omega)
  have hdate := memcpy_zeros h (n := 8) (m := 9) (by omega) (by decide)
  have htime := memcpy_zeros hrest (n := 6) (m := 7) (by rw [List.length_drop]; omega) (by decide)
  exact isDatetime_copies hdate (h.take_zeros 8 (by decide)) htime (hrest.take_zeros 6 (by decide))

/-- `isDatetime` tells the strings of a date and a time, whatever stands after them, and reads
nothing of it. -/
def DatetimeExact (s : List UInt8) : Prop :=
  ∀ b, Holds b s → ∃ r, isDatetime b = some r ∧
    (r = 1 ↔ s.length = 14 ∧ DateThenTime (s.take 8) (s.drop 8))

theorem datetimeExact_iff (s : Text) : DatetimeExact s.chars ↔ 13 ≤ s.chars.length ∧
    (s.chars.length ≤ 14 ∨ ¬ DateThenTime (s.chars.take 8) ((s.chars.drop 8).take 6)) := by
  have hcode (p : Prop) [Decidable p] : (if p then (1 : Int) else 0) = 1 ↔ p := by
    split <;> simp [*]
  constructor
  · intro h
    obtain ⟨r, hr, hexact⟩ := h _ s.holds
    rcases Nat.lt_or_ge s.chars.length 13 with hshort | hlen
    · rw [Text.block, isDatetime_short _ hshort] at hr
      cases hr
    · refine ⟨hlen, ?_⟩
      by_contra hno
      rw [not_or, not_not] at hno
      rw [isDatetime_long s.holds (by omega), if_pos hno.2] at hr
      have hfourteen := (hexact.mp (Option.some.inj hr).symm).1
      omega
  · rintro ⟨hlen, hor⟩ b hb
    rcases Nat.lt_or_eq_of_le hlen with hlong | hthirteen
    · refine ⟨_, isDatetime_long hb (by omega), ?_⟩
      rw [hcode]
      by_cases hfourteen : s.chars.length = 14
      · have hall : (s.chars.drop 8).take 6 = s.chars.drop 8 :=
          List.take_of_length_le (by rw [List.length_drop, hfourteen])
        rw [hall]
        exact (and_iff_right hfourteen).symm
      · exact iff_of_false (hor.resolve_left (by omega)) fun h => hfourteen h.1
    · exact ⟨0, isDatetime_thirteen hb hthirteen.symm, iff_of_false (by decide) (by omega)⟩

/-- `20240101000000x` -/
def datetimeAndMore : List UInt8 :=
  [50, 48, 50, 52, 48, 49, 48, 49, 48, 48, 48, 48, 48, 48, 120]

/-- A date and a time with a character after them. -/
theorem not_datetimeExact : ¬ ∀ s : Text, DatetimeExact s.chars := by
  intro h
  have hheld : Holds (datetimeAndMore ++ [0]) datetimeAndMore := holds_terminated (by decide)
  obtain ⟨r, hr, hexact⟩ := h ⟨datetimeAndMore, hheld.noNul⟩ _ hheld
  have hcode : isDatetime (datetimeAndMore ++ [0]) = some 1 := by decide
  cases hr.symm.trans hcode
  have hlen : datetimeAndMore.length ≠ 14 := by decide
  exact hlen (hexact.mp rfl).1

end Netepoll
