import Mathlib.Data.Fintype.BigOperators
import Netepoll.Dates
import Netepoll.Spaces

/-! The rest of strtool.c: the checks of characters, the dates and times with separators, the
case of a string, and random strings. The locale is `C`: the program never sets another one. -/

namespace Netepoll

open CString

namespace Strtool

/-! ## ctype.h -/

def isupper (c : UInt8) : Bool := 65 ≤ c && c ≤ 90

def islower (c : UInt8) : Bool := 97 ≤ c && c ≤ 122

def isalpha (c : UInt8) : Bool := isupper c || islower c

def isalnum (c : UInt8) : Bool := isalpha c || isdigit c

def isxdigit (c : UInt8) : Bool :=
  isdigit c || (65 ≤ c && c ≤ 70) || (97 ≤ c && c ≤ 102)

def isascii (c : UInt8) : Bool := c < 128

def isprint (c : UInt8) : Bool := 32 ≤ c && c ≤ 126

def toupper (c : UInt8) : UInt8 := if islower c then c - 32 else c

def tolower (c : UInt8) : UInt8 := if isupper c then c + 32 else c

/-! ## strtool.c -/

/-- The loop of the checks: the first `len` bytes, up to the first one that is not `p`. -/
def isEvery (p : UInt8 → Bool) : Block → Nat → Option Int
  | _, 0 => some 1
  | [], _ + 1 => none
  | c :: str, len + 1 => if p c = false then some 0 else isEvery p str len

def isHex (str : Block) (len : Int) : Option Int := isEvery isxdigit str len.toNat

def isAlnum (str : Block) (len : Int) : Option Int := isEvery isalnum str len.toNat

def isAlpha (str : Block) (len : Int) : Option Int := isEvery isalpha str len.toNat

def isAscii (str : Block) (len : Int) : Option Int := isEvery isascii str len.toNat

def isPrint (str : Block) (len : Int) : Option Int := isEvery isprint str len.toNat

/-- The copies of `isDateFmt` and `isTimeFmt`: `n` bytes and two times two, with one byte left
out in front of each two. -/
def copyParts (n : Nat) (str : Block) : Option Block := do
  let part ← memcpy (zeros (n + 2 + 2 + 1)) 0 str n
  let part ← memcpy part n (str.drop (n + 1)) 2
  memcpy part (n + 2) (str.drop (n + 1 + 2 + 1)) 2

def isDateFmt (str : Block) : Option Int := do
  let len ← strlen str
  if len ≠ 10 then some 0
  else
    let date ← copyParts 4 str
    if (← isDate date) = 0 then some 0 else some 1

def isTimeFmt (str : Block) : Option Int := do
  let len ← strlen str
  if len ≠ 8 then some 0
  else
    let time ← copyParts 2 str
    if (← isTime time) = 0 then some 0 else some 1

/-- `*ptr = f(*ptr)` for `k` values of `ptr` from `i` on. -/
def mapLoop (f : UInt8 → UInt8) : Nat → Nat → Block → Option Block
  | 0, _, str => some str
  | k + 1, i, str => do
    let c ← str[i]?
    let str ← poke str i (f c)
    mapLoop f k (i + 1) str

def str2upper (str : Block) : Option Block := do
  let len := toInt (← strlen str)
  mapLoop toupper len.toNat 0 str

def str2lower (str : Block) : Option Block := do
  let len := toInt (← strlen str)
  mapLoop tolower len.toNat 0 str

/-- The character for two results of `rand`. -/
def randomChar (flag value : Nat) : UInt8 :=
  match flag % 3 with
  | 0 => 65 + UInt8.ofNat (value % 26)
  | 1 => 97 + UInt8.ofNat (value % 26)
  | 2 => 48 + UInt8.ofNat (value % 10)
  | _ => 120

/-- The loop of `genRandomStr` for `k` values from `i` on; `rand j` is what the call number `j`
of `rand` returns. -/
def randomLoop (rand : Nat → Nat) : Nat → Nat → Block → Option Block
  | 0, _, output => some output
  | k + 1, i, output => do
    let output ← poke output i (randomChar (rand (2 * i)) (rand (2 * i + 1)))
    randomLoop rand k (i + 1) output

/-- `srand(tpstart.tv_usec)` comes first; `rand seed j` is what the call number `j` of `rand`
returns after `srand(seed)`. -/
def genRandomStr (rand : Nat → Nat → Nat) (tv_usec : Nat) (output : Block) (length : Int) :
    Option Block :=
  randomLoop (rand tv_usec) length.toNat 0 output

end Strtool

open Strtool

/-! ## The checks -/

theorem isDigit_eq_isEvery (b : Block) (n : Nat) : isDigit b n = isEvery isdigit b n := by
  induction n generalizing b with
  | zero => rw [isDigit, isEvery]
  | succ n ih =>
    cases b with
    | nil => rfl
    | cons c b => rw [isDigit, isEvery, ih]

theorem isEvery_eq (p : UInt8 → Bool) (b : Block) (n : Nat) : isEvery p b n =
    if (b.take n).all p = true then if n ≤ b.length then some 1 else none else some 0 := by
  induction n generalizing b with
  | zero => simp [isEvery]
  | succ n ih =>
    cases b with
    | nil => simp [isEvery]
    | cons c b =>
      rw [isEvery, ih]
      cases hc : p c <;> simp [hc]

/-- A check that a terminator fails reads nothing behind it. -/
theorem isEvery_string {p : UInt8 → Bool} (hp : p 0 = false) {b : Block} {s : List UInt8}
    (h : Holds b s) (n : Nat) :
    isEvery p b n = some (if n ≤ s.length ∧ (s.take n).all p = true then 1 else 0) := by
  have hlt := h.length_lt
  rw [isEvery_eq]
  rcases Nat.lt_or_ge s.length n with hlong | hshort
  · have hzero : (b.take n).all p = false := by
      obtain ⟨junk, rfl⟩ := h.bytes
      refine List.all_eq_false.mpr ⟨0, List.mem_of_getElem? (i := s.length) ?_, by simp [hp]⟩
      simp [hlong]
    rw [if_neg (by simp [hzero]), if_neg (by omega)]
  · rw [h.take hshort, if_pos (by omega : n ≤ b.length)]
    by_cases hall : (s.take n).all p = true
    · rw [if_pos hall, if_pos ⟨hshort, hall⟩]
    · rw [if_neg hall, if_neg fun hand => hall hand.2]

/-- Whatever length is given, five of the six checks stay inside the string, and a length that
is greater than that of the string is refused. A terminator is an ASCII character: `isAscii`
alone reads on behind it, and leaves the array when all of it is ASCII. -/
theorem checks_inside {b : Block} {s : List UInt8} (h : Holds b s) (len : Int) :
    (∀ check : (Block → Int → Option Int) × (UInt8 → Bool),
      check ∈ [(fun b len => isDigit b len.toNat, isdigit), (isHex, isxdigit),
        (isAlnum, isalnum), (isAlpha, isalpha), (isPrint, isprint)] →
      check.1 b len = some (if len ≤ s.length ∧ (s.take len.toNat).all check.2 = true
        then 1 else 0)) ∧
    (isAscii b len = none ↔ b.length < len ∧ b.all isascii = true) ∧
    (isAscii b len = some 1 ↔ len ≤ b.length ∧ (b.take len.toNat).all isascii = true) := by
  have hstring (p : UInt8 → Bool) (hp : p 0 = false) : isEvery p b len.toNat =
      some (if len ≤ s.length ∧ (s.take len.toNat).all p = true then 1 else 0) := by
    simp only [isEvery_string hp h, Int.toNat_le]
  refine ⟨fun check hc => ?_, ?_, ?_⟩
  · simp only [List.mem_cons, List.not_mem_nil, or_false] at hc
    rcases hc with rfl | rfl | rfl | rfl | rfl
    · exact (isDigit_eq_isEvery b len.toNat).trans (hstring isdigit rfl)
    · exact hstring isxdigit rfl
    · exact hstring isalnum rfl
    · exact hstring isalpha rfl
    · exact hstring isprint rfl
  · rw [isAscii, isEvery_eq]
    by_cases hlen : len.toNat ≤ b.length
    · have hle : ¬ (b.length : Int) < len := by omega
      simp only [hlen, hle]
      grind
    · have htake : b.take len.toNat = b := List.take_of_length_le (by omega)
      have hlt : (b.length : Int) < len := by omega
      simp only [hlen, hlt, htake]
      grind
  · rw [isAscii, isEvery_eq]
    have hle : len ≤ b.length ↔ len.toNat ≤ b.length := by omega
    rw [hle]
    grind

/-- `az`, a terminator and an `a`, with the length 3. -/
theorem checks_inside_az :
    isAlpha [97, 122, 0, 97] 3 = some 0 ∧ isAscii [97, 122, 0, 97] 3 = some 1 := by
  have hb : Holds [97, 122, 0, 97] [97, 122] := ⟨by decide, [97], rfl⟩
  obtain ⟨hchecks, -, hascii⟩ := checks_inside hb 3
  exact ⟨hchecks (isAlpha, isalpha) (by simp), hascii.mpr ⟨by decide, rfl⟩⟩

/-! ## Dates and times with separators -/

/-- The string without the two separators. -/
def partsOf (n : Nat) (s : List UInt8) : List UInt8 :=
  s.take n ++ (s.drop (n + 1)).take 2 ++ s.drop (n + 4)

/-- Six digits that make a time. -/
structure ClockTime (s : List UInt8) : Prop where
  digits : DigitString 6 s
  hour : decimalNumber (s.take 2) ≤ 23
  minute : decimalNumber ((s.drop 2).take 2) ≤ 59
  second : decimalNumber (s.drop 4) ≤ 59

theorem copyParts_holds {b : Block} {s : List UInt8} (h : Holds b s) {n : Nat}
    (hlen : s.length = n + 6) :
    ∃ part, copyParts n b = some part ∧ Holds part (partsOf n s) := by
  have hlt := h.length_lt
  have hfirst : b.take n = s.take n := h.take (by omega)
  have hsecond : (b.drop (n + 1)).take 2 = (s.drop (n + 1)).take 2 :=
    (h.drop (by omega)).take (by rw [List.length_drop]; omega)
  have hthird : (b.drop (n + 1 + 2 + 1)).take 2 = s.drop (n + 4) := by
    rw [(h.drop (by omega)).take (by rw [List.length_drop]; omega)]
    exact List.take_of_length_le (by rw [List.length_drop]; omega)
  have hn : (s.take n).length = n := by rw [List.length_take, Nat.min_eq_left (by omega)]
  have hn2 : (s.take n ++ (s.drop (n + 1)).take 2).length = n + 2 := by
    rw [List.length_append, hn, List.length_take, List.length_drop]
    omega
  have hall : (partsOf n s).length = n + 2 + 2 := by
    rw [partsOf, List.length_append, hn2, List.length_drop]
    omega
  have hz : (zeros (n + 2 + 2 + 1)).length = n + 2 + 2 + 1 := zeros_length _
  have htwo : splice (splice (zeros (n + 2 + 2 + 1)) 0 (s.take n)) (0 + (s.take n).length)
      ((s.drop (n + 1)).take 2) =
        splice (zeros (n + 2 + 2 + 1)) 0 (s.take n ++ (s.drop (n + 1)).take 2) :=
    splice_splice _ _ (by omega)
  have hthree : splice (splice (zeros (n + 2 + 2 + 1)) 0 (s.take n ++ (s.drop (n + 1)).take 2))
      (0 + (s.take n ++ (s.drop (n + 1)).take 2).length) (s.drop (n + 4)) =
        splice (zeros (n + 2 + 2 + 1)) 0 (partsOf n s) :=
    splice_splice _ _ (by omega)
  rw [hn, Nat.zero_add] at htwo
  rw [hn2, Nat.zero_add] at hthree
  refine ⟨partsOf n s ++ zeros 1, ?_, ?_⟩
  · have hlen1 : (splice (zeros (n + 2 + 2 + 1)) 0 (s.take n)).length = n + 2 + 2 + 1 := by
      rw [splice_length (by omega), hz]
    have hlen2 : (splice (zeros (n + 2 + 2 + 1)) 0
        (s.take n ++ (s.drop (n + 1)).take 2)).length = n + 2 + 2 + 1 := by
      rw [splice_length (by omega), hz]
    have hrest : n + 2 + 2 + 1 - (partsOf n s).length = 1 := by omega
    rw [copyParts, memcpy, if_pos ⟨by omega, by omega⟩, hfirst, Option.bind_eq_bind,
      Option.bind_some, memcpy, if_pos ⟨by rw [List.length_drop]; omega, by omega⟩, hsecond, htwo,
      Option.bind_some, memcpy, if_pos ⟨by rw [List.length_drop]; omega, by omega⟩, hthird, hthree,
      splice_zeros, hrest]
  · refine holds_terminated fun h0 => h.noNul ?_
    rw [partsOf, List.mem_append, List.mem_append] at h0
    rcases h0 with (h0 | h0) | h0
    · exact List.mem_of_mem_take h0
    · exact List.mem_of_mem_drop (List.mem_of_mem_take h0)
    · exact List.mem_of_mem_drop h0

theorem isTime_iff {b : Block} {s : List UInt8} (h : Holds b s) :
    ∃ r, isTime b = some r ∧ (r = 1 ↔ ClockTime s) := by
  by_cases hs : DigitString 6 s
  · refine ⟨_, isTime_digits h hs, ?_⟩
    have hlast : (s.drop 4).take 2 = s.drop 4 :=
      List.take_of_length_le (by rw [List.length_drop, hs.length])
    rw [hlast, List.drop_zero]
    constructor
    · intro hr
      split at hr
      · cases hr
      · exact ⟨hs, by omega, by omega, by omega⟩
    · rintro ⟨-, hhour, hminute, hsecond⟩
      rw [if_neg (by omega)]
  · exact ⟨0, isTime_no_digits h hs, iff_of_false (by decide) fun ht => hs ht.digits⟩

theorem isDate_bit {b : Block} {s : List UInt8} (h : Holds b s) {r : Int}
    (hr : isDate b = some r) : (if r = 0 then some 0 else some 1 : Option Int) = some r := by
  cases hr.symm.trans (isDate_held h)
  split <;> rfl

theorem isTime_bit {b : Block} {s : List UInt8} (h : Holds b s) {r : Int}
    (hr : isTime b = some r) : (if r = 0 then some 0 else some 1 : Option Int) = some r := by
  cases hr.symm.trans (isTime_held h)
  split <;> rfl

/-- `isDateFmt` and `isTimeFmt` take strings of ten and of eight characters, any two of them as
separators, whose other characters make a date or a time; the date 30000229, which does not
exist, is one for `isDateFmt` too. -/
theorem formats_iff {b : Block} {s : List UInt8} (h : Holds b s) :
    (∃ r, isDateFmt b = some r ∧ (r = 1 ↔ s.length = 10 ∧
      (GregorianDate (partsOf 4 s) ∨ partsOf 4 s = day30000229))) ∧
    ∃ r, isTimeFmt b = some r ∧ (r = 1 ↔ s.length = 8 ∧ ClockTime (partsOf 2 s)) := by
  constructor
  · by_cases hlen : s.length = 10
    · obtain ⟨date, hcopy, hdate⟩ := copyParts_holds h (n := 4) hlen
      obtain ⟨r, hr, hiff⟩ := isDate_iff hdate
      refine ⟨r, ?_, by rw [hiff, and_iff_right hlen]⟩
      rw [isDateFmt, h.strlen, Option.bind_eq_bind, Option.bind_some, if_neg (by omega), hcopy,
        Option.bind_eq_bind, Option.bind_some, hr]
      exact isDate_bit hdate hr
    · refine ⟨0, ?_, iff_of_false (by decide) fun hand => hlen hand.1⟩
      rw [isDateFmt, h.strlen, Option.bind_eq_bind, Option.bind_some, if_pos hlen]
  · by_cases hlen : s.length = 8
    · obtain ⟨time, hcopy, htime⟩ := copyParts_holds h (n := 2) hlen
      obtain ⟨r, hr, hiff⟩ := isTime_iff htime
      refine ⟨r, ?_, by rw [hiff, and_iff_right hlen]⟩
      rw [isTimeFmt, h.strlen, Option.bind_eq_bind, Option.bind_some, if_neg (by omega), hcopy,
        Option.bind_eq_bind, Option.bind_some, hr]
      exact isTime_bit htime hr
    · refine ⟨0, ?_, iff_of_false (by decide) fun hand => hlen hand.1⟩
      rw [isTimeFmt, h.strlen, Option.bind_eq_bind, Option.bind_some, if_pos hlen]

/-- `2024/02/29` -/
theorem formats_iff_leap :
    isDateFmt [50, 48, 50, 52, 47, 48, 50, 47, 50, 57, 0] = some 1 := by
  have hb : Holds [50, 48, 50, 52, 47, 48, 50, 47, 50, 57, 0]
      [50, 48, 50, 52, 47, 48, 50, 47, 50, 57] := ⟨by decide, [], rfl⟩
  obtain ⟨⟨r, hr, hiff⟩, -⟩ := formats_iff hb
  have hdate : GregorianDate [50, 48, 50, 52, 48, 50, 50, 57] :=
    ⟨by decide, by decide, by decide, by decide⟩
  rw [hr, hiff.mpr ⟨rfl, .inl hdate⟩]

/-! ## Random strings -/

theorem isalnum_randomChar (flag value : Nat) : isalnum (randomChar flag value) = true := by
  have hupper : ∀ r < 26, isalnum (65 + UInt8.ofNat r) = true := by decide
  have hlower : ∀ r < 26, isalnum (97 + UInt8.ofNat r) = true := by decide
  have hdigit : ∀ r < 10, isalnum (48 + UInt8.ofNat r) = true := by decide
  unfold randomChar
  split
  · exact hupper _ (Nat.mod_lt _ (by decide))
  · exact hlower _ (Nat.mod_lt _ (by decide))
  · exact hdigit _ (Nat.mod_lt _ (by decide))
  · rfl

/-- The `k` characters that are made from number `i` on. -/
def randomText (rand : Nat → Nat) (i : Nat) : Nat → List UInt8
  | 0 => []
  | k + 1 => randomChar (rand (2 * i)) (rand (2 * i + 1)) :: randomText rand (i + 1) k

theorem randomText_length (rand : Nat → Nat) (i k : Nat) : (randomText rand i k).length = k := by
  induction k generalizing i with
  | zero => rfl
  | succ k ih => rw [randomText, List.length_cons, ih]

theorem randomText_alnum (rand : Nat → Nat) (i k : Nat) :
    ∀ c ∈ randomText rand i k, isalnum c = true := by
  induction k generalizing i with
  | zero =>
    intro c hc
    cases hc
  | succ k ih =>
    intro c hc
    rcases List.mem_cons.mp hc with rfl | hc
    · exact isalnum_randomChar _ _
    · exact ih (i + 1) c hc

theorem randomLoop_eq (rand : Nat → Nat) {i k : Nat} {output : Block} (hi : i ≤ output.length) :
    randomLoop rand k i output =
      if i + k ≤ output.length then some (splice output i (randomText rand i k)) else none := by
  induction k generalizing i output with
  | zero => rw [randomLoop, randomText, splice_nil, if_pos (by omega)]
  | succ k ih =>
    rw [randomLoop, poke]
    by_cases hlt : i < output.length
    · rw [if_pos hlt, Option.bind_eq_bind, Option.bind_some,
        ih (by rw [splice_single_length _ hlt]; omega), splice_single_length _ hlt,
        splice_cons _ _ hlt, randomText, Nat.add_right_comm, Nat.add_assoc]
    · rw [if_neg hlt, if_neg (by omega)]
      rfl

/-- What `genRandomStr` does. -/
theorem genRandomStr_eq_some {rand : Nat → Nat → Nat} {tv_usec : Nat} {output output' : Block}
    {length : Int} : genRandomStr rand tv_usec output length = some output' ↔
      length ≤ output.length ∧
        splice output 0 (randomText (rand tv_usec) 0 length.toNat) = output' := by
  have hlen : 0 + length.toNat ≤ output.length ↔ length ≤ output.length := by omega
  rw [genRandomStr, randomLoop_eq _ (Nat.zero_le _)]
  simp only [hlen, Option.ite_none_right_eq_some, Option.some.injEq]

/-- The text of a shorter string is the beginning of that of a longer one. -/
theorem randomText_take (rand : Nat → Nat) (i : Nat) {k n : Nat} (h : k ≤ n) :
    (randomText rand i n).take k = randomText rand i k := by
  induction k generalizing i n with
  | zero => rw [List.take_zero, randomText]
  | succ k ih =>
    obtain ⟨n, rfl⟩ : ∃ m, n = m + 1 := ⟨n - 1, by omega⟩
    rw [randomText, randomText, List.take_succ_cons, ih (i + 1) (by omega)]

/-- `genRandomStr` has left `output'` of `output`. -/
structure RandomStored (output : Block) (length : Int) (output' : Block) : Prop where
  alnum : isAlnum output' length = some 1
  size : output'.length = output.length
  behind : output'.drop length.toNat = output.drop length.toNat

theorem splice_zero_take {dst : Block} {bs : List UInt8} {n : Nat} (h : n ≤ bs.length) :
    (splice dst 0 bs).take n = bs.take n := by
  simpa only [Nat.zero_add, List.take_zero, List.nil_append] using
    splice_take_of_le (Nat.zero_le dst.length) h

theorem randomStored_splice {output : Block} {length : Int} {s : List UInt8}
    (hlength : length ≤ output.length) (hs : s.length = length.toNat)
    (halnum : ∀ c ∈ s, Strtool.isalnum c = true) :
    RandomStored output length (splice output 0 s) := by
  have hle : 0 + s.length ≤ output.length := by omega
  have hsize : (splice output 0 s).length = output.length := splice_length hle
  have htake := splice_take s (Nat.zero_le output.length)
  have hdrop := splice_drop s (Nat.zero_le output.length)
  rw [hs, Nat.zero_add] at htake hdrop
  refine ⟨?_, hsize, hdrop⟩
  rw [isAlnum, isEvery_eq, htake, hsize, if_pos, if_pos (by omega)]
  exact List.all_eq_true.mpr halnum

/-- The letters and digits by their numbers. -/
def letter (r : Fin 62) : UInt8 :=
  if r.val < 26 then 65 + UInt8.ofNat r.val
  else if r.val < 52 then 97 + UInt8.ofNat (r.val - 26)
  else 48 + UInt8.ofNat (r.val - 52)

theorem isalnum_letter : ∀ r, Strtool.isalnum (letter r) = true := by decide

theorem letter_injective : Function.Injective letter := by decide

/-- There are more strings of four letters and digits than seeds. -/
theorem exists_never_made (rand : Nat → Nat → Nat) {k : Nat} (hk : 4 ≤ k) :
    ∃ f : Fin k → Fin 62, ∀ tv_usec < 1000000,
      randomText (rand tv_usec) 0 k ≠ List.ofFn (letter ∘ f) := by
  by_contra hnone
  push Not at hnone
  choose seed hlt hseed using hnone
  have hinj : Function.Injective fun f => (⟨seed f, hlt f⟩ : Fin 1000000) := by
    intro f g hfg
    have hfg : seed f = seed g := congrArg Fin.val hfg
    have hlists : List.ofFn (letter ∘ f) = List.ofFn (letter ∘ g) := by
      rw [← hseed f, ← hseed g, hfg]
    exact letter_injective.comp_left (List.ofFn_injective hlists)
  have hcard : 62 ^ k ≤ 1000000 := by
    simpa only [Fintype.card_fun, Fintype.card_fin] using Fintype.card_le_of_injective _ hinj
  have hpow : 62 ^ 4 ≤ 62 ^ k := Nat.pow_le_pow_right (by decide) hk
  omega

/-- Whatever `rand` is: `genRandomStr` stays inside the array just when the length does, and
then stores that many letters and digits, which `isAlnum` accepts, and nothing behind them, no
terminator either. The seed decides it all: at one microsecond a shorter string is the beginning
of a longer one, and of four characters or more some string comes at none of the million. -/
theorem genRandomStr_seeded (rand : Nat → Nat → Nat) (output : Block) (length : Int) :
    (∀ tv_usec, (∃ output', genRandomStr rand tv_usec output length = some output') ↔
      length ≤ output.length) ∧
    (∀ tv_usec output', genRandomStr rand tv_usec output length = some output' →
      RandomStored output length output' ∧
      ∀ longer longer' length', length ≤ length' →
        genRandomStr rand tv_usec longer length' = some longer' →
          longer'.take length.toNat = output'.take length.toNat) ∧
    (4 ≤ length → length ≤ output.length → ∃ output', RandomStored output length output' ∧
      ∀ tv_usec < 1000000, genRandomStr rand tv_usec output length ≠ some output') := by
  refine ⟨fun tv_usec => ⟨fun ⟨_, h⟩ => (genRandomStr_eq_some.mp h).1, fun hle => ?_⟩,
    fun tv_usec output' h => ⟨?_, fun longer longer' length' hle h' => ?_⟩, fun hfour hle => ?_⟩
  · exact ⟨_, genRandomStr_eq_some.mpr ⟨hle, rfl⟩⟩
  · obtain ⟨hle, rfl⟩ := genRandomStr_eq_some.mp h
    exact randomStored_splice hle (randomText_length _ _ _) (randomText_alnum _ _ _)
  · obtain ⟨-, rfl⟩ := genRandomStr_eq_some.mp h
    obtain ⟨-, rfl⟩ := genRandomStr_eq_some.mp h'
    have hnat : length.toNat ≤ length'.toNat := by omega
    rw [splice_zero_take (by rw [randomText_length]; omega), randomText_take _ _ hnat,
      splice_zero_take (by rw [randomText_length]), randomText_take _ _ le_rfl]
  · obtain ⟨f, hnever⟩ := exists_never_made rand (k := length.toNat) (by omega)
    have halnum (c : UInt8) (hc : c ∈ List.ofFn (letter ∘ f)) : Strtool.isalnum c = true := by
      obtain ⟨i, rfl⟩ := (List.mem_ofFn' _ _).mp hc
      exact isalnum_letter (f i)
    refine ⟨_, randomStored_splice hle List.length_ofFn halnum, fun tv_usec hlt h => ?_⟩
    obtain ⟨-, heq⟩ := genRandomStr_eq_some.mp h
    have hsame : (randomText (rand tv_usec) 0 length.toNat).length =
        (List.ofFn (letter ∘ f)).length := by rw [randomText_length, List.length_ofFn]
    exact hnever tv_usec hlt ((splice_zero_inj hsame).mp heq)

/-- A `rand` that counts from its seed on. -/
theorem genRandomStr_seeded_two :
    genRandomStr (fun seed j => seed + j) 25 [1, 2, 3] 2 = some [97, 67, 3] ∧
      RandomStored [1, 2, 3] 2 [97, 67, 3] := by
  have hrun : genRandomStr (fun seed j => seed + j) 25 [1, 2, 3] 2 = some [97, 67, 3] := by decide
  exact ⟨hrun, ((genRandomStr_seeded _ _ _).2.1 25 _ hrun).1⟩

end Netepoll
