import Netepoll.Lib.Decimal
import Netepoll.Lib.Nibble

/-! Internet addresses as text: what `inet_addr` reads, in all the notations it knows. An
address in dotted decimal is read as it is printed. -/

namespace Inet

open Decimal Nibble Words

def INADDR_ANY : Nat := 0
def INADDR_NONE : Nat := 0xffffffff

def isHexDigit (c : UInt8) : Bool := decide (IsHex c)

def isOctal (c : UInt8) : Bool := 48 ≤ c && c ≤ 55

/-- `strtoul(s, &end, 0)` where `s` starts with a digit: `0x` is for hexadecimal numbers and
`0` for octal ones. -/
def readPart (s : List UInt8) : Nat × List UInt8 :=
  if s.head? = some 48 then
    if (s[1]? = some 120 ∨ s[1]? = some 88) ∧ (s.drop 2).head?.any isHexDigit = true then
      (hexNumber ((s.drop 2).takeWhile isHexDigit), (s.drop 2).dropWhile isHexDigit)
    else (number 8 (s.takeWhile isOctal), s.dropWhile isOctal)
  else (number 10 (s.takeWhile isDigit), s.dropWhile isDigit)

/-- At most `k` parts with dots between them, and what is left. -/
def readParts : Nat → List UInt8 → Option (List Nat × List UInt8)
  | 0, _ => none
  | k + 1, s =>
    if s.head?.any isDigit = true then
      let part := readPart s
      if 0xffffffff < part.1 then none
      else if part.2.head? = some 46 then
        if 0xff < part.1 then none
        else (readParts k part.2.tail).map fun r => (part.1 :: r.1, r.2)
      else some ([part.1], part.2)
    else none

/-- The last part fills all the bytes that are left. -/
def joinParts : List Nat → Option Nat
  | [d] => some d
  | [a, d] => if d < 2 ^ 24 then some (a * 2 ^ 24 + d) else none
  | [a, b, d] => if d < 2 ^ 16 then some (a * 2 ^ 24 + b * 2 ^ 16 + d) else none
  | [a, b, c, d] => if d < 2 ^ 8 then some (a * 2 ^ 24 + b * 2 ^ 16 + c * 2 ^ 8 + d) else none
  | _ => none

/-- `ntohl(inet_addr(s))` -/
def inetAddr (s : List UInt8) : Nat :=
  match readParts 4 s with
  | none => INADDR_NONE
  | some r =>
    if r.2.head?.all isSpace = true then (joinParts r.1).getD INADDR_NONE else INADDR_NONE

/-! ## Dotted decimal -/

def dotted (a b c d : Nat) : List UInt8 :=
  printNat a ++ 46 :: (printNat b ++ 46 :: (printNat c ++ 46 :: printNat d))

theorem head_printNat : ∀ n < 256, n ≠ 0 → (printNat n).head? ≠ some 48 := by
  decide +kernel

theorem isDigit_head (n : Nat) (rest : List UInt8) :
    (printNat n ++ rest).head?.any isDigit = true := by
  cases h : printNat n with
  | nil => exact absurd h (printNat_ne_nil n)
  | cons c cs => exact isDigit_printNat n c (by rw [h]; exact List.mem_cons_self)

/-- What may stand behind a part in decimal: the end, or a dot. -/
def Closes (rest : List UInt8) : Prop := rest = [] ∨ ∃ s, rest = 46 :: s

theorem Closes.ends {rest : List UInt8} (h : Closes rest) : Ends isDigit rest := by
  rcases h with rfl | ⟨s, rfl⟩
  · exact ends_nil isDigit
  · exact ends_cons rfl

theorem readPart_printNat {n : Nat} (hn : n < 256) {rest : List UInt8} (hrest : Closes rest) :
    readPart (printNat n ++ rest) = (n, rest) := by
  by_cases hzero : n = 0
  · subst hzero
    have hprint : printNat 0 = [48] := by decide
    rw [hprint, readPart]
    rcases hrest with rfl | ⟨s, rfl⟩
    · rfl
    · simp [isOctal, number]
  · have hhead : (printNat n ++ rest).head? ≠ some 48 := by
      rw [List.head?_append_of_ne_nil _ (printNat_ne_nil n)]
      exact head_printNat n hn hzero
    rw [readPart, if_neg hhead, takeWhile_append (isDigit_printNat n) hrest.ends,
      dropWhile_append (isDigit_printNat n) hrest.ends, number_printNat]

theorem readParts_dot {n k : Nat} (hn : n < 256) (s : List UInt8) :
    readParts (k + 1) (printNat n ++ 46 :: s) = (readParts k s).map fun r => (n :: r.1, r.2) := by
  have hpart := readPart_printNat hn (.inr ⟨s, rfl⟩)
  rw [readParts, if_pos (isDigit_head n _)]
  simp only [hpart, List.head?_cons, List.tail_cons, if_true]
  rw [if_neg (by omega), if_neg (by omega)]

theorem readParts_end {n k : Nat} (hn : n < 256) :
    readParts (k + 1) (printNat n) = some ([n], []) := by
  have hpart := readPart_printNat hn (.inl rfl)
  have hdigit := isDigit_head n []
  rw [List.append_nil] at hpart hdigit
  rw [readParts, if_pos hdigit]
  simp only [hpart, List.head?_nil, reduceCtorEq, if_false]
  rw [if_neg (by omega)]

/-- **Dotted decimal.** An address is read as it is printed. -/
theorem inetAddr_dotted {a b c d : Nat} (ha : a < 256) (hb : b < 256) (hc : c < 256)
    (hd : d < 256) :
    inetAddr (dotted a b c d) = a * 2 ^ 24 + b * 2 ^ 16 + c * 2 ^ 8 + d := by
  have hparts : readParts 4 (dotted a b c d) = some ([a, b, c, d], []) := by
    rw [dotted, readParts_dot ha, readParts_dot hb, readParts_dot hc, readParts_end hd]
    rfl
  rw [inetAddr, hparts]
  simp [joinParts, hd]

end Inet
