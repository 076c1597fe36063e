import Netepoll.Lib.CString
import Netepoll.Lib.Columns

/-! `XOR` and `lrcBuf` of lib_s/base/tool.c: the exclusive-or of a text cut into groups of
eight bytes, and of all its bytes. -/

namespace Netepoll

open CString Columns

/-! ## tool.c -/

/-- The loop of `lrcBuf` for `k` more values from `i` on. -/
def lrcLoop (Buf : Block) : Nat → Nat → UInt8 → Option UInt8
  | 0, _, c => some c
  | k + 1, i, c => do
    let b ← Buf[i]?
    lrcLoop Buf k (i + 1) (c ^^^ b)

def lrcBuf (Buf : Block) (Len : Nat) : Option UInt8 := lrcLoop Buf Len 0 0

/-- `szOutData[j] ^= src[j]` for `k` values from `j` on. A signed `src[j]` has the same low
byte. -/
def xorInto (src : Block) : Nat → Nat → Block → Option Block
  | 0, _, szOutData => some szOutData
  | k + 1, j, szOutData => do
    let a ← szOutData[j]?
    let b ← src[j]?
    let szOutData ← poke szOutData j (a ^^^ b)
    xorInto src k (j + 1) szOutData

/-- The body of the loop of `XOR`: `tmp` and `szOutData` after it. -/
def XORGroup (szInData : Block) (nLen i : Nat) (tmp szOutData : Block) :
    Option (Block × Block) :=
  if nLen - i < 8 then do
    let tmp ← memset tmp 0 8
    let tmp ← memcpy tmp 0 (szInData.drop i) (nLen - i)
    let szOutData ← xorInto tmp 8 0 szOutData
    some (tmp, szOutData)
  else do
    let szOutData ← xorInto (szInData.drop i) 8 0 szOutData
    some (tmp, szOutData)

def XORLoop (szInData : Block) (nLen : Nat) : Nat → Nat → Block → Block → Option Block
  | 0, _, _, _ => none
  | fuel + 1, i, tmp, szOutData =>
    if i < nLen then do
      let (tmp, szOutData) ← XORGroup szInData nLen i tmp szOutData
      -- `i` is an `int`
      if intMax < i + 8 then none else XORLoop szInData nLen fuel (i + 8) tmp szOutData
    else some szOutData

/-- `tmp` is what stands in `tmp[20]` before. -/
def XOR (tmp : Vector UInt8 20) (szInData : Block) (nLen : Nat) (szOutData : Block) :
    Option Block := do
  let szOutData ← memset szOutData 0 8
  XORLoop szInData nLen (nLen + 1) 0 tmp.toList szOutData

/-! ## Columns -/

/-- Byte `k` is the exclusive-or of all bytes whose index is `k` modulo 8. -/
def xorColumns (d : List UInt8) : List UInt8 := columns (· ^^^ ·) 0 8 d

def xorAll (d : List UInt8) : UInt8 := total (· ^^^ ·) 0 d

/-- Zeros up to a multiple of 8. -/
def padRight (d : List UInt8) : List UInt8 := d ++ zeros ((8 - d.length % 8) % 8)

theorem lrcLoop_eq {Buf : Block} {d junk : List UInt8} {k i : Nat} (hbuf : Buf.drop i = d ++ junk)
    (hlen : d.length = k) (c : UInt8) : lrcLoop Buf k i c = some (c ^^^ xorAll d) := by
  induction k generalizing d i c with
  | zero =>
    rw [List.eq_nil_of_length_eq_zero hlen, lrcLoop]
    exact congrArg some (UInt8.xor_zero).symm
  | succ k ih =>
    cases d with
    | nil => cases hlen
    | cons b d =>
      rw [lrcLoop, getElem?_of_drop hbuf, Option.bind_eq_bind, Option.bind_some,
        ih (drop_succ_of_drop hbuf) (Nat.succ.inj hlen), UInt8.xor_assoc]
      rfl

/-- `lrcBuf` is the exclusive-or of all bytes. -/
theorem lrcBuf_eq (d junk : List UInt8) : lrcBuf (d ++ junk) d.length = some (xorAll d) := by
  rw [lrcBuf, lrcLoop_eq (List.drop_zero) rfl, UInt8.zero_xor]

theorem xorInto_eq {src out row bytes rest junk : List UInt8} {k j : Nat}
    (hout : out.drop j = row ++ rest) (hsrc : src.drop j = bytes ++ junk)
    (hrow : row.length = k) (hbytes : bytes.length = k) :
    xorInto src k j out = some (splice out j (List.zipWith (· ^^^ ·) row bytes)) := by
  induction k generalizing j out row bytes with
  | zero =>
    rw [List.eq_nil_of_length_eq_zero hrow, List.zipWith_nil_left, splice_nil]
    rfl
  | succ k ih =>
    cases row with
    | nil => cases hrow
    | cons a row =>
    cases bytes with
    | nil => cases hbytes
    | cons b bytes =>
      have hj : j < out.length := lt_length_of_drop hout
      have hnext : (splice out j [a ^^^ b]).drop (j + 1) = row ++ rest :=
        (splice_drop [a ^^^ b] (Nat.le_of_lt hj)).trans (drop_succ_of_drop hout)
      rw [xorInto, getElem?_of_drop hout, getElem?_of_drop hsrc]
      simp only [Option.bind_eq_bind, Option.bind_some]
      rw [poke, if_pos hj, Option.bind_some, ih hnext (drop_succ_of_drop hsrc)
        (Nat.succ.inj hrow) (Nat.succ.inj hbytes), splice_cons _ _ hj]
      rfl

/-- A row on top of the columns of the rows before it. -/
theorem xorColumns_append {d : List UInt8} (h : 8 ∣ d.length) (e : List UInt8) :
    xorColumns (d ++ e) = List.zipWith (· ^^^ ·) (xorColumns d) (xorColumns e) :=
  columns_append h e

theorem xorColumns_length (d : List UInt8) : (xorColumns d).length = 8 := columns_length _ _ _ _

theorem xorColumns_short {d : List UInt8} (h : d.length ≤ 8) :
    xorColumns d = d ++ List.replicate (8 - d.length) 0 := columns_short h

/-- What is left of the text, padded with zeros in `tmp`. -/
theorem fillTmp_eq {tmp rest : Block} (htmp : 8 ≤ tmp.length) (hrest : rest.length ≤ 8)
    (junk : Block) : ((memset tmp 0 8).bind fun tmp => memcpy tmp 0 (rest ++ junk) rest.length) =
      some (xorColumns rest ++ tmp.drop 8) := by
  have hroom : (splice tmp 0 (List.replicate 8 0)).length = tmp.length :=
    splice_length (by rw [List.length_replicate]; omega)
  have hfill : splice (splice tmp 0 (List.replicate 8 0)) 0 rest =
      xorColumns rest ++ tmp.drop 8 := by
    rw [splice_replicate 0 rest (by omega), xorColumns_short hrest, Nat.zero_add]
    rfl
  have hsource : rest.length ≤ (rest ++ junk).length := by
    rw [List.length_append]
    exact Nat.le_add_right _ _
  rw [memset, if_pos htmp, Option.bind_some, memcpy, if_pos ⟨hsource, by omega⟩, List.take_left,
    hfill]

/-- The body adds the next eight bytes, or what is left of the text. -/
theorem XORGroup_adds {d : List UInt8} (junk : List UInt8) {i : Nat} (hlt : i < d.length)
    {tmp : Block} (htmp : 8 ≤ tmp.length) {out row rest : List UInt8}
    (hout : out.drop 0 = row ++ rest) (hrow : row.length = 8) :
    ∃ tmp', 8 ≤ tmp'.length ∧ XORGroup (d ++ junk) d.length i tmp out =
      some (tmp', splice out 0
        (List.zipWith (· ^^^ ·) row (xorColumns ((d.drop i).take 8)))) := by
  have hsource : (d ++ junk).drop i = d.drop i ++ junk :=
    List.drop_append_of_le_length (Nat.le_of_lt hlt)
  have hrest : (d.drop i).length = d.length - i := List.length_drop
  rw [XORGroup, hsource]
  by_cases hshort : d.length - i < 8
  · have hfill := fillTmp_eq htmp (hrest.symm ▸ Nat.le_of_lt hshort) junk
    have hadd : xorInto (xorColumns (d.drop i) ++ tmp.drop 8) 8 0 out =
        some (splice out 0 (List.zipWith (· ^^^ ·) row (xorColumns (d.drop i)))) :=
      xorInto_eq hout rfl hrow (xorColumns_length _)
    have htake : (d.drop i).take 8 = d.drop i := List.take_of_length_le (by omega)
    rw [hrest] at hfill
    refine ⟨xorColumns (d.drop i) ++ tmp.drop 8, ?_, ?_⟩
    · rw [List.length_append, xorColumns_length]
      exact Nat.le_add_right _ _
    · simp only [if_pos hshort, Option.bind_eq_bind]
      rw [← Option.bind_assoc, hfill, Option.bind_some, hadd, htake]
      rfl
  · have hbytes : ((d.drop i).take 8).length = 8 := by
      rw [List.length_take, hrest]
      omega
    have hgroup : xorColumns ((d.drop i).take 8) = (d.drop i).take 8 := by
      rw [xorColumns_short (Nat.le_of_eq hbytes), hbytes]
      exact List.append_nil _
    have hsrc : (d.drop i ++ junk).drop 0 = (d.drop i).take 8 ++ ((d.drop i).drop 8 ++ junk) := by
      rw [List.drop_zero, ← List.append_assoc, List.take_append_drop]
    refine ⟨tmp, htmp, ?_⟩
    rw [if_neg hshort, xorInto_eq hout hsrc hrow hbytes, hgroup]
    rfl

theorem XORGroup_eq {d : List UInt8} (junk : List UInt8) {i : Nat} (hi : 8 ∣ i)
    (hlt : i < d.length) {tmp : Block} (htmp : 8 ≤ tmp.length) (out : Block) :
    ∃ tmp', 8 ≤ tmp'.length ∧
      XORGroup (d ++ junk) d.length i tmp (splice out 0 (xorColumns (d.take i))) =
        some (tmp', splice out 0 (xorColumns (d.take (i + 8)))) := by
  have hfront : (d.take i).length = i := List.length_take_of_le (Nat.le_of_lt hlt)
  have hcolumns : xorColumns (d.take (i + 8)) = List.zipWith (· ^^^ ·) (xorColumns (d.take i))
      (xorColumns ((d.drop i).take 8)) := by
    rw [List.take_add, xorColumns_append (hfront.symm ▸ hi)]
  have hrow : (splice out 0 (xorColumns (d.take i))).drop 0 =
      xorColumns (d.take i) ++ out.drop 8 := by
    rw [List.drop_zero, splice_zero, xorColumns_length]
  have hstore : splice (splice out 0 (xorColumns (d.take i))) 0
      (xorColumns (d.take (i + 8))) = splice out 0 (xorColumns (d.take (i + 8))) :=
    splice_overwrite (by rw [xorColumns_length, xorColumns_length])
  obtain ⟨tmp', htmp', hgroup⟩ := XORGroup_adds junk hlt htmp hrow (xorColumns_length _)
  exact ⟨tmp', htmp', by rw [hgroup, ← hcolumns, hstore]⟩

/-- The loop has added the groups in front of `i`. -/
theorem XORLoop_eq {d : List UInt8} (junk : List UInt8) (hint : (d.length : Int) ≤ intMax - 7)
    {fuel i : Nat} (hfuel : d.length - i < fuel) (hi : 8 ∣ i) {tmp : Block} (htmp : 8 ≤ tmp.length)
    (out : Block) :
    XORLoop (d ++ junk) d.length fuel i tmp (splice out 0 (xorColumns (d.take i))) =
      some (splice out 0 (xorColumns d)) := by
  induction fuel generalizing i tmp with
  | zero => omega
  | succ fuel ih =>
    rw [XORLoop]
    by_cases hlt : i < d.length
    · obtain ⟨tmp', htmp', hgroup⟩ := XORGroup_eq junk hi hlt htmp out
      have hstep : ¬ intMax < (i : Int) + 8 := by
        unfold intMax at hint ⊢
        omega
      rw [if_pos hlt, hgroup, Option.bind_eq_bind, Option.bind_some]
      simp only
      rw [if_neg hstep]
      exact ih (by omega) (by omega) htmp'
    · rw [if_neg hlt, List.take_of_length_le (Nat.not_lt.mp hlt)]

theorem XOR_eq {d : List UInt8} (hint : (d.length : Int) ≤ intMax - 7) (junk : List UInt8)
    (tmp : Vector UInt8 20) {out : Block} (hout : 8 ≤ out.length) :
    XOR tmp (d ++ junk) d.length out = some (splice out 0 (xorColumns d)) := by
  have htmp : 8 ≤ tmp.toList.length := by
    rw [Vector.length_toList]
    decide
  have hzero : List.replicate 8 0 = xorColumns (d.take 0) := by
    rw [List.take_zero]
    rfl
  rw [XOR, memset, if_pos hout, Option.bind_eq_bind, Option.bind_some, hzero]
  exact XORLoop_eq junk hint (by omega) (Nat.dvd_zero 8) htmp out

theorem padRight_length (d : List UInt8) : (padRight d).length = (d.length + 7) / 8 * 8 := by
  rw [padRight, List.length_append, zeros_length]
  omega

theorem xorColumns_padRight (d : List UInt8) : xorColumns (padRight d) = xorColumns d :=
  columns_pad 8 d _

theorem xorAll_xorColumns (d : List UInt8) : xorAll (xorColumns d) = xorAll d :=
  total_columns (by decide) d

/-- `XOR` stores the columns. Zeros at the end change nothing, whole groups in front are added
to what follows them, and the eight bytes have the check value of the text. -/
theorem XOR_columns {d : List UInt8} (hd : d.length < 2147483640) (junk : List UInt8)
    (tmp : Vector UInt8 20) {out : Block} (hout : 8 ≤ out.length) :
    XOR tmp (d ++ junk) d.length out = some (splice out 0 (xorColumns d)) ∧
    XOR tmp (padRight d) (padRight d).length out = XOR tmp (d ++ junk) d.length out ∧
    (∀ e : List UInt8, 8 ∣ d.length → (d ++ e).length < 2147483640 →
      XOR tmp (d ++ e ++ junk) (d ++ e).length out =
        some (splice out 0 (List.zipWith (· ^^^ ·) (xorColumns d) (xorColumns e)))) ∧
    ((XOR tmp (d ++ junk) d.length out).bind fun szOutData => lrcBuf szOutData 8) =
      lrcBuf (d ++ junk) d.length := by
  have hxor : XOR tmp (d ++ junk) d.length out = some (splice out 0 (xorColumns d)) :=
    XOR_eq (by unfold intMax; omega) junk tmp hout
  refine ⟨hxor, ?_, fun e hrows he => ?_, ?_⟩
  · have hlen := padRight_length d
    have hpad := XOR_eq (d := padRight d) (by unfold intMax; omega) [] tmp hout
    rw [List.append_nil, xorColumns_padRight] at hpad
    rw [hpad, hxor]
  · rw [XOR_eq (by unfold intMax; omega) junk tmp hout, xorColumns_append hrows]
  · have hcheck := lrcBuf_eq (xorColumns d) (out.drop 8)
    rw [xorColumns_length, xorAll_xorColumns] at hcheck
    rw [hxor, Option.bind_some, splice_zero, xorColumns_length, hcheck, lrcBuf_eq]

/-- Nine bytes: the last one falls on the first. -/
theorem XOR_columns_nine :
    XOR (Vector.replicate 20 255) [49, 50, 51, 52, 53, 54, 55, 56, 57] 9 (zeros 8) =
      some [8, 50, 51, 52, 53, 54, 55, 56] :=
  (XOR_columns (d := [49, 50, 51, 52, 53, 54, 55, 56, 57]) (by decide) []
    (Vector.replicate 20 255) (by decide)).1

end Netepoll
