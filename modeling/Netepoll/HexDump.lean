import Netepoll.LogRotation
import Netepoll.Lib.Nibble

/-! The branch of `lprintf` for `HEX_FORMAT` (openLogFile.c): rows of 16 bytes, with their
offset in front and their characters behind. A row is closed when the next one starts. -/

namespace Netepoll

open CString Nibble

/-- `isprint` in some locale. -/
structure Locale where
  isprint : UInt8 → Bool
  control : ∀ c, c < 32 → isprint c = false

/-- What stands for a byte in the character column. -/
def Locale.glyph (L : Locale) (c : UInt8) : UInt8 := if L.isprint c then c else 46

def ascii (s : String) : List UInt8 := s.toList.map fun c => UInt8.ofNat c.toNat

/-- `%d` -/
def decimal (n : Int) : List UInt8 := ascii (toString n)

/-- The first line, which has the time and the process. -/
def hexTitle (timeStr : List UInt8) (pid len : Int) : List UInt8 :=
  10 :: ascii "[" ++ timeStr ++ ascii "][" ++ decimal pid ++ ascii "]: == HEX_BUF_LEN=[" ++
    decimal len ++ ascii "] ==" ++ [10]

/-- `0x%08X` of an `int`, and two blanks. -/
def offsetText (i : Nat) : List UInt8 := [48, 120] ++ printHex 8 i ++ [32, 32]

/-- `%02X` and a blank. -/
def column (c : UInt8) : List UInt8 := [hexChar (high c), hexChar (low c), 32]

/-- What is written so far, and `tmp_str`. -/
structure HexDump where
  text : List UInt8
  tmpStr : Block

/-- `"   %s\n"` of `tmp_str` -/
def HexDump.closeRow (d : HexDump) : Option (List UInt8) :=
  (load d.tmpStr).map fun s => d.text ++ [32, 32, 32] ++ s ++ [10]

def hexTurn (L : Locale) (p : Block) (i : Nat) (d : HexDump) : Option HexDump := do
  let d ← if i % 16 = 0 ∧ i ≠ 0 then do
      let text ← d.closeRow
      let tmpStr ← memset d.tmpStr 0 50
      some ⟨text ++ offsetText i, tmpStr⟩
    else some d
  let c ← p[i]?
  let tmpStr ← poke d.tmpStr (i % 16) (L.glyph c)
  some ⟨d.text ++ column c, tmpStr⟩

/-- The loop for `n` bytes from `i` on. -/
def hexLoop (L : Locale) (p : Block) : Nat → Nat → HexDump → Option HexDump
  | 0, _, d => some d
  | n + 1, i, d => do
    let d ← hexTurn L p i d
    hexLoop L p n (i + 1) d

/-- `space_str`, cut to the columns that the last row does not have. -/
def spaceText (i : Nat) : Option (List UInt8) :=
  if i % 16 ≠ 0 then do
    let spaceStr ← memcpy (zeros 50) 0 (List.replicate 48 32 ++ [0]) 49
    let spaceStr ← poke spaceStr ((16 - i % 16) * 3) 0
    load spaceStr
  else some []

def closeDump (i : Nat) (d : HexDump) : Option (List UInt8) := do
  let space ← spaceText i
  HexDump.closeRow ⟨d.text ++ space, d.tmpStr⟩

/-- The record. There is none for no bytes or a null pointer. -/
def hexRecord (L : Locale) (timeStr : List UInt8) (pid : Int) (p : Option Block) (len : Int) :
    Option (List UInt8) :=
  match p with
  | none => some []
  | some p =>
    if len = 0 then some []
    else do
      let d ← hexLoop L p len.toNat 0 ⟨hexTitle timeStr pid len ++ offsetText 0, zeros 50⟩
      closeDump len.toNat d

/-- `lprintf(HEX_FORMAT, p, len)` -/
def lprintfHex {τ κ : Type} [DecidableEq κ] (P : Platform τ κ) (L : Locale) (s : Logger τ κ)
    (timeStr : List UInt8) (pid : Int) (p : Option Block) (len : Int) (o : OpenCalls) :
    Option (Int × Logger τ κ) := do
  let record ← hexRecord L timeStr pid p len
  lprintf P s record o

/-! ## Rows -/

def dumpRow (L : Locale) (off : Nat) (bytes : List UInt8) : List UInt8 :=
  offsetText off ++
    (bytes.flatMap column ++ List.replicate (48 - 3 * bytes.length) 32 ++
      ([32, 32, 32] ++ bytes.map L.glyph))

/-- The row that is open with the bytes `cur`, and the rows for the rest. -/
def dumpRows (L : Locale) (off : Nat) (cur : List UInt8) : List UInt8 → List (List UInt8)
  | [] => [dumpRow L off cur]
  | c :: rest =>
    if cur.length = 16 then dumpRow L off cur :: dumpRows L (off + 16) [c] rest
    else dumpRows L off (cur ++ [c]) rest

theorem glyph_ne {L : Locale} {c d : UInt8} (hd : d < 32) : L.glyph c ≠ d := by
  rw [Locale.glyph]
  split
  · next hprint =>
    rintro rfl
    rw [L.control _ hd] at hprint
    cases hprint
  · rintro rfl
    exact absurd hd (by decide)

theorem glyphs_noNul (L : Locale) (bytes : List UInt8) : 0 ∉ bytes.map L.glyph := by
  intro hm
  obtain ⟨c, -, hc⟩ := List.mem_map.mp hm
  exact glyph_ne (by decide) hc

/-- The blanks that complete the columns of a last row of `k` bytes. -/
theorem spaceText_eq {i k : Nat} (hk : 0 < k) (hk16 : k ≤ 16) (hi : i % 16 = k % 16) :
    spaceText i = some (List.replicate (48 - 3 * k) 32) := by
  have hcut : ∀ k < 16, (do
      let spaceStr ← memcpy (zeros 50) 0 (List.replicate 48 32 ++ [0]) 49
      let spaceStr ← poke spaceStr ((16 - k) * 3) 0
      load spaceStr) = some (List.replicate (48 - 3 * k) 32) := by decide
  rw [spaceText]
  by_cases h16 : k = 16
  · subst h16
    rw [if_neg (by omega)]
    rfl
  · have hmod : i % 16 = k := by omega
    rw [hmod, if_pos (by omega)]
    exact hcut k (by omega)

/-- The loop has the bytes `cur` of the row at `off` behind it, and `text` before that row. -/
structure InRow (L : Locale) (text : List UInt8) (off : Nat) (cur : List UInt8)
    (d : HexDump) : Prop where
  aligned : off % 16 = 0
  short : cur.length ≤ 16
  started : cur = [] → off = 0
  text : d.text = text ++ (offsetText off ++ cur.flatMap column)
  tmpStr : d.tmpStr = cur.map L.glyph ++ zeros (50 - cur.length)

theorem InRow.closeRow {L : Locale} {text : List UInt8} {off : Nat} {cur : List UInt8}
    {d : HexDump} (h : InRow L text off cur d) (space : List UInt8) :
    HexDump.closeRow ⟨d.text ++ space, d.tmpStr⟩ =
      some (d.text ++ space ++ [32, 32, 32] ++ cur.map L.glyph ++ [10]) := by
  have hshort := h.short
  rw [HexDump.closeRow, h.tmpStr, (holds_zeros (glyphs_noNul L cur) (by omega)).load,
    Option.map_some]

/-- The end of the dump closes the row. -/
theorem InRow.closeDump {L : Locale} {text : List UInt8} {off : Nat} {cur : List UInt8}
    {d : HexDump} (h : InRow L text off cur d) (hcur : cur ≠ []) :
    closeDump (off + cur.length) d = some (text ++ dumpRow L off cur ++ [10]) := by
  have hpos := List.length_pos_of_ne_nil hcur
  have haligned := h.aligned
  rw [Netepoll.closeDump, spaceText_eq hpos h.short (by omega), Option.bind_eq_bind,
    Option.bind_some, h.closeRow, h.text, dumpRow]
  simp only [List.append_assoc]

/-- A byte goes into the row that is open while that has less than 16. -/
theorem InRow.next {L : Locale} {text : List UInt8} {off : Nat} {cur : List UInt8} {p : Block}
    {d : HexDump} {c : UInt8} (h : InRow L text off cur d) (hlt : cur.length < 16)
    (hc : p[off + cur.length]? = some c) :
    ∃ d', hexTurn L p (off + cur.length) d = some d' ∧ InRow L text off (cur ++ [c]) d' := by
  have haligned := h.aligned
  have hmod : (off + cur.length) % 16 = cur.length := by omega
  have hopen : ¬ ((off + cur.length) % 16 = 0 ∧ off + cur.length ≠ 0) := by
    rintro ⟨h0, hne⟩
    have hnil := List.eq_nil_of_length_eq_zero (hmod.symm.trans h0)
    have hoff := h.started hnil
    rw [hnil, hoff] at hne
    exact hne rfl
  have hroom : cur.length < d.tmpStr.length := by
    rw [h.tmpStr, List.length_append, List.length_map, zeros_length]
    omega
  refine ⟨⟨d.text ++ column c, splice d.tmpStr cur.length [L.glyph c]⟩, ?_,
    ⟨haligned, ?_, ?_, ?_, ?_⟩⟩
  · rw [hexTurn, if_neg hopen]
    simp only [Option.bind_eq_bind, Option.bind_some, hc, hmod, poke, if_pos hroom]
  · rw [List.length_append, List.length_singleton]
    omega
  · exact fun hnil => absurd hnil (by simp)
  · rw [h.text, List.flatMap_append, List.flatMap_singleton]
    simp only [List.append_assoc]
  · have hlen : cur.length = (cur.map L.glyph).length := (List.length_map _).symm
    rw [h.tmpStr, hlen, splice_append_zeros, List.map_append, List.length_append]
    simp only [List.length_map, List.map_cons, List.map_nil, List.length_singleton, Nat.sub_sub]

/-- A byte behind a full row closes it and opens the next one. -/
theorem InRow.nextRow {L : Locale} {text : List UInt8} {off : Nat} {cur : List UInt8} {p : Block}
    {d : HexDump} {c : UInt8} (h : InRow L text off cur d) (hfull : cur.length = 16)
    (hc : p[off + cur.length]? = some c) :
    ∃ d', hexTurn L p (off + cur.length) d = some d' ∧
      InRow L (text ++ dumpRow L off cur ++ [10]) (off + 16) [c] d' := by
  have haligned := h.aligned
  have hclose := h.closeRow []
  rw [List.append_nil] at hclose
  have hlen : d.tmpStr.length = 50 := by
    rw [h.tmpStr, List.length_append, List.length_map, zeros_length]
    omega
  have hclear : memset d.tmpStr 0 50 = some (zeros 50) := by
    rw [memset, if_pos (by omega), splice_zero, List.drop_eq_nil_of_le (by simp [hlen]),
      List.append_nil]
    rfl
  have hmod : (off + 16) % 16 = 0 := by omega
  have hrow : d.text ++ [32, 32, 32] ++ cur.map L.glyph ++ [10] =
      text ++ dumpRow L off cur ++ [10] := by
    rw [h.text, dumpRow, hfull]
    simp only [List.append_assoc, Nat.reduceMul, Nat.sub_self, List.replicate_zero, List.nil_append]
  rw [hfull] at hc ⊢
  refine ⟨⟨text ++ dumpRow L off cur ++ [10] ++ offsetText (off + 16) ++ column c,
    splice (zeros 50) 0 [L.glyph c]⟩, ?_, ⟨hmod, by simp, by simp, ?_, ?_⟩⟩
  · rw [hexTurn, if_pos ⟨hmod, by omega⟩]
    simp only [Option.bind_eq_bind, hclose, hclear, Option.bind_some, hc, hmod, hrow, poke,
      zeros_length, if_pos (by decide : 0 < 50)]
  · rw [List.flatMap_singleton, List.append_assoc]
  · exact splice_zeros

/-- The loop and the end of the dump print the open row and the rows for the rest. -/
theorem hexLoop_rows {L : Locale} {text : List UInt8} {off : Nat} {cur : List UInt8} {p : Block}
    {d : HexDump} {rest junk : List UInt8} (h : InRow L text off cur d)
    (hp : p.drop (off + cur.length) = rest ++ junk) (hne : cur ++ rest ≠ []) :
    ((hexLoop L p rest.length (off + cur.length) d).bind
        (closeDump (off + cur.length + rest.length))) =
      some (text ++ (dumpRows L off cur rest).flatMap (· ++ [10])) := by
  induction rest generalizing text off cur d with
  | nil =>
    rw [List.append_nil] at hne
    rw [List.length_nil, hexLoop, Option.bind_some, Nat.add_zero, h.closeDump hne, dumpRows,
      List.flatMap_singleton, List.append_assoc]
  | cons c rest ih =>
    have hc : p[off + cur.length]? = some c := by
      rw [← List.head?_drop, hp]
      rfl
    have hrest : p.drop (off + cur.length + 1) = rest ++ junk := by
      rw [← List.drop_drop, hp]
      rfl
    rw [List.length_cons, hexLoop, dumpRows]
    by_cases hfull : cur.length = 16
    · obtain ⟨d', hturn, hrow⟩ := h.nextRow hfull hc
      have hnext := ih hrow (by rw [hfull] at hrest; exact hrest) (List.cons_ne_nil _ _)
      have hend : off + 16 + (rest.length + 1) = off + 16 + 1 + rest.length := by omega
      rw [List.length_singleton] at hnext
      rw [hturn, if_pos hfull, Option.bind_eq_bind, Option.bind_some, List.flatMap_cons, hfull,
        hend, hnext]
      simp only [List.append_assoc]
    · have hshort := h.short
      obtain ⟨d', hturn, hrow⟩ := h.next (by omega) hc
      have hlen : off + (cur ++ [c]).length = off + cur.length + 1 := by
        rw [List.length_append, List.length_singleton, Nat.add_assoc]
      have hnext := ih hrow (by rw [hlen]; exact hrest) (by simp)
      have hend : off + cur.length + (rest.length + 1) = off + cur.length + 1 + rest.length := by
        omega
      rw [hlen] at hnext
      rw [hturn, if_neg hfull, Option.bind_eq_bind, Option.bind_some, ← hnext, hend]

theorem inRow_start (L : Locale) (title : List UInt8) :
    InRow L title 0 [] ⟨title ++ offsetText 0, zeros 50⟩ :=
  ⟨rfl, Nat.zero_le _, fun _ => rfl, by rw [List.flatMap_nil, List.append_nil], rfl⟩

theorem hexRecord_rows (L : Locale) (timeStr : List UInt8) (pid : Int) {buf : Block}
    (hbuf : buf ≠ []) (junk : Block) :
    hexRecord L timeStr pid (some (buf ++ junk)) buf.length =
      some (hexTitle timeStr pid buf.length ++ (dumpRows L 0 [] buf).flatMap (· ++ [10])) := by
  have hlen := List.length_pos_of_ne_nil hbuf
  have hrows := hexLoop_rows (inRow_start L (hexTitle timeStr pid buf.length))
    (rfl : (buf ++ junk).drop 0 = buf ++ junk) hbuf
  rw [List.length_nil, Nat.zero_add, Nat.zero_add] at hrows
  rw [hexRecord, if_neg (by omega), Int.toNat_natCast]
  exact hrows

/-! ## What the rows show -/

/-- The bytes in the columns, which blanks may follow. -/
def readColumns : List UInt8 → Option (List UInt8)
  | [] => some []
  | a :: b :: c :: rest =>
    if IsHex a ∧ IsHex b ∧ c = 32 then
      (readColumns rest).map fun bytes => byte (hexVal a) (hexVal b) :: bytes
    else if (a :: b :: c :: rest).all (· == 32) then some []
    else none
  | _ => none

/-- `0x`, eight digits that make the offset of row `r`, and two blanks. -/
def ShowsOffset (r : Nat) (head : List UInt8) : Prop :=
  ∃ digits, head = [48, 120] ++ digits ++ [32, 32] ∧ digits.length = 8 ∧
    (∀ c ∈ digits, IsHex c) ∧ hexNumber digits = 16 * r

/-- One row for each 16 bytes of `buf`. The hex columns are the characters 12 to 59 of a
row and read back in order as `buf`; the character column starts at 63 and has a dot for a
byte that is not printable. -/
structure DumpOf (L : Locale) (buf : List UInt8) (rows : List (List UInt8)) : Prop where
  count : rows.length = (buf.length + 15) / 16
  oneLine : ∀ row ∈ rows, 10 ∉ row
  offset : ∀ r row, rows[r]? = some row → ShowsOffset r (row.take 12)
  columns : ∃ chunks : List (List UInt8),
    (rows.map fun row => readColumns ((row.drop 12).take 48)) = chunks.map some ∧
      chunks.flatten = buf
  gap : ∀ row ∈ rows, (row.drop 60).take 3 = [32, 32, 32]
  characters : ∀ r row, rows[r]? = some row →
    row.drop 63 = ((buf.drop (16 * r)).take 16).map fun c => if L.isprint c then c else 46

theorem offsetText_length (off : Nat) : (offsetText off).length = 12 := by
  simp [offsetText]

theorem columns_length (bytes : List UInt8) :
    (bytes.flatMap column).length = 3 * bytes.length := by
  induction bytes with
  | nil => rfl
  | cons c bytes ih =>
    rw [List.flatMap_cons, List.length_append, ih, List.length_cons, Nat.mul_succ, Nat.add_comm]
    rfl

theorem readColumns_columns (bytes : List UInt8) (k : Nat) :
    readColumns (bytes.flatMap column ++ List.replicate (3 * k) 32) = some bytes := by
  induction bytes with
  | nil =>
    cases k with
    | zero => rfl
    | succ k =>
      rw [List.flatMap_nil, List.nil_append, Nat.mul_succ]
      simp only [List.replicate_succ, readColumns]
      rw [if_neg (by decide), if_pos]
      simp
  | cons c bytes ih =>
    have hhigh := high_lt c
    have hlow := low_lt c
    rw [List.flatMap_cons, column, List.append_assoc]
    simp only [List.cons_append, List.nil_append, readColumns]
    rw [if_pos ⟨isHex_hexChar hhigh, isHex_hexChar hlow, trivial⟩, ih, hexVal_hexChar hhigh,
      hexVal_hexChar hlow, byte_high_low, Option.map_some]

/-- The hex columns of a row. -/
def hexColumns (bytes : List UInt8) : List UInt8 :=
  bytes.flatMap column ++ List.replicate (48 - 3 * bytes.length) 32

theorem hexColumns_length {bytes : List UInt8} (h : bytes.length ≤ 16) :
    (hexColumns bytes).length = 48 := by
  rw [hexColumns, List.length_append, columns_length, List.length_replicate]
  omega

theorem dumpRow_drop (L : Locale) (off : Nat) (bytes : List UInt8) :
    (dumpRow L off bytes).drop 12 = hexColumns bytes ++ ([32, 32, 32] ++ bytes.map L.glyph) :=
  List.drop_left' (offsetText_length off)

theorem dumpRow_head (L : Locale) (off : Nat) (bytes : List UInt8) :
    (dumpRow L off bytes).take 12 = offsetText off :=
  List.take_left' (offsetText_length off)

theorem dumpRow_columns (L : Locale) (off : Nat) {bytes : List UInt8} (h : bytes.length ≤ 16) :
    readColumns (((dumpRow L off bytes).drop 12).take 48) = some bytes := by
  have hblanks : 48 - 3 * bytes.length = 3 * (16 - bytes.length) := by omega
  rw [dumpRow_drop, List.take_left' (hexColumns_length h), hexColumns, hblanks,
    readColumns_columns]

theorem dumpRow_tail (L : Locale) (off : Nat) {bytes : List UInt8} (h : bytes.length ≤ 16) :
    (dumpRow L off bytes).drop 60 = [32, 32, 32] ++ bytes.map L.glyph := by
  have hdrop : (dumpRow L off bytes).drop 60 = ((dumpRow L off bytes).drop 12).drop 48 := by
    rw [List.drop_drop]
  rw [hdrop, dumpRow_drop, List.drop_left' (hexColumns_length h)]

theorem not_isHex_newline : ¬ IsHex 10 := by decide

theorem dumpRow_oneLine (L : Locale) (off : Nat) (bytes : List UInt8) :
    10 ∉ dumpRow L off bytes := by
  have hoffset : 10 ∉ offsetText off := by
    have hdigits : 10 ∉ printHex 8 off := fun hm =>
      not_isHex_newline (isHex_printHex 8 off 10 hm)
    simp [offsetText, hdigits]
  have hcolumns : 10 ∉ bytes.flatMap column := by
    intro hm
    obtain ⟨c, -, hc⟩ := List.mem_flatMap.mp hm
    simp only [column, List.mem_cons, List.not_mem_nil, or_false] at hc
    rcases hc with hc | hc | hc
    · exact not_isHex_newline (hc ▸ isHex_hexChar (high_lt c))
    · exact not_isHex_newline (hc ▸ isHex_hexChar (low_lt c))
    · cases hc
  have hblanks : 10 ∉ List.replicate (48 - 3 * bytes.length) (32 : UInt8) := fun hm => by
    cases List.eq_of_mem_replicate hm
  have hglyphs : 10 ∉ bytes.map L.glyph := fun hm => by
    obtain ⟨c, -, hc⟩ := List.mem_map.mp hm
    exact glyph_ne (by decide) hc
  simp [dumpRow, hoffset, hcolumns, hblanks, hglyphs]

/-! ## The whole dump -/

theorem dumpRows_length (L : Locale) {off : Nat} {cur rest : List UInt8}
    (hcur : cur.length ≤ 16) (hne : 0 < cur.length + rest.length) :
    (dumpRows L off cur rest).length = (cur.length + rest.length + 15) / 16 := by
  induction rest generalizing off cur with
  | nil =>
    rw [List.length_nil] at hne ⊢
    rw [dumpRows, List.length_singleton]
    omega
  | cons c rest ih =>
    rw [dumpRows]
    split
    · next hfull =>
      rw [List.length_cons, ih (by simp) (by rw [List.length_singleton]; omega),
        List.length_singleton, List.length_cons]
      omega
    · next hfull =>
      rw [ih (by rw [List.length_append, List.length_singleton]; omega)
        (by rw [List.length_append, List.length_singleton]; omega), List.length_append,
        List.length_singleton, List.length_cons]
      congr 1
      omega

/-- Row `r` has the `r`th 16 bytes. -/
theorem dumpRows_row (L : Locale) {off : Nat} {cur rest : List UInt8} (hcur : cur.length ≤ 16)
    {r : Nat} {row : List UInt8} (hrow : (dumpRows L off cur rest)[r]? = some row) :
    row = dumpRow L (off + 16 * r) (((cur ++ rest).drop (16 * r)).take 16) := by
  induction rest generalizing off cur r with
  | nil =>
    rw [dumpRows] at hrow
    cases r with
    | zero =>
      rw [Nat.mul_zero, List.drop_zero, List.append_nil, List.take_of_length_le hcur]
      exact (Option.some.inj hrow).symm
    | succ r => cases hrow
  | cons c rest ih =>
    rw [dumpRows] at hrow
    split at hrow
    · next hfull =>
      cases r with
      | zero =>
        rw [Nat.mul_zero, List.drop_zero, List.take_left' hfull]
        exact (Option.some.inj hrow).symm
      | succ r =>
        have hdrop : (cur ++ c :: rest).drop (16 * (r + 1)) = ([c] ++ rest).drop (16 * r) := by
          rw [Nat.mul_succ, Nat.add_comm, ← List.drop_drop, List.drop_left' hfull]
          rfl
        rw [hdrop, Nat.mul_succ, Nat.add_comm (16 * r), ← Nat.add_assoc]
        exact ih (by simp) hrow
    · next hfull =>
      have happend : cur ++ c :: rest = cur ++ [c] ++ rest := by simp
      rw [happend]
      exact ih (by rw [List.length_append, List.length_singleton]; omega) hrow

theorem dumpRows_columns (L : Locale) {off : Nat} {cur rest : List UInt8}
    (hcur : cur.length ≤ 16) : ∃ chunks : List (List UInt8),
    ((dumpRows L off cur rest).map fun row => readColumns ((row.drop 12).take 48)) =
        chunks.map some ∧ chunks.flatten = cur ++ rest := by
  induction rest generalizing off cur with
  | nil =>
    refine ⟨[cur], ?_, by simp⟩
    rw [dumpRows, List.map_singleton, List.map_singleton, dumpRow_columns L off hcur]
  | cons c rest ih =>
    rw [dumpRows]
    split
    · next hfull =>
      obtain ⟨chunks, hchunks, hflat⟩ := @ih (off + 16) [c] (by simp)
      refine ⟨cur :: chunks, ?_, ?_⟩
      · rw [List.map_cons, List.map_cons, dumpRow_columns L off hcur, hchunks]
      · rw [List.flatten_cons, hflat]
        rfl
    · next hfull =>
      obtain ⟨chunks, hchunks, hflat⟩ := @ih off (cur ++ [c])
        (by rw [List.length_append, List.length_singleton]; omega)
      exact ⟨chunks, hchunks, by rw [hflat]; simp⟩

theorem hexRecord_dumpOf (L : Locale) (timeStr : List UInt8) (pid : Int) {buf : Block}
    (hbuf : buf ≠ []) (hmax : (buf.length : Int) ≤ intMax) (junk : Block) :
    ∃ rows, DumpOf L buf rows ∧
      hexRecord L timeStr pid (some (buf ++ junk)) buf.length =
        some (hexTitle timeStr pid buf.length ++ rows.flatMap (· ++ [10])) := by
  have hpos := List.length_pos_of_ne_nil hbuf
  have hmax' : (buf.length : Int) ≤ 2147483647 := hmax
  have hcount := @dumpRows_length L 0 [] buf (Nat.zero_le _)
    (by rwa [List.length_nil, Nat.zero_add])
  rw [List.length_nil, Nat.zero_add] at hcount
  have hrow {r : Nat} {row : List UInt8} (h : (dumpRows L 0 [] buf)[r]? = some row) :
      row = dumpRow L (16 * r) ((buf.drop (16 * r)).take 16) := by
    have := dumpRows_row L (Nat.zero_le _) h
    rwa [Nat.zero_add, List.nil_append] at this
  have hmem {row : List UInt8} (h : row ∈ dumpRows L 0 [] buf) : ∃ r,
      row = dumpRow L (16 * r) ((buf.drop (16 * r)).take 16) := by
    obtain ⟨r, hr⟩ := List.mem_iff_getElem?.mp h
    exact ⟨r, hrow hr⟩
  refine ⟨dumpRows L 0 [] buf, ⟨hcount, ?_, ?_, dumpRows_columns L (Nat.zero_le _), ?_, ?_⟩,
    hexRecord_rows L timeStr pid hbuf junk⟩
  · intro row h
    obtain ⟨r, rfl⟩ := hmem h
    exact dumpRow_oneLine L _ _
  · intro r row h
    have hr : r < (dumpRows L 0 [] buf).length := (List.getElem?_eq_some_iff.mp h).1
    rw [hrow h, dumpRow_head]
    refine ⟨printHex 8 (16 * r), rfl, printHex_length _ _, isHex_printHex _ _, ?_⟩
    rw [hexNumber_printHex, Nat.mod_eq_of_lt (by omega)]
  · intro row h
    obtain ⟨r, rfl⟩ := hmem h
    rw [dumpRow_tail L _ (List.length_take_le _ _)]
    rfl
  · intro r row h
    have hdrop : row.drop 63 = (row.drop 60).drop 3 := by rw [List.drop_drop]
    rw [hdrop, hrow h, dumpRow_tail L _ (List.length_take_le _ _)]
    rfl

/-- What `lprintf` writes after the title is the dump of the buffer. -/
theorem lprintfHex_dumpOf {τ κ : Type} [DecidableEq κ] (P : Platform τ κ) (L : Locale)
    (s : Logger τ κ) (timeStr : List UInt8) (pid : Int) {buf : Block} (hbuf : buf ≠ [])
    (hmax : (buf.length : Int) ≤ intMax) (junk : Block) (o : OpenCalls) :
    ∃ rows, DumpOf L buf rows ∧
      lprintfHex P L s timeStr pid (some (buf ++ junk)) buf.length o =
        lprintf P s (hexTitle timeStr pid buf.length ++ rows.flatMap (· ++ [10])) o := by
  obtain ⟨rows, hdump, hrecord⟩ := hexRecord_dumpOf L timeStr pid hbuf hmax junk
  refine ⟨rows, hdump, ?_⟩
  rw [lprintfHex, hrecord, Option.bind_eq_bind, Option.bind_some]

/-- `isprint` without `setlocale` -/
def cLocale : Locale where
  isprint c := 32 ≤ c && c ≤ 126
  control c hc := by
    rw [decide_eq_false (UInt8.not_le.mpr hc), Bool.false_and]

/-- The bytes 27 to 46: a full row and a short one, and 32 is the first that is printable. -/
def twentyBytes : Block := (List.range 20).map fun i => 27 + UInt8.ofNat i

theorem lprintfHex_dumpOf_twenty :
    ∃ rows, DumpOf cLocale twentyBytes rows ∧ rows.length = 2 ∧
      lprintfHex weekPlatform cLocale freshLogger [] 7 (some twentyBytes) 20 goodCalls =
        lprintf weekPlatform freshLogger (hexTitle [] 7 20 ++ rows.flatMap (· ++ [10]))
          goodCalls := by
  obtain ⟨rows, hdump, hwritten⟩ := lprintfHex_dumpOf weekPlatform cLocale freshLogger [] 7
    (by decide : twentyBytes ≠ []) (by decide) [] goodCalls
  rw [List.append_nil] at hwritten
  exact ⟨rows, hdump, hdump.count, hwritten⟩

end Netepoll
