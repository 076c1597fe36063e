import Netepoll.HexDump

/-! The branch of `lprintf` for `RAW_FORMAT` (openLogFile.c): rows of 25 bytes. A row starts
with the newline that ends the one before. -/

namespace Netepoll

open CString Nibble

/-- The first line without its newline. -/
def rawTitle (timeStr : List UInt8) (pid len : Int) : List UInt8 :=
  10 :: ascii "[" ++ timeStr ++ ascii " - " ++ decimal pid ++ ascii "]: == RAW_BUF_LEN=[" ++
    decimal len ++ ascii "] =="

/-- `"\n   "` -/
def rowStart : List UInt8 := [10, 32, 32, 32]

/-- The loop for `n` bytes from `i` on. -/
def rawLoop (p : Block) : Nat → Nat → List UInt8 → Option (List UInt8)
  | 0, _, text => some text
  | n + 1, i, text => do
    let text := if i % 25 = 0 then text ++ rowStart else text
    let c ← p[i]?
    rawLoop p n (i + 1) (text ++ column c)

/-- The record. There is one for no bytes too, and nothing is read of a null pointer then. -/
def rawRecord (timeStr : List UInt8) (pid : Int) (p : Option Block) (len : Int) :
    Option (List UInt8) := do
  let text ← rawLoop (p.getD []) len.toNat 0 (rawTitle timeStr pid len)
  some (text ++ [10])

/-- `lprintf(RAW_FORMAT, p, len)` -/
def lprintfRaw {τ κ : Type} [DecidableEq κ] (P : Platform τ κ) (s : Logger τ κ)
    (timeStr : List UInt8) (pid : Int) (p : Option Block) (len : Int) (o : OpenCalls) :
    Option (Int × Logger τ κ) := do
  let record ← rawRecord timeStr pid p len
  lprintf P s record o

/-! ## Rows -/

/-- What the loop prints for bytes from number `i` on. -/
def rawBody : Nat → List UInt8 → List UInt8
  | _, [] => []
  | i, c :: cs => (if i % 25 = 0 then rowStart else []) ++ column c ++ rawBody (i + 1) cs

theorem rawLoop_eq {p junk : Block} {bytes : List UInt8} {i : Nat}
    (hp : p.drop i = bytes ++ junk) (text : List UInt8) :
    rawLoop p bytes.length i text = some (text ++ rawBody i bytes) := by
  induction bytes generalizing i text with
  | nil => rw [List.length_nil, rawLoop, rawBody, List.append_nil]
  | cons c bytes ih =>
    rw [List.length_cons, rawLoop, getElem?_of_drop hp, Option.bind_eq_bind, Option.bind_some,
      ih (drop_succ_of_drop hp), rawBody]
    split <;> simp only [List.append_assoc, List.nil_append]

theorem rawBody_append (i : Nat) (xs ys : List UInt8) :
    rawBody i (xs ++ ys) = rawBody i xs ++ rawBody (i + xs.length) ys := by
  induction xs generalizing i with
  | nil => rfl
  | cons c xs ih =>
    rw [List.cons_append, rawBody, rawBody, ih, List.length_cons, Nat.add_assoc i 1, Nat.add_comm 1]
    simp only [List.append_assoc]

/-- Behind the first byte of a row there are only columns. -/
theorem rawBody_inside {i : Nat} {bytes : List UInt8} (hi : 0 < i % 25)
    (hlen : i % 25 + bytes.length ≤ 25) : rawBody i bytes = bytes.flatMap column := by
  induction bytes generalizing i with
  | nil => rfl
  | cons c bytes ih =>
    rw [List.length_cons] at hlen
    rw [rawBody, if_neg (by omega), List.nil_append, List.flatMap_cons]
    cases bytes with
    | nil => rfl
    | cons d bytes =>
      rw [List.length_cons] at hlen
      rw [ih (by omega) (by rw [List.length_cons]; omega)]

/-- A row. -/
def rawRow (bytes : List UInt8) : List UInt8 := [32, 32, 32] ++ bytes.flatMap column

theorem rawBody_row {i : Nat} {bytes : List UInt8} (hi : i % 25 = 0) (hne : bytes ≠ [])
    (hlen : bytes.length ≤ 25) : rawBody i bytes = 10 :: rawRow bytes := by
  cases bytes with
  | nil => exact absurd rfl hne
  | cons c bytes =>
    rw [List.length_cons] at hlen
    rw [rawBody, if_pos hi, rawBody_inside (by omega) (by omega)]
    simp [rowStart, rawRow]

/-- The rows of a buffer. -/
def rawRows (buf : List UInt8) : List (List UInt8) :=
  (List.range ((buf.length + 24) / 25)).map fun r => rawRow ((buf.drop (25 * r)).take 25)

theorem rawRows_more {buf : List UInt8} (h : 25 < buf.length) :
    rawRows buf = rawRow (buf.take 25) :: rawRows (buf.drop 25) := by
  have hcount : (buf.length + 24) / 25 = ((buf.drop 25).length + 24) / 25 + 1 := by
    rw [List.length_drop]
    omega
  rw [rawRows, hcount, List.range_succ_eq_map, List.map_cons, List.map_map, Nat.mul_zero,
    List.drop_zero]
  refine congrArg _ (List.map_congr_left fun r _ => ?_)
  rw [Function.comp_apply, List.drop_drop, Nat.mul_succ, Nat.add_comm]

theorem rawBody_rows {i : Nat} (hi : i % 25 = 0) (buf : List UInt8) :
    rawBody i buf = (rawRows buf).flatMap (10 :: ·) := by
  induction hn : buf.length using Nat.strong_induction_on generalizing i buf with
  | _ n ih =>
    rcases Nat.lt_or_ge 25 buf.length with hmore | hlast
    · have hsplit := rawBody_append i (buf.take 25) (buf.drop 25)
      have hlen : (buf.take 25).length = 25 := by
        rw [List.length_take, Nat.min_eq_left (by omega)]
      have hne : buf.take 25 ≠ [] := List.ne_nil_of_length_pos (by omega)
      rw [List.take_append_drop, rawBody_row hi hne (by omega), hlen] at hsplit
      rw [hsplit, rawRows_more hmore, List.flatMap_cons,
        ih (buf.drop 25).length (by rw [List.length_drop]; omega) (by omega) _ rfl]
    · cases buf with
      | nil => rfl
      | cons c buf =>
        have hone : ((c :: buf).length + 24) / 25 = 1 := by
          rw [List.length_cons] at hlast ⊢
          omega
        rw [rawBody_row hi (List.cons_ne_nil c buf) hlast, rawRows, hone, List.range_one,
          List.map_singleton, Nat.mul_zero, List.drop_zero, List.take_of_length_le hlast,
          List.flatMap_singleton]

theorem rawRecord_rows (timeStr : List UInt8) (pid : Int) (buf junk : Block) :
    rawRecord timeStr pid (some (buf ++ junk)) buf.length =
      some (rawTitle timeStr pid buf.length ++ (rawRows buf).flatMap (10 :: ·) ++ [10]) := by
  have hdrop : (buf ++ junk).drop 0 = buf ++ junk := List.drop_zero
  rw [rawRecord, Int.toNat_natCast, Option.getD_some, rawLoop_eq hdrop, rawBody_rows rfl]
  rfl

/-! ## What the rows show -/

/-- One row for each 25 bytes of `buf`: three blanks, and columns that read back as these
bytes. -/
structure RawDumpOf (buf : List UInt8) (rows : List (List UInt8)) : Prop where
  count : rows.length = (buf.length + 24) / 25
  oneLine : ∀ row ∈ rows, 10 ∉ row
  blanks : ∀ row ∈ rows, row.take 3 = [32, 32, 32]
  columns : ∀ r row, rows[r]? = some row →
    readColumns (row.drop 3) = some ((buf.drop (25 * r)).take 25)

/-- A byte stands in row `i / 25`, as number `i % 25`. -/
theorem getElem?_row (buf : List UInt8) (i : Nat) :
    buf[i]? = ((buf.drop (25 * (i / 25))).take 25)[i % 25]? := by
  rw [List.getElem?_take_of_lt (Nat.mod_lt i (by decide)), List.getElem?_drop, Nat.div_add_mod]

/-- No two buffers have the same rows. -/
theorem RawDumpOf.unique {buf buf' : List UInt8} {rows : List (List UInt8)}
    (h : RawDumpOf buf rows) (h' : RawDumpOf buf' rows) : buf = buf' := by
  have hcount := h.count
  have hcount' := h'.count
  refine List.ext_getElem? fun i => ?_
  rcases Nat.lt_or_ge (i / 25) rows.length with hrow | hend
  · have hread := h.columns (i / 25) _ (List.getElem?_eq_getElem hrow)
    have hread' := h'.columns (i / 25) _ (List.getElem?_eq_getElem hrow)
    rw [getElem?_row buf, getElem?_row buf', Option.some.inj (hread.symm.trans hread')]
  · rw [List.getElem?_eq_none (by omega), List.getElem?_eq_none (by omega)]

theorem rawRow_oneLine (bytes : List UInt8) : 10 ∉ rawRow bytes := by
  intro hm
  rcases List.mem_append.mp hm with hm | hm
  · exact absurd hm (by decide)
  · obtain ⟨c, -, hc⟩ := List.mem_flatMap.mp hm
    simp only [column, List.mem_cons, List.not_mem_nil, or_false] at hc
    rcases hc with hc | hc | hc
    · exact not_isHex_newline (hc ▸ isHex_hexChar (high_lt c))
    · exact not_isHex_newline (hc ▸ isHex_hexChar (low_lt c))
    · cases hc

theorem rawRows_dumpOf (buf : List UInt8) : RawDumpOf buf (rawRows buf) where
  count := by rw [rawRows, List.length_map, List.length_range]
  oneLine row h := by
    obtain ⟨r, -, rfl⟩ := List.mem_map.mp h
    exact rawRow_oneLine _
  blanks row h := by
    obtain ⟨r, -, rfl⟩ := List.mem_map.mp h
    rfl
  columns r row h := by
    rw [rawRows, List.getElem?_map, Option.map_eq_some_iff] at h
    obtain ⟨k, hk, rfl⟩ := h
    obtain ⟨hlt, hr⟩ := List.getElem?_eq_some_iff.mp hk
    rw [List.getElem_range] at hr
    have hread := readColumns_columns ((buf.drop (25 * r)).take 25) 0
    rw [Nat.mul_zero, List.replicate_zero, List.append_nil] at hread
    rw [← hr]
    exact hread

/-- What `lprintf` writes for a buffer after the title is the dump of the buffer, which is that
of no other one. For a length that is not positive the record has no row, and the pointer does
not matter; a null pointer with a positive length is read. -/
theorem lprintfRaw_dumpOf {τ κ : Type} [DecidableEq κ] (P : Platform τ κ) (s : Logger τ κ)
    (timeStr : List UInt8) (pid : Int) (o : OpenCalls) :
    (∀ buf junk : Block, (buf.length : Int) ≤ intMax → ∃ rows, RawDumpOf buf rows ∧
      (∀ buf', RawDumpOf buf' rows → buf' = buf) ∧
      lprintfRaw P s timeStr pid (some (buf ++ junk)) buf.length o =
        lprintf P s (rawTitle timeStr pid buf.length ++ rows.flatMap (10 :: ·) ++ [10]) o) ∧
    (∀ p len, len ≤ 0 → lprintfRaw P s timeStr pid p len o =
      lprintf P s (rawTitle timeStr pid len ++ [10]) o) ∧
    ∀ len, 0 < len → lprintfRaw P s timeStr pid none len o = none := by
  refine ⟨fun buf junk _ => ?_, fun p len hlen => ?_, fun len hlen => ?_⟩
  · refine ⟨rawRows buf, rawRows_dumpOf buf, fun buf' h => h.unique (rawRows_dumpOf buf), ?_⟩
    rw [lprintfRaw, rawRecord_rows, Option.bind_eq_bind, Option.bind_some]
  · rw [lprintfRaw, rawRecord, Int.toNat_of_nonpos hlen]
    rfl
  · obtain ⟨n, hn⟩ : ∃ n, len.toNat = n + 1 := ⟨len.toNat - 1, by omega⟩
    rw [lprintfRaw, rawRecord, hn]
    rfl

end Netepoll
