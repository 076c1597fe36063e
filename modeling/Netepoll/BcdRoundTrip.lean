import Netepoll.Bcd

/-! The BCD codecs as pairs of functions that undo each other: `bcdToAsc` after `ascToBcd`
and after `ascToBcdLeft`, `bcd_to_asc` after `asc_to_bcd`, and the encoders after the
decoders. -/

namespace Netepoll

open CString Nibble

/-! ## `bcdToAsc` and its encoders -/

/-- `bcdToAsc(encode(s, n), n)` for all `n` characters of `s`, with arrays to store to. -/
def throughBcd (encode : Malloc → Block → Block → Nat → Option (Int × Block))
    (malloc malloc' : Malloc) (bcdStr ascStr s : Block) : Option Block := do
  let r ← encode malloc bcdStr s s.length
  let r' ← bcdToAsc malloc' ascStr r.2 s.length
  some r'.2

/-- `encode(bcdToAsc(b, 2m), 2m)` for all `m` bytes of `b`, with arrays to store to. -/
def throughAsc (encode : Malloc → Block → Block → Nat → Option (Int × Block))
    (malloc malloc' : Malloc) (ascStr bcdStr b : Block) : Option Block := do
  let r ← bcdToAsc malloc ascStr b (2 * b.length)
  let r' ← encode malloc' bcdStr r.2 (2 * b.length)
  some r'.2

/-- A length whose sum with 2 is too great for an `int` has no result. -/
theorem bcdToAsc_overflow {malloc : Malloc} {ascStr bcdStr : Block} {n : Nat}
    (h : ¬ (n : Int) + 2 ≤ intMax) : bcdToAsc malloc ascStr bcdStr n = none := by
  rw [bcdToAsc, if_pos (by omega)]

theorem throughBcd_overflow {encode : Malloc → Block → Block → Nat → Option (Int × Block)}
    {malloc malloc' : Malloc} {bcdStr ascStr s : Block} (h : ¬ (s.length : Int) + 2 ≤ intMax) :
    throughBcd encode malloc malloc' bcdStr ascStr s = none := by
  unfold throughBcd
  cases encode malloc bcdStr s s.length with
  | none => rfl
  | some r =>
    simp only [Option.bind_eq_bind, Option.bind_some]
    rw [bcdToAsc_overflow h, Option.bind_none]

/-- What comes back for an encoder that stores the digits `ds`. -/
theorem throughBcd_eq {encode : Malloc → Block → Block → Nat → Option (Int × Block)}
    {malloc malloc' : Malloc} (hm' : malloc'.Succeeds) {bcdStr ascStr s : Block}
    {ds : List UInt8} (henc : encode malloc bcdStr s s.length = some (0, splice bcdStr 0 (pack ds)))
    (hlen : (pack ds).length = (s.length + 1) / 2) (hint : (s.length : Int) + 2 ≤ intMax)
    (hasc : s.length + 1 ≤ ascStr.length) :
    throughBcd encode malloc malloc' bcdStr ascStr s =
      some (splice ascStr 0 ((dropPad s.length (unpack (pack ds))).map hexChar ++ [0])) := by
  unfold throughBcd
  rw [henc, Option.bind_eq_bind, Option.bind_some, splice_zero,
    bcdToAsc_eq hm' hlen hint _ hasc]
  rfl

theorem throughBcd_ascToBcd {malloc malloc' : Malloc} (hm : malloc.Succeeds)
    (hm' : malloc'.Succeeds) {bcdStr ascStr s : Block} (hs : ∀ c ∈ s, IsHex c)
    (hbcd : (s.length + 1) / 2 ≤ bcdStr.length) (hasc : s.length + 1 ≤ ascStr.length)
    (hint : (s.length : Int) + 2 ≤ intMax) :
    throughBcd ascToBcd malloc malloc' bcdStr ascStr s =
      some (splice ascStr 0 (s.map upper ++ [0])) := by
  have henc := ascToBcd_eq (hm _) hs (by omega) [] hbcd
  rw [List.append_nil] at henc
  have hlen : (pack (padLeft (s.map hexVal))).length = (s.length + 1) / 2 := by
    rw [pack_padLeft_length, List.length_map]
  have hdrop := dropPad_padLeft (s.map hexVal)
  rw [List.length_map] at hdrop
  rw [throughBcd_eq hm' henc hlen hint hasc, unpack_pack_padLeft (map_hexVal_lt hs), hdrop,
    map_hexChar_hexVal hs]

theorem throughAsc_ascToBcd {malloc malloc' : Malloc} (hm : malloc.Succeeds)
    (hm' : malloc'.Succeeds) {ascStr bcdStr b : Block} (hasc : 2 * b.length + 1 ≤ ascStr.length)
    (hbcd : b.length ≤ bcdStr.length) (hint : (2 * b.length : Int) + 2 ≤ intMax) :
    throughAsc ascToBcd malloc malloc' ascStr bcdStr b = some (splice bcdStr 0 b) := by
  have hlen : b.length = (2 * b.length + 1) / 2 := by omega
  have hdec := bcdToAsc_eq hm hlen (by omega) [] hasc
  have hdigits : dropPad (2 * b.length) (unpack b) = unpack b := by
    rw [dropPad_even (by omega), ← unpack_length, List.take_length]
  have hchars : ((unpack b).map hexChar).length = 2 * b.length := by
    rw [List.length_map, unpack_length]
  have hbcd' : (((unpack b).map hexChar).length + 1) / 2 ≤ bcdStr.length := by omega
  have henc := ascToBcd_eq (hm' _) (map_isHex_hexChar (unpack_lt b)) (by omega)
    ([0] ++ ascStr.drop ((unpack b).map hexChar ++ [0]).length) hbcd'
  rw [List.append_nil, hdigits, splice_zero, List.append_assoc] at hdec
  rw [hchars, map_hexVal_hexChar (unpack_lt b), padLeft, if_neg (by rw [unpack_length]; omega),
    pack_unpack] at henc
  unfold throughAsc
  rw [hdec, Option.bind_eq_bind, Option.bind_some, henc]
  rfl

/-- The codec with the padding zero on the left undoes itself, both ways, as long as the
sums with the length fit an `int`. -/
theorem ascToBcd_bcdToAsc_iff {malloc malloc' : Malloc} (hm : malloc.Succeeds)
    (hm' : malloc'.Succeeds) :
    (∀ s bcdStr ascStr : Block, (∀ c ∈ s, IsHex c) → (s.length + 1) / 2 ≤ bcdStr.length →
      s.length + 1 ≤ ascStr.length →
      (throughBcd ascToBcd malloc malloc' bcdStr ascStr s =
        some (splice ascStr 0 (s.map upper ++ [0])) ↔ (s.length : Int) + 2 ≤ intMax)) ∧
    (∀ b ascStr bcdStr : Block, 2 * b.length + 1 ≤ ascStr.length → b.length ≤ bcdStr.length →
      (throughAsc ascToBcd malloc malloc' ascStr bcdStr b = some (splice bcdStr 0 b) ↔
        (2 * b.length : Int) + 2 ≤ intMax)) := by
  refine ⟨fun s bcdStr ascStr hs hbcd hasc => ⟨fun h => ?_, fun hint => ?_⟩,
    fun b ascStr bcdStr hasc hbcd => ⟨fun h => ?_, fun hint => ?_⟩⟩
  · by_contra hint
    rw [throughBcd_overflow hint] at h
    cases h
  · exact throughBcd_ascToBcd hm hm' hs hbcd hasc hint
  · by_contra hint
    rw [throughAsc, bcdToAsc_overflow (by omega)] at h
    cases h
  · exact throughAsc_ascToBcd hm hm' hasc hbcd hint

/-- A `malloc` that hands out arrays of zeros. -/
def zeroMalloc : Malloc := fun n => some (zeros n)

theorem zeroMalloc_succeeds : zeroMalloc.Succeeds := fun n => ⟨zeros n, rfl, zeros_length n⟩

/-- `1af` and the bytes `0x1a 0xf0`. -/
theorem ascToBcd_bcdToAsc_iff_1af :
    (throughBcd ascToBcd zeroMalloc zeroMalloc [0, 0] [0, 0, 0, 0] [49, 97, 102] =
      some [49, 65, 70, 0] ↔ (3 : Int) + 2 ≤ intMax) ∧
    (throughAsc ascToBcd zeroMalloc zeroMalloc [0, 0, 0, 0, 0] [0, 0] [26, 240] =
      some [26, 240] ↔ (2 * 2 : Int) + 2 ≤ intMax) := by
  obtain ⟨hs, hb⟩ := ascToBcd_bcdToAsc_iff zeroMalloc_succeeds zeroMalloc_succeeds
  exact ⟨hs [49, 97, 102] [0, 0] [0, 0, 0, 0] (isHex_of_all rfl) (by decide) (by decide),
    hb [26, 240] [0, 0, 0, 0, 0] [0, 0] (by decide) (by decide)⟩

/-- A string of as many digits `1` as an `int` can count. -/
theorem exists_long_hex : ∃ s : Block, s.length = 2147483647 ∧ ∀ c ∈ s, IsHex c := by
  refine ⟨List.replicate 2147483647 49, List.length_replicate, fun c hc => ?_⟩
  rw [List.eq_of_mem_replicate hc]
  decide

/-- A string of 2147483647 digits: `AscLen + 1` overflows. -/
theorem not_ascToBcd_bcdToAsc :
    ¬ ∀ malloc malloc' : Malloc, malloc.Succeeds → malloc'.Succeeds →
      (∀ s bcdStr ascStr : Block, (∀ c ∈ s, IsHex c) → (s.length + 1) / 2 ≤ bcdStr.length →
        s.length + 1 ≤ ascStr.length → throughBcd ascToBcd malloc malloc' bcdStr ascStr s =
          some (splice ascStr 0 (s.map upper ++ [0]))) ∧
      (∀ b ascStr bcdStr : Block, 2 * b.length + 1 ≤ ascStr.length →
        b.length ≤ bcdStr.length → throughAsc ascToBcd malloc malloc' ascStr bcdStr b =
          some (splice bcdStr 0 b)) := by
  intro hall
  obtain ⟨s, hlen, hs⟩ := exists_long_hex
  have h := (hall zeroMalloc zeroMalloc zeroMalloc_succeeds zeroMalloc_succeeds).1 s
    (zeros s.length) (zeros (s.length + 1)) hs (by rw [zeros_length]; omega)
    (by rw [zeros_length])
  rw [throughBcd_overflow (by rw [hlen]; decide)] at h
  cases h

/-! ## The padding zero on the right -/

theorem throughBcd_ascToBcdLeft {malloc malloc' : Malloc} (hm : malloc.Succeeds)
    (hm' : malloc'.Succeeds) {bcdStr ascStr s : Block} (hs : ∀ c ∈ s, IsHex c)
    (hbcd : (s.length + 1) / 2 ≤ bcdStr.length) (hasc : s.length + 1 ≤ ascStr.length)
    (hint : (s.length : Int) + 2 ≤ intMax) :
    throughBcd ascToBcdLeft malloc malloc' bcdStr ascStr s =
      some (splice ascStr 0 ((if s.length % 2 = 1 ∧ s.head? = some 48 then s.drop 1 ++ [48]
        else s).map upper ++ [0])) := by
  have henc := ascToBcdLeft_eq (hm _) hs (by omega) [] hbcd
  rw [List.append_nil] at henc
  have hlen : (pack (s.map hexVal)).length = (s.length + 1) / 2 := by
    rw [pack_length, List.length_map]
  have hdrop := dropPad_pack (map_hexVal_lt hs)
  simp only [List.length_map, head?_map_hexVal] at hdrop
  rw [throughBcd_eq hm' henc hlen hint hasc, hdrop]
  by_cases hpad : s.length % 2 = 1 ∧ s.head? = some 48
  · have hs1 : ∀ c ∈ s.drop 1, IsHex c := fun c hc => hs c (List.mem_of_mem_drop hc)
    rw [if_pos hpad, if_pos hpad, List.map_append, ← List.map_drop, map_hexChar_hexVal hs1,
      List.map_append]
    rfl
  · rw [if_neg hpad, if_neg hpad, map_hexChar_hexVal hs]

/-- `bcdToAsc` undoes the encoder with the padding zero on the right if and only if there is
no padding, or the first digit is not taken for padding, or all digits are zero. -/
theorem ascToBcdLeft_bcdToAsc_iff {malloc malloc' : Malloc} (hm : malloc.Succeeds)
    (hm' : malloc'.Succeeds) (s bcdStr ascStr : Block) (hs : ∀ c ∈ s, IsHex c)
    (hbcd : (s.length + 1) / 2 ≤ bcdStr.length) (hasc : s.length + 1 ≤ ascStr.length) :
    throughBcd ascToBcdLeft malloc malloc' bcdStr ascStr s =
        some (splice ascStr 0 (s.map upper ++ [0])) ↔
      (s.length : Int) + 2 ≤ intMax ∧
        (s.length % 2 = 0 ∨ s.head? ≠ some 48 ∨ ∀ c ∈ s, c = 48) := by
  by_cases hint : (s.length : Int) + 2 ≤ intMax
  · rw [throughBcd_ascToBcdLeft hm hm' hs hbcd hasc hint, Option.some_inj]
    by_cases hpad : s.length % 2 = 1 ∧ s.head? = some 48
    · -- the first digit is lost and the padding comes out at the end
      have hupper : (s.map upper).head? = some 48 := by
        rw [List.head?_map, hpad.2]
        rfl
      have hlen : ((s.drop 1 ++ [48]).map upper ++ [0]).length = (s.map upper ++ [0]).length := by
        simp only [List.length_append, List.length_map, List.length_drop, List.length_singleton]
        omega
      have hzeros : (∀ x ∈ s.map upper, x = 48) ↔ ∀ c ∈ s, c = 48 := by
        rw [List.forall_mem_map]
        simp only [upper_eq_zero_iff]
      have hmap : (s.drop 1 ++ [48]).map upper = (s.map upper).drop 1 ++ [48] := by
        rw [List.map_append, List.map_drop]
        rfl
      rw [if_pos hpad, splice_zero_inj hlen, List.append_left_inj, hmap, rotate_eq_iff hupper,
        hzeros]
      refine ⟨fun h => ⟨hint, .inr (.inr h)⟩, ?_⟩
      rintro ⟨-, heven | hhead | h⟩
      · omega
      · exact absurd hpad.2 hhead
      · exact h
    · rw [if_neg hpad]
      refine ⟨fun _ => ⟨hint, ?_⟩, fun _ => rfl⟩
      rcases Nat.mod_two_eq_zero_or_one s.length with heven | hodd
      · exact .inl heven
      · exact .inr (.inl fun h => hpad ⟨hodd, h⟩)
  · rw [throughBcd_overflow hint]
    exact ⟨fun h => absurd h (by simp), fun h => absurd h.1 hint⟩

/-- The digits `12f`, which do not start with a zero. -/
theorem ascToBcdLeft_bcdToAsc_iff_12f :
    throughBcd ascToBcdLeft zeroMalloc zeroMalloc [0, 0] [0, 0, 0, 0] [49, 50, 102] =
        some [49, 50, 70, 0] ↔
      (3 : Int) + 2 ≤ intMax ∧
        (3 % 2 = 0 ∨ [49, 50, 102].head? ≠ some (48 : UInt8) ∨
          ∀ c ∈ [49, 50, 102], c = (48 : UInt8)) :=
  ascToBcdLeft_bcdToAsc_iff zeroMalloc_succeeds zeroMalloc_succeeds [49, 50, 102] [0, 0]
    [0, 0, 0, 0] (isHex_of_all rfl) (by decide) (by decide)

/-- The digits `012` come back as `120`. -/
theorem not_ascToBcdLeft_bcdToAsc :
    ¬ ∀ malloc malloc' : Malloc, malloc.Succeeds → malloc'.Succeeds →
      ∀ s bcdStr ascStr : Block, (∀ c ∈ s, IsHex c) → (s.length + 1) / 2 ≤ bcdStr.length →
        s.length + 1 ≤ ascStr.length → throughBcd ascToBcdLeft malloc malloc' bcdStr ascStr s =
          some (splice ascStr 0 (s.map upper ++ [0])) := by
  intro hall
  have h := hall zeroMalloc zeroMalloc zeroMalloc_succeeds zeroMalloc_succeeds [48, 49, 50]
    [0, 0] [0, 0, 0, 0] (isHex_of_all rfl) (by decide) (by decide)
  have hrun : throughBcd ascToBcdLeft zeroMalloc zeroMalloc [0, 0] [0, 0, 0, 0] [48, 49, 50] =
      some [49, 50, 48, 0] := by decide
  rw [hrun] at h
  revert h
  decide

/-! ## `bcd_to_asc` and `asc_to_bcd` -/

/-- The digits after the packing that `asc_to_bcd` chooses by `type`. -/
theorem take_unpack_aligned {ds : List UInt8} (hds : ∀ d ∈ ds, d < 16) {n : Nat}
    (hn : ds.length = n) (type : UInt8) :
    (if n % 2 = 1 ∧ type ≠ 0
      then (unpack (pack (if type = 0 then ds else padLeft ds))).drop 1
      else unpack (pack (if type = 0 then ds else padLeft ds))).take n = ds := by
  subst hn
  by_cases htype : type = 0
  · rw [if_neg fun h => h.2 htype, if_pos htype, take_unpack_pack hds]
  · rw [if_neg htype, unpack_pack_padLeft hds, padLeft]
    rcases Nat.mod_two_eq_zero_or_one ds.length with heven | hodd
    · rw [if_neg (by omega), if_neg (by omega), List.take_length]
    · rw [if_pos ⟨hodd, htype⟩, if_pos hodd, List.drop_succ_cons, List.drop_zero,
        List.take_length]

theorem bcd_to_asc_asc_to_bcd {s : Block} (hs : ∀ c ∈ s, IsHex c) {type : UInt8}
    (hint : s.length % 2 = 1 ∧ type ≠ 0 → (s.length : Int) < intMax) :
    ∃ bs : Block, bs.length = (s.length + 1) / 2 ∧
      (∀ bcd_buf : Block, (s.length + 1) / 2 ≤ bcd_buf.length →
        asc_to_bcd bcd_buf s s.length type = some (splice bcd_buf 0 bs)) ∧
      ∀ ascii_buf : Block, s.length ≤ ascii_buf.length →
        bcd_to_asc ascii_buf bs s.length type = some (splice ascii_buf 0 (s.map upper)) := by
  have hds : ∀ d ∈ s.map hexVal, d < 16 := map_hexVal_lt hs
  have hlen : (pack (if type = 0 then s.map hexVal else padLeft (s.map hexVal))).length =
      (s.length + 1) / 2 := by
    split
    · rw [pack_length, List.length_map]
    · rw [pack_padLeft_length, List.length_map]
  refine ⟨pack (if type = 0 then s.map hexVal else padLeft (s.map hexVal)), hlen,
    fun bcd_buf hbcd => ?_, fun ascii_buf hasc => ?_⟩
  · have henc := asc_to_bcd_eq hs [] type hbcd
    rwa [List.append_nil] at henc
  · have hdec := bcd_to_asc_eq hlen hint [] hasc
    rwa [List.append_nil, take_unpack_aligned hds (List.length_map _), map_hexChar_hexVal hs]
      at hdec

theorem asc_to_bcd_bcd_to_asc (type : UInt8) {b ascii_buf bcd_buf : Block}
    (hasc : 2 * b.length ≤ ascii_buf.length) (hbcd : b.length ≤ bcd_buf.length) :
    (do
      let ascii_buf ← bcd_to_asc ascii_buf b (2 * b.length) type
      asc_to_bcd bcd_buf ascii_buf (2 * b.length) type) = some (splice bcd_buf 0 b) := by
  have hlen : b.length = (2 * b.length + 1) / 2 := by omega
  have hchars : ((unpack b).map hexChar).length = 2 * b.length := by
    rw [List.length_map, unpack_length]
  have hbcd' : (((unpack b).map hexChar).length + 1) / 2 ≤ bcd_buf.length := by omega
  have heven : (2 * b.length) % 2 = 1 ∧ type ≠ 0 → ((2 * b.length : Nat) : Int) < intMax :=
    fun h => by omega
  have hdec := bcd_to_asc_eq hlen heven [] hasc
  have henc := asc_to_bcd_eq (map_isHex_hexChar (unpack_lt b))
    (ascii_buf.drop ((unpack b).map hexChar).length) type hbcd'
  have hpad : padLeft (unpack b) = unpack b := by
    rw [padLeft, if_neg (by rw [unpack_length]; omega)]
  rw [List.append_nil, if_neg (by omega), ← unpack_length, List.take_length,
    splice_zero, unpack_length] at hdec
  rw [hchars, map_hexVal_hexChar (unpack_lt b), hpad, ite_self, pack_unpack, ← hchars] at henc
  rw [hdec, Option.bind_eq_bind, Option.bind_some, ← hchars, henc]

/-- `bcd_to_asc` undoes `asc_to_bcd` with the same alignment, except for the one length
whose successor is no `int`, and `asc_to_bcd` undoes `bcd_to_asc`. -/
theorem asc_to_bcd_bcd_to_asc_iff (type : UInt8) :
    (∀ s : Block, (∀ c ∈ s, IsHex c) →
      ((∃ bs : Block, bs.length = (s.length + 1) / 2 ∧
        (∀ bcd_buf : Block, (s.length + 1) / 2 ≤ bcd_buf.length →
          asc_to_bcd bcd_buf s s.length type = some (splice bcd_buf 0 bs)) ∧
        ∀ ascii_buf : Block, s.length ≤ ascii_buf.length →
          bcd_to_asc ascii_buf bs s.length type = some (splice ascii_buf 0 (s.map upper))) ↔
      (s.length % 2 = 1 ∧ type ≠ 0 → (s.length : Int) < intMax))) ∧
    (∀ b ascii_buf bcd_buf : Block, 2 * b.length ≤ ascii_buf.length →
      b.length ≤ bcd_buf.length →
      (do
        let ascii_buf ← bcd_to_asc ascii_buf b (2 * b.length) type
        asc_to_bcd bcd_buf ascii_buf (2 * b.length) type) = some (splice bcd_buf 0 b)) := by
  refine ⟨fun s hs => ⟨?_, bcd_to_asc_asc_to_bcd hs⟩,
    fun b ascii_buf bcd_buf hasc hbcd => asc_to_bcd_bcd_to_asc type hasc hbcd⟩
  rintro ⟨bs, -, -, hdec⟩ hpad
  by_contra hint
  have h := hdec (zeros s.length) (by rw [zeros_length])
  rw [bcd_to_asc, if_pos hpad, if_pos (by omega)] at h
  cases h

/-- The digits `012` aligned to the left, and the bytes `0x01 0x2f`. -/
theorem asc_to_bcd_bcd_to_asc_iff_012 :
    ((∃ bs : Block, bs.length = 2 ∧
        (∀ bcd_buf : Block, 2 ≤ bcd_buf.length →
          asc_to_bcd bcd_buf [48, 49, 50] 3 0 = some (splice bcd_buf 0 bs)) ∧
        ∀ ascii_buf : Block, 3 ≤ ascii_buf.length →
          bcd_to_asc ascii_buf bs 3 0 = some (splice ascii_buf 0 [48, 49, 50])) ↔
      (3 % 2 = 1 ∧ (0 : UInt8) ≠ 0 → (3 : Int) < intMax)) ∧
    (do
      let ascii_buf ← bcd_to_asc [0, 0, 0, 0] [1, 47] 4 0
      asc_to_bcd [0, 0] ascii_buf 4 0) = some [1, 47] := by
  obtain ⟨hs, hb⟩ := asc_to_bcd_bcd_to_asc_iff 0
  exact ⟨hs [48, 49, 50] (isHex_of_all rfl), hb [1, 47] [0, 0, 0, 0] [0, 0] (by decide) (by decide)⟩

/-- A string of 2147483647 digits aligned to the right: `conv_len ++` overflows. -/
theorem not_asc_to_bcd_bcd_to_asc :
    ¬ ∀ type : UInt8,
      (∀ s : Block, (∀ c ∈ s, IsHex c) → ∃ bs : Block, bs.length = (s.length + 1) / 2 ∧
        (∀ bcd_buf : Block, (s.length + 1) / 2 ≤ bcd_buf.length →
          asc_to_bcd bcd_buf s s.length type = some (splice bcd_buf 0 bs)) ∧
        ∀ ascii_buf : Block, s.length ≤ ascii_buf.length →
          bcd_to_asc ascii_buf bs s.length type = some (splice ascii_buf 0 (s.map upper))) ∧
      (∀ b ascii_buf bcd_buf : Block, 2 * b.length ≤ ascii_buf.length →
        b.length ≤ bcd_buf.length →
        (do
          let ascii_buf ← bcd_to_asc ascii_buf b (2 * b.length) type
          asc_to_bcd bcd_buf ascii_buf (2 * b.length) type) = some (splice bcd_buf 0 b)) := by
  intro hall
  obtain ⟨s, hlen, hs⟩ := exists_long_hex
  obtain ⟨bs, -, -, hdec⟩ := (hall 1).1 s hs
  have h := hdec (zeros s.length) (by rw [zeros_length])
  rw [bcd_to_asc, hlen, if_pos ⟨by decide, by decide⟩, if_pos (by decide)] at h
  cases h

end Netepoll
