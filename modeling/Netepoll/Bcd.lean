import Netepoll.Lib.CString
import Netepoll.Lib.Nibble

/-! The BCD codecs of lib_s/base/tool.c on arrays of bytes. Lengths are natural numbers
that fit an `int`; a sum of them that does not has no result. `malloc` is a parameter: an
array of the size asked for, with any contents, or a null pointer. -/

namespace Netepoll

open CString Nibble

abbrev Malloc := Nat → Option Block

/-! ## `ascToBcd`, `ascToBcdLeft` and `bcdToAsc` -/

/-- A `char` as an `int`. -/
def charToInt (c : UInt8) : Int := c.toInt8.toInt

/-- What `toBcd` makes of one character. -/
def toBcdDigit (i : Int) : Int :=
  if 48 ≤ i ∧ i ≤ 57 then i - 48
  else if 97 ≤ i ∧ i ≤ 102 then i - 97 + 10
  else if 65 ≤ i ∧ i ≤ 70 then i - 65 + 10
  else i

def toBcd (buf : Block) : Option Int := do
  let i ← buf[0]?
  let j := toBcdDigit (charToInt i) * 16
  let i ← buf[1]?
  some (j + toBcdDigit (charToInt i))

/-- `Bcdstr[i] = (unsigned char)toBcd(tmp+2*i)` for `k` values from `i` on. -/
def toBcdLoop (tmp : Block) : Nat → Nat → Block → Option Block
  | 0, _, bcdStr => some bcdStr
  | k + 1, i, bcdStr => do
    let c ← toBcd (tmp.drop (2 * i))
    let bcdStr ← poke bcdStr i (UInt8.ofInt c)
    toBcdLoop tmp k (i + 1) bcdStr

/-- The body of `ascToBcd` and `ascToBcdLeft`, with the place in `tmp` for the digits. -/
def ascToBcdAt (place : Nat → Nat → Nat) (malloc : Malloc) (bcdStr ascStr : Block)
    (ascLen : Nat) : Option (Int × Block) :=
  -- `AscLen + 1` is an `int`
  if intMax < ascLen + 1 then none
  else
    let t := (ascLen + 1) / 2 * 2
    match malloc (t + 1) with
    | none => some (0, bcdStr)
    | some tmp => do
      let tmp ← memset tmp 48 t
      let tmp ← memcpy tmp (place t ascLen) ascStr ascLen
      let bcdStr ← toBcdLoop tmp ((ascLen + 1) / 2) 0 bcdStr
      some (0, bcdStr)

def ascToBcd : Malloc → Block → Block → Nat → Option (Int × Block) :=
  ascToBcdAt fun t ascLen => t - ascLen

def ascToBcdLeft : Malloc → Block → Block → Nat → Option (Int × Block) :=
  ascToBcdAt fun _ _ => 0

/-- `sprintf(tmp + 2*i, "%02X", BcdStr[i])` for `k` values from `i` on. -/
def printLoop (bcdStr : Block) : Nat → Nat → Block → Option Block
  | 0, _, tmp => some tmp
  | k + 1, i, tmp => do
    let c ← bcdStr[i]?
    let tmp ← memcpy tmp (2 * i) [hexChar (high c), hexChar (low c), 0] 3
    printLoop bcdStr k (i + 1) tmp

/-- The index in `tmp` of the first digit that is kept. -/
def firstDigit (tmp : Block) (strLen : Nat) : Option Nat :=
  if strLen % 2 = 1 then tmp[0]?.map fun c => if c = 48 then 1 else 0 else some 0

def bcdToAsc (malloc : Malloc) (ascStr bcdStr : Block) (strLen : Nat) :
    Option (Int × Block) :=
  -- `StrLen + 2` is an `int`
  if intMax < strLen + 2 then none
  else
    match malloc (strLen + 2) with
    | none => some (0, ascStr)
    | some tmp => do
      let tmp ← printLoop bcdStr ((strLen + 1) / 2) 0 tmp
      let i ← firstDigit tmp strLen
      let ascStr ← memcpy ascStr 0 (tmp.drop i) strLen
      let ascStr ← poke ascStr strLen 0
      some (0, ascStr)

/-- `malloc(n)` returns an array. -/
def Malloc.Gives (malloc : Malloc) (n : Nat) : Prop := ∃ tmp, malloc n = some tmp ∧ tmp.length = n

/-- `malloc` never returns a null pointer. -/
def Malloc.Succeeds (malloc : Malloc) : Prop := ∀ n, ∃ tmp, malloc n = some tmp ∧ tmp.length = n

theorem charToInt_of_lt {c : UInt8} (hc : c < 128) : charToInt c = c.toNat := by
  have hlt : 2 * c.toNat < 256 := by
    have : c.toNat < 128 := hc
    omega
  rw [charToInt, Int8.toInt, UInt8.toBitVec_toInt8, BitVec.toInt_eq_toNat_of_lt hlt]
  rfl

theorem toBcdDigit_hex {c : UInt8} (hc : IsHex c) :
    toBcdDigit (charToInt c) = (hexVal c).toNat := by
  have hlt : c < 128 := by
    unfold IsHex at hc
    grind
  unfold IsHex at hc
  rw [charToInt_of_lt hlt]
  unfold toBcdDigit hexVal
  simp only [UInt8.le_iff_toNat_le, UInt8.reduceToNat] at hc ⊢
  split_ifs
  all_goals
    simp only [UInt8.toNat_add, UInt8.toNat_sub, UInt8.reduceToNat]
    omega

theorem ofInt_toNat (c : UInt8) : UInt8.ofInt (c.toNat : Int) = c := by
  have hc : (c.toNat : Int) % 2 ^ 8 = c.toNat := by
    have := c.toNat_lt
    exact Int.emod_eq_of_lt (by omega) (by omega)
  rw [UInt8.ofInt, hc, Int.toNat_natCast, UInt8.ofNat_toNat]

/-- Two digits make a byte. -/
theorem toBcd_hex {a b : UInt8} (ha : IsHex a) (hb : IsHex b) (junk : Block) :
    (toBcd (a :: b :: junk)).map UInt8.ofInt = some (byte (hexVal a) (hexVal b)) := by
  have hbyte : UInt8.ofInt ((hexVal a).toNat * 16 + (hexVal b).toNat) =
      byte (hexVal a) (hexVal b) := by
    rw [UInt8.ofInt_add, UInt8.ofInt_mul, ofInt_toNat, ofInt_toNat]
    rfl
  rw [← hbyte, ← toBcdDigit_hex ha, ← toBcdDigit_hex hb]
  rfl

theorem toBcdLoop_eq {tmp junk : Block} {cs : List UInt8} {k i : Nat} {out : Block}
    (htmp : tmp.drop (2 * i) = cs ++ junk) (hlen : cs.length = 2 * k)
    (hcs : ∀ c ∈ cs, IsHex c) (hout : i + k ≤ out.length) :
    toBcdLoop tmp k i out = some (splice out i (pack (cs.map hexVal))) := by
  induction k generalizing cs i out with
  | zero =>
    rw [List.eq_nil_of_length_eq_zero hlen, List.map_nil, pack, splice_nil]
    rfl
  | succ k ih =>
    cases cs with
    | nil =>
      rw [List.length_nil] at hlen
      omega
    | cons a cs =>
    cases cs with
    | nil =>
      rw [List.length_singleton] at hlen
      omega
    | cons b cs =>
      have ha : IsHex a := hcs a List.mem_cons_self
      have hb : IsHex b := hcs b (List.mem_cons_of_mem a List.mem_cons_self)
      have hbyte := toBcd_hex ha hb (cs ++ junk)
      obtain ⟨v, hv, hvb⟩ := Option.map_eq_some_iff.mp hbyte
      have hnext : tmp.drop (2 * (i + 1)) = cs ++ junk := by
        rw [Nat.mul_add, ← List.drop_drop, htmp]
        rfl
      have hroom : i + 1 + k ≤ (splice out i [byte (hexVal a) (hexVal b)]).length := by
        rw [splice_single_length _ (by omega)]
        omega
      rw [List.length_cons, List.length_cons] at hlen
      rw [toBcdLoop, htmp, List.cons_append, List.cons_append, hv]
      simp only [Option.bind_eq_bind, Option.bind_some, hvb]
      rw [poke, if_pos (by omega), Option.bind_some, ih hnext (by omega)
        (fun c hc => hcs c (List.mem_cons_of_mem a (List.mem_cons_of_mem b hc))) hroom,
        splice_cons _ _ (by omega)]
      rfl

/-- The encoders with the digits at `p` among zeros. -/
theorem ascToBcdAt_eq {place : Nat → Nat → Nat} {malloc : Malloc} {s : List UInt8}
    (hm : malloc.Gives ((s.length + 1) / 2 * 2 + 1)) (hs : ∀ c ∈ s, IsHex c)
    (hint : (s.length : Int) + 1 ≤ intMax) {t p : Nat} (ht : (s.length + 1) / 2 * 2 = t)
    (hplace : place t s.length = p)
    (hp : p + s.length ≤ t) (junk : Block) {out : Block}
    (hout : (s.length + 1) / 2 ≤ out.length) :
    ascToBcdAt place malloc out (s ++ junk) s.length =
      some (0, splice out 0 (pack ((List.replicate p 48 ++ s ++
        List.replicate (t - (p + s.length)) 48).map hexVal))) := by
  obtain ⟨tmp, htmp, hlen⟩ := hm
  have hdigits : ∀ c ∈ List.replicate p 48 ++ s ++ List.replicate (t - (p + s.length)) 48,
      IsHex c := by
    intro c hc
    rw [List.mem_append, List.mem_append] at hc
    rcases hc with (hc | hc) | hc
    · rw [List.eq_of_mem_replicate hc]
      decide
    · exact hs c hc
    · rw [List.eq_of_mem_replicate hc]
      decide
  have hfill : (splice tmp 0 (List.replicate t 48)).length = tmp.length :=
    splice_length (by rw [List.length_replicate]; omega)
  rw [ht] at htmp hlen
  rw [ascToBcdAt, if_neg (by omega)]
  simp only [ht, hplace, htmp, memset, memcpy]
  rw [if_pos (by omega), Option.bind_eq_bind, Option.bind_some,
    if_pos ⟨by rw [List.length_append]; omega, by omega⟩, Option.bind_some, List.take_left,
    splice_replicate 48 s hp]
  rw [toBcdLoop_eq (by rw [Nat.mul_zero, List.drop_zero]) ?_ hdigits (by omega)]
  · rfl
  · simp only [List.length_append, List.length_replicate]
    omega

theorem ascToBcd_eq {malloc : Malloc} {s : List UInt8}
    (hm : malloc.Gives ((s.length + 1) / 2 * 2 + 1)) (hs : ∀ c ∈ s, IsHex c)
    (hint : (s.length : Int) + 1 ≤ intMax) (junk : Block) {out : Block}
    (hout : (s.length + 1) / 2 ≤ out.length) :
    ascToBcd malloc out (s ++ junk) s.length =
      some (0, splice out 0 (pack (padLeft (s.map hexVal)))) := by
  have hp : (s.length + 1) / 2 * 2 - s.length + s.length ≤ (s.length + 1) / 2 * 2 := by omega
  rw [ascToBcd, ascToBcdAt_eq hm hs hint rfl rfl hp junk hout, padLeft, List.length_map]
  congr 3
  rcases Nat.mod_two_eq_zero_or_one s.length with heven | hodd
  · have h0 : (s.length + 1) / 2 * 2 - s.length = 0 := by omega
    rw [if_neg (by omega), h0, Nat.zero_add, h0]
    simp
  · have h1 : (s.length + 1) / 2 * 2 - s.length = 1 := by omega
    have h0 : (s.length + 1) / 2 * 2 - (1 + s.length) = 0 := by omega
    rw [if_pos hodd, h1, h0]
    simp [hexVal]

theorem ascToBcdLeft_eq {malloc : Malloc} {s : List UInt8}
    (hm : malloc.Gives ((s.length + 1) / 2 * 2 + 1)) (hs : ∀ c ∈ s, IsHex c)
    (hint : (s.length : Int) + 1 ≤ intMax) (junk : Block) {out : Block}
    (hout : (s.length + 1) / 2 ≤ out.length) :
    ascToBcdLeft malloc out (s ++ junk) s.length =
      some (0, splice out 0 (pack (s.map hexVal))) := by
  have hp : 0 + s.length ≤ (s.length + 1) / 2 * 2 := by omega
  rw [ascToBcdLeft, ascToBcdAt_eq hm hs hint rfl rfl hp junk hout, Nat.zero_add]
  congr 3
  rcases Nat.mod_two_eq_zero_or_one s.length with heven | hodd
  · have h0 : (s.length + 1) / 2 * 2 - s.length = 0 := by omega
    rw [h0]
    simp
  · have h1 : (s.length + 1) / 2 * 2 - s.length = 1 := by omega
    have hmap : (s.map hexVal).length % 2 = 1 := by rwa [List.length_map]
    rw [h1, ← pack_snoc_zero hmap]
    simp [hexVal]

theorem printLoop_eq {bcd junk : Block} {bs : List UInt8} {k i : Nat} {tmp : Block}
    (hbcd : bcd.drop i = bs ++ junk) (hlen : bs.length = k)
    (hroom : 2 * (i + k) + 1 ≤ tmp.length) :
    ∃ tmp', printLoop bcd k i tmp = some tmp' ∧ tmp'.length = tmp.length ∧
      tmp'.take (2 * (i + k)) = tmp.take (2 * i) ++ (unpack bs).map hexChar := by
  induction k generalizing bs i tmp with
  | zero =>
    rw [List.eq_nil_of_length_eq_zero hlen, unpack, List.map_nil, List.append_nil]
    exact ⟨tmp, rfl, rfl, rfl⟩
  | succ k ih =>
    cases bs with
    | nil =>
      rw [List.length_nil] at hlen
      omega
    | cons c bs =>
      rw [List.length_cons] at hlen
      have hc : bcd[i]? = some c := getElem?_of_drop hbcd
      have hnext : bcd.drop (i + 1) = bs ++ junk := drop_succ_of_drop hbcd
      have hlen3 : [hexChar (high c), hexChar (low c), 0].length = 3 := rfl
      have hstore : (splice tmp (2 * i) [hexChar (high c), hexChar (low c), 0]).length =
          tmp.length := splice_length (by rw [hlen3]; omega)
      have htake : (splice tmp (2 * i) [hexChar (high c), hexChar (low c), 0]).take (2 * i + 2) =
          tmp.take (2 * i) ++ [hexChar (high c), hexChar (low c)] :=
        splice_take_of_le (by omega) (by rw [hlen3]; omega)
      obtain ⟨tmp', hloop, hlen', hdigits⟩ := ih hnext (by omega) (by rw [hstore]; omega)
      refine ⟨tmp', ?_, hlen'.trans hstore, ?_⟩
      · rw [printLoop, hc, Option.bind_eq_bind, Option.bind_some, memcpy,
          if_pos ⟨Nat.le_refl 3, by omega⟩]
        exact hloop
      · have hcount : 2 * (i + (k + 1)) = 2 * (i + 1 + k) := by omega
        rw [hcount, hdigits, Nat.mul_add, Nat.mul_one, htake, List.append_assoc]
        rfl

/-- The index that `bcdToAsc` starts to copy from. -/
theorem firstDigit_eq {bs : List UInt8} {n : Nat} (hbs : bs.length = (n + 1) / 2)
    (rest : Block) : firstDigit ((unpack bs).map hexChar ++ rest) n =
      some (if n % 2 = 1 ∧ (unpack bs).head? = some 0 then 1 else 0) := by
  rcases Nat.mod_two_eq_zero_or_one n with heven | hodd
  · rw [firstDigit, if_neg (by omega), if_neg (by omega)]
  · match bs, hbs with
    | [], hbs =>
      rw [List.length_nil] at hbs
      omega
    | c :: bs, _ =>
      rw [firstDigit, if_pos hodd]
      simp only [unpack, List.map_cons, List.cons_append, List.getElem?_cons_zero,
        Option.map_some, hexChar_eq_zero_iff (high_lt c), List.head?_cons, hodd, true_and,
        Option.some.injEq]

theorem dropPad_map {bs : List UInt8} {n i : Nat} (f : UInt8 → UInt8)
    (hi : (if n % 2 = 1 ∧ (unpack bs).head? = some 0 then 1 else 0) = i) :
    (((unpack bs).map f).drop i).take n = (dropPad n (unpack bs)).map f := by
  subst hi
  rw [dropPad, ← List.map_drop, ← List.map_take]
  split
  · rfl
  · rfl

theorem bcdToAsc_eq {malloc : Malloc} (hm : malloc.Succeeds) {bs : List UInt8} {n : Nat}
    (hbs : bs.length = (n + 1) / 2) (hint : (n : Int) + 2 ≤ intMax) (junk : Block)
    {out : Block} (hout : n + 1 ≤ out.length) :
    bcdToAsc malloc out (bs ++ junk) n =
      some (0, splice out 0 ((dropPad n (unpack bs)).map hexChar ++ [0])) := by
  obtain ⟨tmp, htmp, hlen⟩ := hm (n + 2)
  have hdrop : (bs ++ junk).drop 0 = bs ++ junk := List.drop_zero
  have hroom : 2 * (0 + (n + 1) / 2) + 1 ≤ tmp.length := by omega
  obtain ⟨tmp', hprint, hlen', hdigits⟩ := printLoop_eq hdrop hbs hroom
  rw [Nat.zero_add, Nat.mul_zero, List.take_zero, List.nil_append] at hdigits
  obtain ⟨rest, rfl⟩ : ∃ rest, tmp' = (unpack bs).map hexChar ++ rest :=
    ⟨tmp'.drop (2 * ((n + 1) / 2)), by rw [← hdigits, List.take_append_drop]⟩
  have hcs : ((unpack bs).map hexChar).length = 2 * ((n + 1) / 2) := by
    rw [List.length_map, unpack_length, hbs]
  obtain ⟨i, hi⟩ : ∃ i, (if n % 2 = 1 ∧ (unpack bs).head? = some 0 then 1 else 0) = i :=
    ⟨_, rfl⟩
  have hin : i + n ≤ 2 * ((n + 1) / 2) := by
    rw [← hi]
    split <;> omega
  have hcopy : (((unpack bs).map hexChar ++ rest).drop i).take n =
      (dropPad n (unpack bs)).map hexChar := by
    rw [List.drop_append_of_le_length (by omega),
      List.take_append_of_le_length (by rw [List.length_drop]; omega), dropPad_map hexChar hi]
  have hkept : ((dropPad n (unpack bs)).map hexChar).length = n := by
    rw [← hcopy, List.length_take, List.length_drop]
    omega
  have hstore : (splice out 0 ((dropPad n (unpack bs)).map hexChar)).length = out.length :=
    splice_length (by omega)
  have hnul : splice (splice out 0 ((dropPad n (unpack bs)).map hexChar))
      (0 + ((dropPad n (unpack bs)).map hexChar).length) [0] =
        splice out 0 ((dropPad n (unpack bs)).map hexChar ++ [0]) :=
    splice_splice _ [0] (by omega)
  rw [Nat.zero_add, hkept] at hnul
  rw [bcdToAsc, if_neg (by omega)]
  simp only [htmp, hprint, firstDigit_eq hbs, hi, Option.bind_eq_bind, Option.bind_some]
  rw [memcpy, if_pos ⟨by rw [List.length_drop]; omega, by omega⟩, hcopy, Option.bind_some,
    poke, if_pos (by omega), Option.bind_some, hnul]

/-! ## `asc_to_bcd` and `bcd_to_asc` -/

/-- The value of a character in `asc_to_bcd`. -/
def asc_to_bcd_digit (c : UInt8) : UInt8 :=
  if 97 ≤ c then c - 97 + 10
  else if 65 ≤ c then c - 65 + 10
  else if 48 ≤ c then c - 48
  else 0

/-- The loop of `asc_to_bcd` over `k` more characters, and the store behind it. The last
digit without a partner is in `ch1`, `0x55` for none. -/
def asc_to_bcd_loop : Nat → Block → UInt8 → Nat → Block → Option Block
  | 0, _, ch1, off, bcd_buf =>
    if ch1 ≠ 0x55 then poke bcd_buf off (ch1 <<< 4) else some bcd_buf
  | k + 1, ascii_buf, ch1, off, bcd_buf => do
    let c ← ascii_buf[0]?
    let ch := asc_to_bcd_digit c
    if ch1 = 0x55 then asc_to_bcd_loop k (ascii_buf.drop 1) ch off bcd_buf
    else
      let bcd_buf ← poke bcd_buf off ((ch1 <<< 4) ||| ch)
      asc_to_bcd_loop k (ascii_buf.drop 1) 0x55 (off + 1) bcd_buf

def asc_to_bcd (bcd_buf ascii_buf : Block) (conv_len : Nat) (type : UInt8) : Option Block :=
  let ch1 := if conv_len % 2 = 1 ∧ type ≠ 0 then 0 else 0x55
  asc_to_bcd_loop conv_len ascii_buf ch1 0 bcd_buf

/-- The loop of `bcd_to_asc` for `k` values from `cnt` on. -/
def bcd_to_asc_loop : Nat → Nat → Nat → Block → Block → Option Block
  | 0, _, _, _, ascii_buf => some ascii_buf
  | k + 1, cnt, off, bcd_buf, ascii_buf => do
    let c ← bcd_buf[0]?
    let (d, bcd_buf) :=
      if cnt % 2 = 1 then (c &&& 0x0f, bcd_buf.drop 1) else (c >>> 4, bcd_buf)
    let ascii_buf ← poke ascii_buf off (d + (if 9 < d then 65 - 10 else 48))
    bcd_to_asc_loop k (cnt + 1) (off + 1) bcd_buf ascii_buf

def bcd_to_asc (ascii_buf bcd_buf : Block) (conv_len : Nat) (type : UInt8) : Option Block :=
  if conv_len % 2 = 1 ∧ type ≠ 0 then
    -- `conv_len ++` on an `int`
    if intMax < conv_len + 1 then none
    else bcd_to_asc_loop (conv_len + 1 - 1) 1 0 bcd_buf ascii_buf
  else bcd_to_asc_loop conv_len 0 0 bcd_buf ascii_buf

theorem asc_to_bcd_digit_hex {c : UInt8} (hc : IsHex c) : asc_to_bcd_digit c = hexVal c := by
  unfold IsHex at hc
  unfold asc_to_bcd_digit hexVal
  grind

/-- Two digits in one byte. -/
def joinDigits (a b : UInt8) : UInt8 := (a <<< 4) ||| b

/-- What the loop stores from no pending digit on. A digit `0x55` that should wait for its
partner is taken for none. -/
def asc_to_bcd_bytes : List UInt8 → List UInt8
  | [] => []
  | [a] => if a = 0x55 then [] else [joinDigits a 0]
  | a :: b :: ds =>
    if a = 0x55 then asc_to_bcd_bytes (b :: ds) else joinDigits a b :: asc_to_bcd_bytes ds

/-- No digit `0x55` stands first in a pair. -/
def Unmarked (ds : List UInt8) : Prop := ∀ k, ds[2 * k]? ≠ some 0x55

/-- The digits of the characters, for some types with a zero in front. -/
def asc_to_bcd_digits (s : List UInt8) (type : UInt8) : List UInt8 :=
  if s.length % 2 = 1 ∧ type ≠ 0 then 0 :: s.map asc_to_bcd_digit else s.map asc_to_bcd_digit

theorem joinDigits_zero (a : UInt8) : joinDigits a 0 = a <<< 4 := UInt8.or_zero

theorem asc_to_bcd_bytes_mark (ds : List UInt8) :
    asc_to_bcd_bytes (0x55 :: ds) = asc_to_bcd_bytes ds := by
  cases ds with
  | nil => rfl
  | cons b ds => rw [asc_to_bcd_bytes, if_pos rfl]

theorem asc_to_bcd_bytes_length_le (ds : List UInt8) :
    (asc_to_bcd_bytes ds).length ≤ (ds.length + 1) / 2 := by
  induction ds using asc_to_bcd_bytes.induct with
  | case1 => exact Nat.zero_le _
  | case2 => exact Nat.zero_le _
  | case3 a ha => rw [asc_to_bcd_bytes, if_neg ha, List.length_singleton, List.length_singleton]
  | case4 b ds ih =>
    rw [asc_to_bcd_bytes_mark, List.length_cons]
    omega
  | case5 a b ds ha ih =>
    rw [asc_to_bcd_bytes, if_neg ha, List.length_cons, List.length_cons, List.length_cons]
    omega

theorem unmarked_nil : Unmarked [] := by
  intro k h
  rw [List.getElem?_nil] at h
  cases h

theorem unmarked_singleton {a : UInt8} : Unmarked [a] ↔ a ≠ 0x55 := by
  constructor
  · exact fun h ha => h 0 (congrArg some ha)
  · intro ha k h
    obtain ⟨hk, he⟩ := List.getElem?_eq_some_iff.mp h
    exact ha ((List.getElem_singleton hk).symm.trans he)

theorem unmarked_cons_cons {a b : UInt8} {ds : List UInt8} :
    Unmarked (a :: b :: ds) ↔ a ≠ 0x55 ∧ Unmarked ds := by
  constructor
  · intro h
    exact ⟨fun ha => h 0 (congrArg some ha), fun k => h (k + 1)⟩
  · rintro ⟨ha, h⟩ k
    cases k with
    | zero => exact fun he => ha (Option.some.inj he)
    | succ k => exact h k

theorem asc_to_bcd_bytes_eq {ds : List UInt8} (h : Unmarked ds) :
    asc_to_bcd_bytes ds = pairsWith joinDigits 0 ds := by
  induction ds using pairsWith.induct with
  | case1 => simp [asc_to_bcd_bytes, pairsWith]
  | case2 a =>
    have ha : a ≠ 0x55 := fun ha => h 0 (congrArg some ha)
    rw [asc_to_bcd_bytes, if_neg ha, pairsWith]
  | case3 a b ds ih =>
    obtain ⟨ha, hds⟩ := unmarked_cons_cons.mp h
    rw [asc_to_bcd_bytes, if_neg ha, pairsWith, ih hds]

/-- The loop with no digit pending, and with the digit `d` pending. -/
theorem asc_to_bcd_loop_eq (s junk : List UInt8) :
    (∀ {off : Nat} {out : Block}, off + (s.length + 1) / 2 ≤ out.length →
      asc_to_bcd_loop s.length (s ++ junk) 0x55 off out =
        some (splice out off (asc_to_bcd_bytes (s.map asc_to_bcd_digit)))) ∧
    (∀ {off : Nat} {out : Block} {d : UInt8}, d ≠ 0x55 → off + (s.length + 2) / 2 ≤ out.length →
      asc_to_bcd_loop s.length (s ++ junk) d off out =
        some (splice out off (asc_to_bcd_bytes (d :: s.map asc_to_bcd_digit)))) := by
  induction s with
  | nil =>
    refine ⟨fun {off out} hout => ?_, fun {off out d} hd hout => ?_⟩
    · rw [List.map_nil, asc_to_bcd_bytes, splice_nil]
      rfl
    · rw [List.length_nil] at hout ⊢
      rw [asc_to_bcd_loop, if_pos hd, poke, if_pos (by omega), List.map_nil, asc_to_bcd_bytes,
        if_neg hd, joinDigits_zero]
  | cons c s ih =>
    obtain ⟨ihNone, ihSome⟩ := ih
    refine ⟨fun {off out} hout => ?_, fun {off out d} hd hout => ?_⟩
    · rw [List.length_cons] at hout
      have hloop : asc_to_bcd_loop (s.length + 1) (c :: s ++ junk) 0x55 off out =
          asc_to_bcd_loop s.length (s ++ junk) (asc_to_bcd_digit c) off out := rfl
      rw [List.length_cons, hloop, List.map_cons]
      by_cases hmark : asc_to_bcd_digit c = 0x55
      · rw [hmark, ihNone (by omega), asc_to_bcd_bytes_mark]
      · exact ihSome hmark hout
    · rw [List.length_cons] at hout ⊢
      rw [asc_to_bcd_loop, List.cons_append, List.getElem?_cons_zero, Option.bind_eq_bind,
        Option.bind_some, if_neg hd, poke, if_pos (by omega), Option.bind_eq_bind,
        Option.bind_some, List.drop_succ_cons, List.drop_zero,
        ihNone (by rw [splice_single_length _ (by omega)]; omega), splice_cons _ _ (by omega),
        List.map_cons, asc_to_bcd_bytes, if_neg hd]
      rfl

theorem asc_to_bcd_eq_bytes (s junk : List UInt8) (type : UInt8) {out : Block}
    (hout : (s.length + 1) / 2 ≤ out.length) :
    asc_to_bcd out (s ++ junk) s.length type =
      some (splice out 0 (asc_to_bcd_bytes (asc_to_bcd_digits s type))) := by
  obtain ⟨hnone, hsome⟩ := asc_to_bcd_loop_eq s junk
  rw [asc_to_bcd, asc_to_bcd_digits]
  by_cases hpad : s.length % 2 = 1 ∧ type ≠ 0
  · rw [if_pos hpad, if_pos hpad]
    exact hsome (by decide) (by omega)
  · rw [if_neg hpad, if_neg hpad]
    exact hnone (by omega)

theorem asc_to_bcd_digits_hex {s : List UInt8} (hs : ∀ c ∈ s, IsHex c) (type : UInt8) :
    asc_to_bcd_digits s type = if type = 0 then s.map hexVal else padLeft (s.map hexVal) := by
  have hmap : s.map asc_to_bcd_digit = s.map hexVal :=
    List.map_congr_left fun c hc => asc_to_bcd_digit_hex (hs c hc)
  rw [asc_to_bcd_digits, hmap, padLeft, List.length_map]
  by_cases htype : type = 0
  · rw [if_pos htype, if_neg fun h => h.2 htype]
  · simp only [htype, ne_eq, not_false_eq_true, and_true, if_false]

theorem asc_to_bcd_bytes_pack {ds : List UInt8} (hds : ∀ d ∈ ds, d < 16) :
    asc_to_bcd_bytes ds = pack ds := by
  have hunmarked : Unmarked ds := fun k hk =>
    absurd (hds _ (List.mem_of_getElem? hk)) (by decide)
  rw [asc_to_bcd_bytes_eq hunmarked, pack_eq_pairsWith]
  exact pairsWith_congr (fun a => shiftLeft_or (by decide)) fun b hb a => shiftLeft_or (hds b hb)

theorem asc_to_bcd_eq {s : List UInt8} (hs : ∀ c ∈ s, IsHex c) (junk : Block) (type : UInt8)
    {out : Block} (hout : (s.length + 1) / 2 ≤ out.length) :
    asc_to_bcd out (s ++ junk) s.length type =
      some (splice out 0
        (pack (if type = 0 then s.map hexVal else padLeft (s.map hexVal)))) := by
  have hds : ∀ d ∈ asc_to_bcd_digits s type, d < 16 := by
    rw [asc_to_bcd_digits_hex hs]
    split
    · exact map_hexVal_lt hs
    · exact padLeft_lt (map_hexVal_lt hs)
  rw [asc_to_bcd_eq_bytes s junk type hout, asc_to_bcd_bytes_pack hds, asc_to_bcd_digits_hex hs]

theorem nibble_chars {d : UInt8} : d + (if 9 < d then 65 - 10 else 48) = hexChar d := by
  unfold hexChar
  grind

/-- The loop before the high half of a byte, and before the low half of the byte `c`. -/
theorem bcd_to_asc_loop_eq (junk : Block) (k : Nat) :
    (∀ {bs : List UInt8} {cnt off : Nat} {out : Block}, cnt % 2 = 0 → k ≤ 2 * bs.length →
      off + k ≤ out.length → bcd_to_asc_loop k cnt off (bs ++ junk) out =
        some (splice out off (((unpack bs).take k).map hexChar))) ∧
    (∀ {c : UInt8} {bs : List UInt8} {cnt off : Nat} {out : Block}, cnt % 2 = 1 →
      k ≤ 2 * bs.length + 1 → off + k ≤ out.length →
      bcd_to_asc_loop k cnt off (c :: bs ++ junk) out =
        some (splice out off (((low c :: unpack bs).take k).map hexChar))) := by
  induction k with
  | zero =>
    refine ⟨fun {bs cnt off out} _ _ _ => ?_, fun {c bs cnt off out} _ _ _ => ?_⟩
    · rw [List.take_zero, List.map_nil, splice_nil]
      rfl
    · rw [List.take_zero, List.map_nil, splice_nil]
      rfl
  | succ k ih =>
    obtain ⟨ihHigh, ihLow⟩ := ih
    refine ⟨fun {bs cnt off out} hcnt hk hout => ?_, fun {c bs cnt off out} hcnt hk hout => ?_⟩
    · match bs with
      | [] => exact absurd hk (by simp)
      | c :: bs =>
        rw [List.length_cons] at hk
        rw [bcd_to_asc_loop, List.cons_append, List.getElem?_cons_zero, Option.bind_eq_bind,
          Option.bind_some, if_neg (by omega)]
        simp only
        rw [shiftRight_four, nibble_chars, poke, if_pos (by omega), Option.bind_eq_bind,
          Option.bind_some, ← List.cons_append, ihLow (by omega) (by omega)
            (by rw [splice_single_length _ (by omega)]; omega), splice_cons _ _ (by omega)]
        rfl
    · rw [bcd_to_asc_loop, List.cons_append, List.getElem?_cons_zero, Option.bind_eq_bind,
        Option.bind_some, if_pos hcnt]
      simp only
      rw [and_fifteen, nibble_chars, poke, if_pos (by omega), Option.bind_eq_bind,
        Option.bind_some, List.drop_succ_cons, List.drop_zero, ihHigh (by omega) (by omega)
          (by rw [splice_single_length _ (by omega)]; omega), splice_cons _ _ (by omega)]
      rfl

theorem bcd_to_asc_eq {bs : List UInt8} {n : Nat} (hbs : bs.length = (n + 1) / 2)
    {type : UInt8} (hint : n % 2 = 1 ∧ type ≠ 0 → (n : Int) < intMax) (junk : Block)
    {out : Block} (hout : n ≤ out.length) :
    bcd_to_asc out (bs ++ junk) n type =
      some (splice out 0 (((if n % 2 = 1 ∧ type ≠ 0 then (unpack bs).drop 1
        else unpack bs).take n).map hexChar)) := by
  obtain ⟨hhigh, hlow⟩ := bcd_to_asc_loop_eq junk n
  by_cases hpad : n % 2 = 1 ∧ type ≠ 0
  · have hlt : (n : Int) < intMax := hint hpad
    rw [bcd_to_asc, if_pos hpad, if_pos hpad, if_neg (by omega), Nat.add_sub_cancel]
    match bs, hbs with
    | [], hbs =>
      rw [List.length_nil] at hbs
      omega
    | c :: bs, hbs =>
      rw [List.length_cons] at hbs
      exact hlow (by decide) (by omega) (by omega)
  · rw [bcd_to_asc, if_neg hpad, if_neg hpad]
    exact hhigh (by decide) (by omega) (by omega)

end Netepoll
