import Netepoll.BcdRoundTrip

/-! The two families of BCD encoders side by side: `asc_to_bcd` with a type that is not
zero and `ascToBcd`, `asc_to_bcd` with type zero and `ascToBcdLeft`. -/

namespace Netepoll

open CString Nibble

/-- For the `n` characters of `s` both encoders store the same `(n+1)/2` bytes, wherever
there is room for them, and nothing else. -/
def EncodersAgree (encode : Block → Block → Nat → Option (Int × Block)) (type : UInt8)
    (s : Block) : Prop :=
  ∃ bs : List UInt8, bs.length = (s.length + 1) / 2 ∧
    (∀ out : Block, (s.length + 1) / 2 ≤ out.length →
      asc_to_bcd out s s.length type = some (splice out 0 bs)) ∧
    (∀ out : Block, (s.length + 1) / 2 ≤ out.length →
      encode out s s.length = some (0, splice out 0 bs))

/-- The sum `AscLen + 1` is an `int`, and `malloc` gives the array for the padded digits
where there are any. -/
def Encodable (malloc : Malloc) (n : Nat) : Prop :=
  (n : Int) + 1 ≤ intMax ∧ (n = 0 ∨ malloc.Gives ((n + 1) / 2 * 2 + 1))

/-- Without an array nothing is stored. -/
theorem ascToBcdAt_null {place : Nat → Nat → Nat} {malloc : Malloc} {n : Nat}
    (hint : (n : Int) + 1 ≤ intMax) (hnull : malloc ((n + 1) / 2 * 2 + 1) = none)
    (out s : Block) : ascToBcdAt place malloc out s n = some (0, out) := by
  rw [ascToBcdAt, if_neg (by omega)]
  simp only [hnull]

theorem null_of_not_gives {malloc : Malloc}
    (hmalloc : ∀ k tmp, malloc k = some tmp → tmp.length = k) {k : Nat} (h : ¬ malloc.Gives k) :
    malloc k = none := by
  cases htmp : malloc k with
  | none => rfl
  | some tmp => exact absurd ⟨tmp, htmp, hmalloc _ _ htmp⟩ h

/-- An encoder that needs an array stores nothing without one, or has no result. -/
theorem encodable_of_agree {place : Nat → Nat → Nat} {malloc : Malloc}
    (hmalloc : ∀ k tmp, malloc k = some tmp → tmp.length = k) {type : UInt8} {s : Block}
    (h : EncodersAgree (ascToBcdAt place malloc) type s) : Encodable malloc s.length := by
  obtain ⟨bs, hlen, -, henc⟩ := h
  have hint : (s.length : Int) + 1 ≤ intMax := by
    by_contra hint
    have hnone := henc (zeros ((s.length + 1) / 2)) (by rw [zeros_length])
    rw [ascToBcdAt, if_pos (by omega)] at hnone
    cases hnone
  refine ⟨hint, ?_⟩
  by_contra hno
  obtain ⟨hne, hgives⟩ := not_or.mp hno
  have hnull := null_of_not_gives hmalloc hgives
  -- the bytes cannot be told from none
  have hnil : bs = [] := by
    refine eq_of_splice (Nat.le_of_eq hlen) (Nat.zero_le _) fun out hout => ?_
    have hsame := henc out hout
    rw [ascToBcdAt_null hint hnull] at hsame
    rw [splice_nil]
    exact (Prod.mk.inj (Option.some.inj hsame)).2.symm
  rw [hnil, List.length_nil] at hlen
  omega

/-- Without digits the array is not needed. -/
theorem ascToBcdAt_encodable {place : Nat → Nat → Nat} {malloc : Malloc}
    (hmalloc : ∀ k tmp, malloc k = some tmp → tmp.length = k) {s out : Block} {bs : List UInt8}
    (h : Encodable malloc s.length) (hbs : s = [] → bs = [])
    (henc : malloc.Gives ((s.length + 1) / 2 * 2 + 1) →
      ascToBcdAt place malloc out s s.length = some (0, splice out 0 bs)) :
    ascToBcdAt place malloc out s s.length = some (0, splice out 0 bs) := by
  by_cases hg : malloc.Gives ((s.length + 1) / 2 * 2 + 1)
  · exact henc hg
  · obtain rfl := List.eq_nil_of_length_eq_zero (h.2.resolve_right hg)
    rw [hbs rfl, splice_nil]
    exact ascToBcdAt_null (by decide) (null_of_not_gives hmalloc hg) out []

theorem ascToBcd_encodable {malloc : Malloc}
    (hmalloc : ∀ k tmp, malloc k = some tmp → tmp.length = k) {s out : Block}
    (hs : ∀ c ∈ s, IsHex c) (h : Encodable malloc s.length)
    (hout : (s.length + 1) / 2 ≤ out.length) :
    ascToBcd malloc out s s.length = some (0, splice out 0 (pack (padLeft (s.map hexVal)))) := by
  have henc (hg : malloc.Gives ((s.length + 1) / 2 * 2 + 1)) :=
    ascToBcd_eq hg hs h.1 [] hout
  simp only [List.append_nil] at henc
  refine ascToBcdAt_encodable hmalloc h (fun h0 => ?_) henc
  rw [h0]
  rfl

theorem ascToBcdLeft_encodable {malloc : Malloc}
    (hmalloc : ∀ k tmp, malloc k = some tmp → tmp.length = k) {s out : Block}
    (hs : ∀ c ∈ s, IsHex c) (h : Encodable malloc s.length)
    (hout : (s.length + 1) / 2 ≤ out.length) :
    ascToBcdLeft malloc out s s.length = some (0, splice out 0 (pack (s.map hexVal))) := by
  have henc (hg : malloc.Gives ((s.length + 1) / 2 * 2 + 1)) :=
    ascToBcdLeft_eq hg hs h.1 [] hout
  simp only [List.append_nil] at henc
  refine ascToBcdAt_encodable hmalloc h (fun h0 => ?_) henc
  rw [h0]
  rfl

/-- Both families agree on all digit strings, aligned to the right and to the left, if and
only if the second one has its array. -/
theorem encodersAgree_iff {malloc : Malloc}
    (hmalloc : ∀ k tmp, malloc k = some tmp → tmp.length = k) {s : Block}
    (hs : ∀ c ∈ s, IsHex c) :
    ((∀ type : UInt8, type ≠ 0 → EncodersAgree (ascToBcd malloc) type s) ∧
        EncodersAgree (ascToBcdLeft malloc) 0 s) ↔
      Encodable malloc s.length := by
  constructor
  · exact fun h => encodable_of_agree hmalloc h.2
  intro h
  refine ⟨fun type htype => ⟨pack (padLeft (s.map hexVal)), ?_, fun out hout => ?_, fun out hout =>
    ascToBcd_encodable hmalloc hs h hout⟩, ⟨pack (s.map hexVal), ?_, fun out hout => ?_,
    fun out hout => ascToBcdLeft_encodable hmalloc hs h hout⟩⟩
  · rw [pack_padLeft_length, List.length_map]
  · have henc := asc_to_bcd_eq hs [] type hout
    rwa [List.append_nil, if_neg htype] at henc
  · rw [pack_length, List.length_map]
  · have henc := asc_to_bcd_eq hs [] 0 hout
    rwa [List.append_nil, if_pos rfl] at henc

/-- The digits `1aF`. -/
theorem encodersAgree_iff_1aF :
    (∀ type : UInt8, type ≠ 0 → EncodersAgree (ascToBcd zeroMalloc) type [49, 97, 70]) ∧
      EncodersAgree (ascToBcdLeft zeroMalloc) 0 [49, 97, 70] :=
  (encodersAgree_iff (fun k tmp h => by cases h; exact zeros_length k)
    (isHex_of_all rfl)).mpr ⟨by decide, .inr (zeroMalloc_succeeds _)⟩

/-- With 2147483647 digits `AscLen + 1` overflows. -/
theorem not_encodersAgree :
    ¬ ∀ malloc : Malloc, malloc.Succeeds → ∀ s : Block, (∀ c ∈ s, IsHex c) →
      (∀ type : UInt8, type ≠ 0 → EncodersAgree (ascToBcd malloc) type s) ∧
        EncodersAgree (ascToBcdLeft malloc) 0 s := by
  intro hall
  obtain ⟨s, hlen, hs⟩ := exists_long_hex
  obtain ⟨bs, -, -, henc⟩ := (hall zeroMalloc zeroMalloc_succeeds s hs).2
  have h := henc (zeros ((s.length + 1) / 2)) (by rw [zeros_length])
  rw [ascToBcdLeft, ascToBcdAt, hlen, if_pos (by decide)] at h
  cases h

end Netepoll
