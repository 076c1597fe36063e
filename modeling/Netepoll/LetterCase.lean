import Netepoll.BcdRoundTrip
import Netepoll.Strtool

/-! `str2upper` and `str2lower` (strtool.c), and what the BCD encoders make of a string that
went through them. -/

namespace Netepoll

open CString Nibble Strtool

/-! ## The case of a string -/

/-- The same bytes, up to the case of letters. -/
def SameLetters (b b' : Block) : Prop := b'.map toupper = b.map toupper

theorem SameLetters.length {b b' : Block} (h : SameLetters b b') : b'.length = b.length := by
  rw [← List.length_map (f := toupper), h, List.length_map]

theorem SameLetters.take {b b' : Block} (h : SameLetters b b') (n : Nat) :
    SameLetters (b.take n) (b'.take n) := by
  rw [SameLetters, List.map_take, List.map_take, h]

theorem SameLetters.drop {b b' : Block} (h : SameLetters b b') (n : Nat) :
    SameLetters (b.drop n) (b'.drop n) := by
  rw [SameLetters, List.map_drop, List.map_drop, h]

theorem toupper_eq_zero_iff (c : UInt8) : toupper c = 0 ↔ c = 0 := by
  unfold toupper islower
  grind

theorem isHex_toupper_iff (c : UInt8) : IsHex (toupper c) ↔ IsHex c :=
  forall_byte (P := fun c => IsHex (toupper c) ↔ IsHex c) (by decide +kernel) c

theorem toupper_toupper (c : UInt8) : toupper (toupper c) = toupper c :=
  forall_byte (P := fun c => toupper (toupper c) = toupper c) (by decide +kernel) c

theorem toupper_tolower (c : UInt8) : toupper (tolower c) = toupper c :=
  forall_byte (P := fun c => toupper (tolower c) = toupper c) (by decide +kernel) c

/-- An array with the same letters holds a string with the same letters. -/
theorem SameLetters.holds {b b' : Block} {s : List UInt8} (h : SameLetters b b')
    (hb : Holds b s) : Holds b' (b'.take s.length) ∧ SameLetters s (b'.take s.length) := by
  have hsame : SameLetters s (b'.take s.length) := by
    have htake := h.take s.length
    rwa [hb.take (Nat.le_refl _), List.take_length] at htake
  have hlt : s.length < b'.length := by
    rw [h.length]
    exact hb.length_lt
  have hzero : b'[s.length] = 0 := by
    have hget := congrArg (fun l => l[s.length]?) h
    simp only [List.getElem?_map, List.getElem?_eq_getElem hlt, hb.getElem? (Nat.le_refl _)] at hget
    rw [List.getElem?_eq_none (Nat.le_refl _), Option.map_some, Option.map_some] at hget
    exact (toupper_eq_zero_iff _).mp (Option.some.inj hget)
  refine ⟨⟨fun h0 => hb.noNul ?_, b'.drop (s.length + 1), ?_⟩, hsame⟩
  · have hmem : toupper 0 ∈ s.map toupper := hsame ▸ List.mem_map_of_mem h0
    obtain ⟨c, hc, hc0⟩ := List.mem_map.mp hmem
    have hc0 : c = 0 := (toupper_eq_zero_iff c).mp hc0
    exact hc0 ▸ hc
  · rw [← hzero, ← List.drop_eq_getElem_cons hlt, List.take_append_drop]

theorem mapLoop_eq (f : UInt8 → UInt8) {k i : Nat} {b : Block} (hk : i + k ≤ b.length) :
    mapLoop f k i b = some (splice b i (((b.drop i).take k).map f)) := by
  induction k generalizing i b with
  | zero => rw [mapLoop, List.take_zero, List.map_nil, splice_nil]
  | succ k ih =>
    have hi : i < b.length := by omega
    have hdrop : b.drop i = b[i] :: b.drop (i + 1) := List.drop_eq_getElem_cons hi
    have hrest : (splice b i [f b[i]]).drop (i + 1) = b.drop (i + 1) :=
      splice_drop [f b[i]] (Nat.le_of_lt hi)
    rw [mapLoop, List.getElem?_eq_getElem hi, Option.bind_eq_bind, Option.bind_some, poke,
      if_pos hi, Option.bind_eq_bind, Option.bind_some,
      ih (by rw [splice_single_length _ hi]; omega), hrest, hdrop,
      List.take_succ_cons, List.map_cons, splice_cons _ _ hi]

theorem mapLoop_sameLetters {f : UInt8 → UInt8} (hf : ∀ c, toupper (f c) = toupper c)
    {b : Block} {n : Nat} (hn : n ≤ b.length) :
    ∃ b', mapLoop f n 0 b = some b' ∧ SameLetters b b' := by
  have hmap (l : List UInt8) : (l.map f).map toupper = l.map toupper := by
    simp [hf]
  refine ⟨_, mapLoop_eq f (by omega), ?_⟩
  rw [SameLetters, List.drop_zero, splice_zero, List.map_append, hmap, ← List.map_append,
    List.length_map, List.length_take, Nat.min_eq_left hn, List.take_append_drop]

/-- A string of more than `INT_MAX` characters is converted in part. -/
theorem caseCall_sameLetters {f : UInt8 → UInt8} (hf : ∀ c, toupper (f c) = toupper c)
    {b : Block} {s : List UInt8} (h : Holds b s) :
    ∃ b', mapLoop f (toInt s.length).toNat 0 b = some b' ∧ SameLetters b b' := by
  have hle : (toInt s.length).toNat ≤ b.length :=
    Nat.le_trans (toInt_le s.length) (Nat.le_of_lt h.length_lt)
  exact mapLoop_sameLetters hf hle

theorem str2upper_sameLetters {b : Block} {s : List UInt8} (h : Holds b s) :
    ∃ b', str2upper b = some b' ∧ SameLetters b b' := by
  obtain ⟨b', hloop, hsame⟩ := caseCall_sameLetters toupper_toupper h
  refine ⟨b', ?_, hsame⟩
  rw [str2upper, h.strlen, Option.bind_eq_bind, Option.bind_some]
  exact hloop

theorem str2lower_sameLetters {b : Block} {s : List UInt8} (h : Holds b s) :
    ∃ b', str2lower b = some b' ∧ SameLetters b b' := by
  obtain ⟨b', hloop, hsame⟩ := caseCall_sameLetters toupper_tolower h
  refine ⟨b', ?_, hsame⟩
  rw [str2lower, h.strlen, Option.bind_eq_bind, Option.bind_some]
  exact hloop

theorem caseCalls_sameLetters {fs : List (Block → Option Block)}
    (hfs : ∀ f ∈ fs, f = str2upper ∨ f = str2lower) {b : Block} {s : List UInt8}
    (h : Holds b s) : ∃ b', callAll fs b = some b' ∧ SameLetters b b' := by
  induction fs generalizing b s with
  | nil => exact ⟨b, rfl, rfl⟩
  | cons f fs ih =>
    have hcall : ∃ b₁, f b = some b₁ ∧ SameLetters b b₁ := by
      rcases hfs f List.mem_cons_self with rfl | rfl
      · exact str2upper_sameLetters h
      · exact str2lower_sameLetters h
    obtain ⟨b₁, hb₁, hsame⟩ := hcall
    obtain ⟨b', hb', hsame'⟩ := ih (fun f hf => hfs f (List.mem_cons_of_mem _ hf)) (hsame.holds h).1
    exact ⟨b', by rw [callAll, hb₁, Option.bind_some, hb'], hsame'.trans hsame⟩

/-! ## What the encoders make of it -/

theorem asc_to_bcd_digit_toupper (c : UInt8) :
    asc_to_bcd_digit (toupper c) = asc_to_bcd_digit c :=
  forall_byte (P := fun c => asc_to_bcd_digit (toupper c) = asc_to_bcd_digit c)
    (by decide +kernel) c

theorem SameLetters.asc_to_bcd_digit_head {b b' : Block} (h : SameLetters b b') :
    (b'[0]?).map asc_to_bcd_digit = (b[0]?).map asc_to_bcd_digit := by
  have hget := congrArg (fun l => (l[0]?).map asc_to_bcd_digit) h
  simpa [List.getElem?_map, Option.map_map, Function.comp_def, asc_to_bcd_digit_toupper] using hget

theorem SameLetters.asc_to_bcd_loop {b b' : Block} (h : SameLetters b b') (k : Nat) (ch1 : UInt8)
    (off : Nat) (bcd_buf : Block) :
    asc_to_bcd_loop k b' ch1 off bcd_buf = asc_to_bcd_loop k b ch1 off bcd_buf := by
  induction k generalizing b b' ch1 off bcd_buf with
  | zero => rfl
  | succ k ih =>
    have hhead := h.asc_to_bcd_digit_head
    rw [Netepoll.asc_to_bcd_loop, Netepoll.asc_to_bcd_loop]
    cases hb : b[0]? with
    | none =>
      rw [hb, Option.map_none, Option.map_eq_none_iff] at hhead
      rw [hhead]
      rfl
    | some c =>
      rw [hb, Option.map_some] at hhead
      obtain ⟨c', hc', hdigit⟩ := Option.map_eq_some_iff.mp hhead
      simp only [hc', Option.bind_eq_bind, Option.bind_some, hdigit, ih (h.drop 1)]

/-- A digit in the other encoders, where only hexadecimal digits have no case. -/
def codeOf (c : UInt8) : Int := toBcdDigit (charToInt c)

theorem codeOf_toupper {c : UInt8} (hc : IsHex c) : codeOf (toupper c) = codeOf c := by
  have hval : hexVal (toupper c) = hexVal c :=
    forall_byte (P := fun c => IsHex c → hexVal (toupper c) = hexVal c) (by decide +kernel) c hc
  rw [codeOf, codeOf, toBcdDigit_hex hc, toBcdDigit_hex ((isHex_toupper_iff c).mpr hc), hval]

theorem SameLetters.map_codeOf {s s' : List UInt8} (h : SameLetters s s')
    (hs : ∀ c ∈ s, IsHex c) : s'.map codeOf = s.map codeOf := by
  have hs' : ∀ c ∈ s', IsHex c := by
    intro c hc
    have hmem : toupper c ∈ s.map toupper := h ▸ List.mem_map_of_mem hc
    obtain ⟨d, hd, heq⟩ := List.mem_map.mp hmem
    exact (isHex_toupper_iff c).mp (heq ▸ (isHex_toupper_iff d).mpr (hs d hd))
  have hmap {l : List UInt8} (hl : ∀ c ∈ l, IsHex c) :
      (l.map toupper).map codeOf = l.map codeOf := by
    rw [List.map_map]
    exact List.map_congr_left fun c hc => codeOf_toupper (hl c hc)
  rw [← hmap hs', h, hmap hs]

theorem toBcd_congr {p p' : Block} (h : p'.map codeOf = p.map codeOf) : toBcd p' = toBcd p := by
  have hget (i : Nat) : (p'[i]?).map codeOf = (p[i]?).map codeOf := by
    rw [← List.getElem?_map, h, List.getElem?_map]
  have hcode (q : Block) : toBcd q =
      ((q[0]?).map codeOf).bind fun a => ((q[1]?).map codeOf).map fun d => a * 16 + d := by
    unfold toBcd codeOf
    cases q[0]? with
    | none => rfl
    | some a => cases q[1]? <;> rfl
  rw [hcode, hcode, hget, hget]

theorem toBcdLoop_congr {tmp tmp' : Block} (h : tmp'.map codeOf = tmp.map codeOf) (k i : Nat)
    (out : Block) : toBcdLoop tmp' k i out = toBcdLoop tmp k i out := by
  induction k generalizing i out with
  | zero => rfl
  | succ k ih =>
    have hdrop : (tmp'.drop (2 * i)).map codeOf = (tmp.drop (2 * i)).map codeOf := by
      rw [List.map_drop, h, List.map_drop]
    rw [toBcdLoop, toBcdLoop, toBcd_congr hdrop]
    simp only [ih]

theorem ascToBcdAt_congr (place : Nat → Nat → Nat) (malloc : Malloc) (out : Block) {a a' : Block}
    {n : Nat} (h : (a'.take n).map codeOf = (a.take n).map codeOf) (hlen : a'.length = a.length) :
    ascToBcdAt place malloc out a' n = ascToBcdAt place malloc out a n := by
  have hsplice (dst : Block) (off : Nat) :
      (splice dst off (a'.take n)).map codeOf = (splice dst off (a.take n)).map codeOf := by
    simp only [splice, List.map_append, h, List.length_take, hlen]
  unfold ascToBcdAt
  split
  · rfl
  · cases hm : malloc ((n + 1) / 2 * 2 + 1) with
    | none => simp only [hm]
    | some tmp =>
      cases htmp : memset tmp 48 ((n + 1) / 2 * 2) with
      | none => simp only [hm, htmp, Option.bind_eq_bind, Option.bind_none]
      | some tmp =>
        simp only [hm, htmp, Option.bind_eq_bind, Option.bind_some, memcpy, hlen]
        split
        · rw [Option.bind_some, Option.bind_some, toBcdLoop_congr (hsplice _ _)]
        · rfl

/-- However often a string is converted to upper and to lower case, `asc_to_bcd` stores the
same bytes for it, and if it has only hexadecimal digits so do `ascToBcd` and
`ascToBcdLeft`. -/
theorem caseCalls_encode {fs : List (Block → Option Block)}
    (hfs : ∀ f ∈ fs, f = str2upper ∨ f = str2lower) {b : Block} {s : List UInt8}
    (h : Holds b s) : ∃ b', callAll fs b = some b' ∧
      (∀ out n type, asc_to_bcd out b' n type = asc_to_bcd out b n type) ∧
      ((∀ c ∈ s, IsHex c) → ∀ malloc out n, n ≤ s.length →
        ascToBcd malloc out b' n = ascToBcd malloc out b n ∧
        ascToBcdLeft malloc out b' n = ascToBcdLeft malloc out b n) := by
  obtain ⟨b', hcalls, hsame⟩ := caseCalls_sameLetters hfs h
  refine ⟨b', hcalls, fun out n type => hsame.asc_to_bcd_loop n _ 0 out, ?_⟩
  intro hs malloc out n hn
  have hcode : (b'.take n).map codeOf = (b.take n).map codeOf := by
    refine (hsame.take n).map_codeOf ?_
    rw [h.take hn]
    exact fun c hc => hs c (List.mem_of_mem_take hc)
  exact ⟨ascToBcdAt_congr _ malloc out hcode hsame.length,
    ascToBcdAt_congr _ malloc out hcode hsame.length⟩

/-- `1a` in upper case and in lower case again. -/
theorem caseCalls_encode_1a : ∃ b', callAll [str2upper, str2lower] [49, 97, 0] = some b' ∧
    ascToBcd zeroMalloc [0] b' 2 = ascToBcd zeroMalloc [0] [49, 97, 0] 2 := by
  have hcalls : ∀ f ∈ [str2upper, str2lower], f = str2upper ∨ f = str2lower := by
    intro f hf
    simpa using hf
  have hheld : Holds [49, 97, 0] [49, 97] := ⟨by decide, [], rfl⟩
  obtain ⟨b', hb', -, hbcd⟩ := caseCalls_encode hcalls hheld
  exact ⟨b', hb', (hbcd (isHex_of_all rfl) zeroMalloc [0] 2 (by decide)).1⟩

end Netepoll
