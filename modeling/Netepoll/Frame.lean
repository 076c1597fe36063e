import Netepoll.Slot

/-! Frames on the wire: a two-byte length, high byte first, and the payload. What
`testpacket` answers about a slot whose buffer holds the beginning of a frame, and when
the answer does not depend on what earlier frames left behind. -/

namespace Netepoll

open Memory

/-- The header `N/256, N%256` and the payload of `N` bytes. -/
def frameOf (payload : List UInt8) : List UInt8 :=
  UInt8.ofNat (payload.length / 256) :: UInt8.ofNat (payload.length % 256) :: payload

@[simp] theorem frameOf_length (p : List UInt8) : (frameOf p).length = p.length + 2 := rfl

/-- What `testpacket` computes from two header bytes. -/
def headerLen (h l : UInt8) : Int := schar h * 256 + schar l

/-- The comparison of `testpacket`. -/
def verdict (len rcvLen : Int) : DataRet :=
  if len = rcvLen - 2 then .dataComplete
  else if len < rcvLen - 2 then .dataError
  else .dataContinue

theorem testpacket_eq (ev : MyEvents) :
    testpacket ev = verdict (headerLen (ev.mRcvBuf 0) (ev.mRcvBuf 1)) ev.mRcvBufLen := rfl

theorem verdict_complete {len rcvLen : Int} :
    verdict len rcvLen = .dataComplete ↔ len = rcvLen - 2 := by
  unfold verdict
  split
  · rename_i h; simp [h]
  · rename_i h
    split <;> simp [h]

theorem verdict_error {len rcvLen : Int} :
    verdict len rcvLen = .dataError ↔ len < rcvLen - 2 := by
  unfold verdict
  split
  · rename_i h; simp [h]
  · split
    · rename_i h; simp [h]
    · rename_i h; simp [h]

theorem verdict_continue {len rcvLen : Int} :
    verdict len rcvLen = .dataContinue ↔ rcvLen - 2 < len := by
  unfold verdict
  split
  · rename_i h; simp [h]
  · split
    · rename_i h; simp only [reduceCtorEq, false_iff]; omega
    · simp only [true_iff]; omega

/-- The header of a frame is read back as its payload length, less 256 when the low byte
is negative as a `char`. -/
theorem headerLen_ofNat {n : Nat} (h : n < 32768) :
    headerLen (UInt8.ofNat (n / 256)) (UInt8.ofNat (n % 256)) =
      if n % 256 < 128 then (n : Int) else (n : Int) - 256 := by
  have hh : (UInt8.ofNat (n / 256)).toNat = n / 256 := by
    rw [UInt8.toNat_ofNat']; omega
  have hl : (UInt8.ofNat (n % 256)).toNat = n % 256 := by
    rw [UInt8.toNat_ofNat']; omega
  rw [headerLen, schar_eq, schar_eq, hh, hl]
  split <;> split <;> omega

/-! ## A slot that holds the beginning of a frame -/

/-- The slot holds exactly the bytes `got` of a frame, and header bytes that are still to
come read as what `memset` or a task on a slot with a small second byte left. -/
structure Buffered (ev : MyEvents) (got : List UInt8) : Prop where
  len : ev.mRcvBufLen = got.length
  bytes : rcvBytes ev = got
  head : got = [] → ev.mRcvBuf 0 = 0
  low : got.length < 2 → (ev.mRcvBuf 1).toNat < 128

theorem Buffered.get {ev : MyEvents} {got : List UInt8} (h : Buffered ev got) {k : Nat}
    (hk : k < got.length) : ev.mRcvBuf k = got[k] :=
  mRcvBuf_of_rcvBytes h.bytes hk

/-- A zeroed buffer is an empty one. -/
theorem buffered_of_zero {ev : MyEvents} (hb : ev.mRcvBuf = fun _ => 0)
    (hl : ev.mRcvBufLen = 0) : Buffered ev [] := by
  refine ⟨by simpa using hl, by simp [rcvBytes, hl], fun _ => by simp [hb], fun _ => ?_⟩
  simp [hb]

theorem Buffered.received {ev : MyEvents} {got : List UInt8} (h : Buffered ev got)
    (bs : List UInt8) : Buffered (received ev bs) (got ++ bs) := by
  have hnat : ev.mRcvBufLen.toNat = got.length := by rw [h.len]; rfl
  refine ⟨?_, ?_, fun he => ?_, fun hl => ?_⟩
  · simp [h.len]
  · rw [rcvBytes_received ev bs (by rw [h.len]; omega), h.bytes]
  · rw [List.append_eq_nil_iff] at he
    obtain ⟨rfl, rfl⟩ := he
    simpa using h.head rfl
  · rw [List.length_append] at hl
    rw [received_mRcvBuf, hnat, store_outside _ (by omega)]
    exact h.low (by omega)

/-- A finished task leaves an empty buffer, whose second byte is the old one. -/
theorem buffered_mytaskResets {ev : MyEvents} (h : (ev.mRcvBuf 1).toNat < 128) :
    Buffered (mytaskResets ev) [] :=
  ⟨rfl, rfl, fun _ => rfl, fun _ => h⟩

/-- While the header is incomplete the leftovers do not matter. -/
theorem Buffered.verdict_short {ev : MyEvents} {got : List UInt8} (h : Buffered ev got)
    (hg : got.length < 2) :
    testpacket ev = if ∃ b ∈ got, 128 ≤ b.toNat then .dataError else .dataContinue := by
  have hl := schar_of_lt (h.low hg)
  rw [testpacket_eq, h.len, headerLen, hl]
  match got, hg with
  | [], _ =>
    rw [h.head rfl, if_neg (by simp), verdict_continue, schar_of_lt (by decide)]
    simp only [List.length_nil]
    omega
  | [b], _ =>
    have hb : ev.mRcvBuf 0 = b := h.get (by simp)
    have hlt := h.low (by simp)
    have hbt : b.toNat < 256 := b.toNat_lt
    rw [hb, schar_eq]
    by_cases hn : b.toNat < 128
    · rw [if_pos hn, if_neg (by simpa using hn), verdict_continue]
      simp only [List.length_cons, List.length_nil]
      omega
    · rw [if_neg hn, if_pos (by simpa using hn), verdict_error]
      simp only [List.length_cons, List.length_nil]
      omega

/-- With the header there the verdict is about the received bytes. -/
theorem Buffered.verdict_long {ev : MyEvents} {h l : UInt8} {rest : List UInt8}
    (hb : Buffered ev (h :: l :: rest)) :
    testpacket ev = verdict (headerLen h l) ((rest.length : Int) + 2) := by
  have h0 : ev.mRcvBuf 0 = h := hb.get (by simp)
  have h1 : ev.mRcvBuf 1 = l := hb.get (by simp)
  rw [testpacket_eq, h0, h1, hb.len]
  congr 1

/-- The verdict is a function of the received bytes. -/
theorem Buffered.verdict_congr {ev ev' : MyEvents} {got : List UInt8} (h : Buffered ev got)
    (h' : Buffered ev' got) : testpacket ev = testpacket ev' := by
  by_cases hg : got.length < 2
  · rw [h.verdict_short hg, h'.verdict_short hg]
  · match got, hg with
    | [], hg => simp at hg
    | [_], hg => simp at hg
    | _ :: _ :: _, _ => rw [h.verdict_long, h'.verdict_long]

/-- A frame whose low length byte is a non-negative `char` is recognised: not before its
last byte, at its last byte, and with any byte after it as too long. -/
theorem Buffered.verdict_frame {ev : MyEvents} {got p : List UInt8} (h : Buffered ev got)
    (hp : p.length < 32768) (hl : p.length % 256 < 128) {rest : List UInt8}
    (hg : got ++ rest = frameOf p) :
    testpacket ev = if rest = [] then .dataComplete else .dataContinue := by
  have hlen : got.length + rest.length = p.length + 2 := by
    rw [← List.length_append, hg, frameOf_length]
  match got, hg with
  | [], hg =>
    have hr : rest ≠ [] := by rintro rfl; simp [frameOf] at hg
    rw [h.verdict_short (by simp), if_neg (by simp), if_neg hr]
  | [b], hg =>
    have hr : rest ≠ [] := by rintro rfl; simp [frameOf] at hg
    obtain ⟨rfl, -⟩ := List.cons.inj hg
    have hb : (UInt8.ofNat (p.length / 256)).toNat < 128 := by
      rw [UInt8.toNat_ofNat']; omega
    rw [h.verdict_short (by simp), if_neg (by simpa using hb), if_neg hr]
  | b :: l :: more, hg =>
    obtain ⟨rfl, htail⟩ := List.cons.inj hg
    obtain ⟨rfl, -⟩ := List.cons.inj htail
    rw [h.verdict_long, headerLen_ofNat hp, if_pos hl]
    simp only [List.length_cons] at hlen
    split
    · rename_i hr
      subst hr
      rw [verdict_complete]
      simp only [List.length_nil] at hlen
      omega
    · rename_i hr
      have := List.length_pos_iff.mpr hr
      rw [verdict_continue]
      omega

/-- Bytes after the end of a frame are an error. -/
theorem Buffered.verdict_excess {ev : MyEvents} {p extra : List UInt8}
    (h : Buffered ev (frameOf p ++ extra)) (hp : p.length < 32768) (he : extra ≠ []) :
    testpacket ev = .dataError := by
  have hx := List.length_pos_iff.mpr he
  have hb : Buffered ev (UInt8.ofNat (p.length / 256) :: UInt8.ofNat (p.length % 256) ::
    (p ++ extra)) := h
  rw [hb.verdict_long, headerLen_ofNat hp, verdict_error, List.length_append]
  split <;> omega

end Netepoll
