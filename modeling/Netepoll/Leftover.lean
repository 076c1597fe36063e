import Netepoll.Frame
import Netepoll.Registration

/-! What a finished frame leaves in the buffer. `mytask` clears the length and the first
byte, and `testpacket` reads two bytes. The verdict about the next frame is a function of
its own bytes as long as no task finishes on a slot whose second byte is a negative
`char`. -/

namespace Netepoll

/-- The callbacks as in `callbackStep`, and whole executions of `mytask`. -/
def wholeTaskStep (b : Boot) (s : Server) : Action → Option Server
  | .acceptconnect o => callbackStep b s (.acceptconnect o)
  | .recvdata i o => callbackStep b s (.recvdata i o)
  | .mytask n => mytask s n

/-- The step finishes no task on a slot whose second byte is negative as a `char`. -/
def KeepsLow (s : Server) : Action → Prop
  | .mytask n => ∀ t ∈ s.tasks[n]?, ((s.epEvents t.arg).mRcvBuf 1).toNat < 128
  | _ => True

instance KeepsLow.decidable (s : Server) : (a : Action) → Decidable (KeepsLow s a)
  | .acceptconnect _ => isTrue trivial
  | .recvdata _ _ => isTrue trivial
  | .mytask n => inferInstanceAs
      (Decidable (∀ t ∈ s.tasks[n]?, ((s.epEvents t.arg).mRcvBuf 1).toNat < 128))

/-- Each slot holds its received bytes, and its header bytes still to come are harmless. -/
def AllBuffered (s : Server) : Prop :=
  ∀ i, Buffered (s.epEvents i) (rcvBytes (s.epEvents i))

theorem Buffered.congr {ev ev' : MyEvents} {got : List UInt8} (h : Buffered ev got)
    (hb : ev'.mRcvBuf = ev.mRcvBuf) (hl : ev'.mRcvBufLen = ev.mRcvBufLen) :
    Buffered ev' got := by
  refine ⟨hl.trans h.len, ?_, fun hg => ?_, fun hg => ?_⟩
  · rw [rcvBytes, hb, hl]
    exact h.bytes
  · rw [hb]; exact h.head hg
  · rw [hb]; exact h.low hg

theorem Buffered.self {ev : MyEvents} {got : List UInt8} (h : Buffered ev got) :
    Buffered ev (rcvBytes ev) := by
  rw [h.bytes]
  exact h

/-- A step that fills one slot with something buffered. -/
theorem AllBuffered.setSlot {s s' : Server} (h : AllBuffered s) {i : SlotIx} {ev : MyEvents}
    {got : List UInt8} (hev : Buffered ev got)
    (he : s'.epEvents = Function.update s.epEvents i ev) : AllBuffered s' := by
  intro j
  rw [he]
  by_cases hj : j = i
  · subst hj
    rw [Function.update_self]
    exact hev.self
  · rw [Function.update_of_ne hj]
    exact h j

theorem allBuffered_start (b : Boot) : AllBuffered b.start := by
  have hzero : AllBuffered ⟨fun _ => MyEvents.zero, b.kernel, []⟩ :=
    fun _ => (buffered_of_zero rfl rfl).self
  have hlisten (st : Nat) : Buffered { listenEvents b with mStatus := st } [] :=
    buffered_of_zero rfl rfl
  rw [start_eq]
  split
  · exact hzero.setSlot (hlisten 1) rfl
  · exact hzero.setSlot (hlisten 0) rfl

theorem allBuffered_acceptconnect {s s' : Server} {listenFd : Nat} {o : AcceptOutcome}
    (h : AllBuffered s) (hs : acceptconnect s listenFd o = some s') : AllBuffered s' := by
  cases acceptconnect_cases hs with
  | failed => exact h
  | dropped => exact h
  | leaked fd i =>
    have hslot : Buffered { acceptedSlot i fd with mEvent := EPOLLIN } [] :=
      buffered_of_zero rfl rfl
    exact h.setSlot hslot rfl
  | served fd i =>
    have hslot : Buffered (servedSlot i fd) [] := buffered_of_zero rfl rfl
    exact h.setSlot hslot rfl

theorem allBuffered_recvdata {s s' : Server} {i : SlotIx} {o : RecvOutcome}
    (h : AllBuffered s) (hi : (s.epEvents i).mStatus = 1)
    (hs : recvdata s (s.epEvents i).mFd i o = some s') : AllBuffered s' := by
  cases recvdata_cases hi hs with
  | kept bs => exact h.setSlot ((h i).received bs) rfl
  | queued bs => exact h.setSlot ((h i).received bs) rfl
  | closed ev hev =>
    have hclose {got : List UInt8} (hb : Buffered ev got) :
        Buffered { ev with mStatus := 0 } got := hb.congr rfl rfl
    rcases hev with ⟨rfl, -⟩ | ⟨bs, rfl, -, -⟩
    · exact h.setSlot (hclose (h i)) rfl
    · exact h.setSlot (hclose ((h i).received bs)) rfl

theorem allBuffered_step {b : Boot} {s s' : Server} {a : Action} (h : AllBuffered s)
    (hk : KeepsLow s a) (hs : wholeTaskStep b s a = some s') : AllBuffered s' := by
  cases a with
  | acceptconnect o => exact allBuffered_acceptconnect h hs
  | recvdata i o =>
    simp only [wholeTaskStep, callbackStep] at hs
    split at hs
    · rename_i hi
      exact allBuffered_recvdata h hi.1 hs
    · cases hs
  | mytask n =>
    obtain ⟨t, ht, rfl⟩ := mytask_eq_some hs
    exact h.setSlot (buffered_mytaskResets (hk t ht)) rfl

theorem allBuffered_run {b : Boot} {s : Server} {as : List Action}
    (hc : Transition.Along (wholeTaskStep b) KeepsLow b.start as)
    (hr : Transition.run (wholeTaskStep b) b.start as = some s) : AllBuffered s :=
  Transition.along_invariant (fun _ _ _ h hk hs => allBuffered_step h hk hs)
    (allBuffered_start b) hc hr

/-- Two slots that agree on the received bytes get the same verdict, and with less than
a header no frame is complete. -/
theorem verdict_of_received {b b' : Boot} {s s' : Server} {as as' : List Action}
    (hc : Transition.Along (wholeTaskStep b) KeepsLow b.start as)
    (hr : Transition.run (wholeTaskStep b) b.start as = some s)
    (hc' : Transition.Along (wholeTaskStep b') KeepsLow b'.start as')
    (hr' : Transition.run (wholeTaskStep b') b'.start as' = some s') :
    ∀ i i', (s.epEvents i).mRcvBufLen = (s'.epEvents i').mRcvBufLen →
      rcvBytes (s.epEvents i) = rcvBytes (s'.epEvents i') →
      testpacket (s.epEvents i) = testpacket (s'.epEvents i') ∧
        ((s.epEvents i).mRcvBufLen < 2 → testpacket (s.epEvents i) ≠ .dataComplete) := by
  intro i i' _ hbytes
  have h := allBuffered_run hc hr i
  have h' := allBuffered_run hc' hr' i'
  rw [← hbytes] at h'
  refine ⟨h.verdict_congr h', fun hl => ?_⟩
  have hshort : (rcvBytes (s.epEvents i)).length < 2 := by
    have := h.len
    omega
  rw [h.verdict_short hshort]
  split <;> simp

/-- A connection whose first frame was echoed, and the first byte of its next frame. -/
def nextFrameRun : List Action :=
  [.acceptconnect ⟨some 5, true, true⟩, .recvdata 0 ⟨.data [0, 1, 65], true⟩, .mytask 0,
   .recvdata 0 ⟨.data [0], true⟩]

/-- A connection that has sent the first byte of its first frame. -/
def firstByteRun : List Action :=
  [.acceptconnect ⟨some 5, true, true⟩, .recvdata 0 ⟨.data [0], true⟩]

theorem verdict_of_received_nextFrameRun :
    ∃ s s', Transition.run (wholeTaskStep plainBoot) plainBoot.start nextFrameRun = some s ∧
      Transition.run (wholeTaskStep plainBoot) plainBoot.start firstByteRun = some s' ∧
      testpacket (s.epEvents 0) = testpacket (s'.epEvents 0) := by
  have hc : Transition.Along (wholeTaskStep plainBoot) KeepsLow plainBoot.start nextFrameRun := by
    decide
  have hc' : Transition.Along (wholeTaskStep plainBoot) KeepsLow plainBoot.start
    firstByteRun := by decide
  have e : (Transition.run (wholeTaskStep plainBoot) plainBoot.start nextFrameRun).map
      (fun s => ((s.epEvents 0).mRcvBufLen, rcvBytes (s.epEvents 0))) = some (1, [0]) := by
    decide
  have e' : (Transition.run (wholeTaskStep plainBoot) plainBoot.start firstByteRun).map
      (fun s => ((s.epEvents 0).mRcvBufLen, rcvBytes (s.epEvents 0))) = some (1, [0]) := by
    decide
  obtain ⟨s, hs, e⟩ := Option.map_eq_some_iff.mp e
  obtain ⟨s', hs', e'⟩ := Option.map_eq_some_iff.mp e'
  rw [Prod.mk.injEq] at e e'
  refine ⟨s, s', hs, hs', ?_⟩
  exact (verdict_of_received hc hs hc' hs' 0 0 (by rw [e.1, e'.1]) (by rw [e.2, e'.2])).1

/-- As `nextFrameRun`, but the first frame has the header `1, 255` and 255 bytes. -/
def staleRun : List Action :=
  [.acceptconnect ⟨some 5, true, true⟩,
   .recvdata 0 ⟨.data (1 :: 255 :: List.replicate 255 65), true⟩, .mytask 0,
   .recvdata 0 ⟨.data [0], true⟩]

set_option maxRecDepth 4000 in
theorem not_verdict_staleRun :
    ¬ ∀ (b : Boot) (as as' : List Action) (s s' : Server) (i i' : SlotIx),
      Transition.run (wholeTaskStep b) b.start as = some s →
      Transition.run (wholeTaskStep b) b.start as' = some s' →
      (s.epEvents i).mRcvBufLen = (s'.epEvents i').mRcvBufLen →
      rcvBytes (s.epEvents i) = rcvBytes (s'.epEvents i') →
      testpacket (s.epEvents i) = testpacket (s'.epEvents i') := by
  intro h
  have e : (Transition.run (wholeTaskStep plainBoot) plainBoot.start staleRun).map
      (fun s => ((s.epEvents 0).mRcvBufLen, rcvBytes (s.epEvents 0), testpacket (s.epEvents 0))) =
      some (1, [0], .dataComplete) := by decide
  have e' : (Transition.run (wholeTaskStep plainBoot) plainBoot.start firstByteRun).map
      (fun s => ((s.epEvents 0).mRcvBufLen, rcvBytes (s.epEvents 0), testpacket (s.epEvents 0))) =
      some (1, [0], .dataContinue) := by decide
  obtain ⟨s, hs, e⟩ := Option.map_eq_some_iff.mp e
  obtain ⟨s', hs', e'⟩ := Option.map_eq_some_iff.mp e'
  simp only [Prod.mk.injEq] at e e'
  have hsame := h _ _ _ s s' 0 0 hs hs' (by rw [e.1, e'.1]) (by rw [e.2.1, e'.2.1])
  rw [e.2.2, e'.2.2] at hsame
  cases hsame

end Netepoll
