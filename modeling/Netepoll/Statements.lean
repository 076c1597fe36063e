import Netepoll.Frame
import Netepoll.Registration

/-! The server statement by statement. Between two statements of `recvdata` any
statement of any task may run. Every callback of the coarse step function is a run of
these steps, and no order of them drives `m_rcv_buf_len` out of the buffer. -/

namespace Netepoll

open Memory

/-- Where the event loop stands: between two callbacks, or in `recvdata` on a slot. -/
inductive LoopPc where
  | idle
  /-- `recv` has returned `len` -/
  | received (i : SlotIx) (len : Nat)
  /-- `m_rcv_buf_len += len` is done -/
  | counted (i : SlotIx)
  /-- in `testpacket`: `len` is computed from the header -/
  | header (i : SlotIx) (len : Int)
  /-- in `testpacket`: `len` was not `m_rcv_buf_len - 2` -/
  | unequal (i : SlotIx) (len : Int)
  /-- `testpacket` has returned -/
  | tested (i : SlotIx) (ret : DataRet)
  deriving DecidableEq

structure Fine where
  server : Server
  pc : LoopPc

inductive FineAction where
  | acceptconnect (o : AcceptOutcome)
  | recv (i : SlotIx) (r : RecvResult)
  /-- the next statement of `recvdata`; `addOk` matters at `threadpool_add` only -/
  | loop (addOk : Bool)
  | mytask (n : Nat)
  deriving DecidableEq

/-- The first statement of `recvdata`. The branches for 0 and -1 end the callback. -/
def recvStatement (s : Server) (i : SlotIx) : RecvResult → Option Fine
  | .data bs =>
    if bs = [] ∨ recvRoom (s.epEvents i) < bs.length then none
    else some ⟨s.setSlot i (recvStore (s.epEvents i) bs), .received i bs.length⟩
  | .peerClosed => some ⟨closeAndDel s i, .idle⟩
  | .error => some ⟨closeAndDel s i, .idle⟩

/-- The statements after a `recv` that returned data. -/
def loopStatement (s : Server) (addOk : Bool) : LoopPc → Option Fine
  | .idle => none
  | .received i len => some ⟨s.setSlot i (addLen (s.epEvents i) len), .counted i⟩
  | .counted i =>
    some ⟨s, .header i (headerLen ((s.epEvents i).mRcvBuf 0) ((s.epEvents i).mRcvBuf 1))⟩
  | .header i len =>
    if len = (s.epEvents i).mRcvBufLen - 2 then some ⟨s, .tested i .dataComplete⟩
    else some ⟨s, .unequal i len⟩
  | .unequal i len =>
    if len < (s.epEvents i).mRcvBufLen - 2 then some ⟨s, .tested i .dataError⟩
    else some ⟨s, .tested i .dataContinue⟩
  | .tested i ret => some ⟨recvdataBranch s (s.epEvents i).mFd i ret addOk, .idle⟩

def fineStep (b : Boot) (x : Fine) : FineAction → Option Fine
  | .acceptconnect o =>
    if x.pc = .idle then (acceptconnect x.server b.listenFd o).map fun s => ⟨s, .idle⟩
    else none
  | .recv i r =>
    if x.pc = .idle ∧ (x.server.epEvents i).mStatus = 1 ∧
        (x.server.epEvents i).callBack = some .recvdata then
      recvStatement x.server i r
    else none
  | .loop addOk => loopStatement x.server addOk x.pc
  | .mytask n => (mytaskStep x.server n).map fun s => { x with server := s }

def Fine.start (b : Boot) : Fine := ⟨b.start, .idle⟩

/-! ## Callbacks are runs of statements -/

/-- `testpacket` and the branch after it, without a task statement in between. -/
theorem run_testpacket (b : Boot) (s : Server) (i : SlotIx) (addOk : Bool) :
    ∃ as, Transition.run (fineStep b) ⟨s, .counted i⟩ as =
      some ⟨recvdataBranch s (s.epEvents i).mFd i (testpacket (s.epEvents i)) addOk, .idle⟩ := by
  by_cases heq : headerLen ((s.epEvents i).mRcvBuf 0) ((s.epEvents i).mRcvBuf 1) =
      (s.epEvents i).mRcvBufLen - 2
  · have ht : testpacket (s.epEvents i) = .dataComplete := verdict_complete.mpr heq
    refine ⟨[.loop addOk, .loop addOk, .loop addOk], ?_⟩
    simp [Transition.run, fineStep, loopStatement, heq, ht]
  · refine ⟨[.loop addOk, .loop addOk, .loop addOk, .loop addOk], ?_⟩
    by_cases hlt : headerLen ((s.epEvents i).mRcvBuf 0) ((s.epEvents i).mRcvBuf 1) <
        (s.epEvents i).mRcvBufLen - 2
    · have ht : testpacket (s.epEvents i) = .dataError := verdict_error.mpr hlt
      simp [Transition.run, fineStep, loopStatement, heq, hlt, ht]
    · have ht : testpacket (s.epEvents i) = .dataContinue := by
        rw [testpacket_eq, verdict_continue]
        omega
      simp [Transition.run, fineStep, loopStatement, heq, hlt, ht]

theorem run_of_callbackStep {b : Boot} {s s' : Server} {a : Action}
    (h : callbackStep b s a = some s') :
    ∃ as, Transition.run (fineStep b) ⟨s, .idle⟩ as = some ⟨s', .idle⟩ := by
  cases a with
  | acceptconnect o =>
    have hs : acceptconnect s b.listenFd o = some s' := h
    exact ⟨[.acceptconnect o], by simp [Transition.run, fineStep, hs]⟩
  | mytask n =>
    have hs : mytaskStep s n = some s' := h
    exact ⟨[.mytask n], by simp [Transition.run, fineStep, hs]⟩
  | recvdata i o =>
    simp only [callbackStep] at h
    split at h
    · rename_i hi
      have hrecv : fineStep b ⟨s, .idle⟩ (.recv i o.recv) = recvStatement s i o.recv := by
        simp [fineStep, hi]
      unfold recvdata at h
      cases hr : o.recv with
      | data bs =>
        simp only [hr] at h
        split at h
        · cases h
        · rename_i hb
          simp only [Server.setSlot_epEvents, Function.update_self, Option.some.injEq] at h
          have h1 : fineStep b ⟨s, .idle⟩ (.recv i o.recv) =
              some ⟨s.setSlot i (recvStore (s.epEvents i) bs), .received i bs.length⟩ := by
            rw [hrecv, hr, recvStatement, if_neg hb]
          have h2 : fineStep b ⟨s.setSlot i (recvStore (s.epEvents i) bs),
              .received i bs.length⟩ (.loop o.addOk) =
              some ⟨s.setSlot i (received (s.epEvents i) bs), .counted i⟩ := by
            simp [fineStep, loopStatement, Server.setSlot, Function.update_idem, received]
          obtain ⟨as, has⟩ := run_testpacket b (s.setSlot i (received (s.epEvents i) bs)) i o.addOk
          refine ⟨.recv i o.recv :: .loop o.addOk :: as, ?_⟩
          refine Transition.run_cons_eq_some.mpr ⟨_, h1, ?_⟩
          refine Transition.run_cons_eq_some.mpr ⟨_, h2, ?_⟩
          rw [has, ← h]
          simp [received, addLen, recvStore]
      | peerClosed =>
        simp only [hr, Option.some.injEq] at h
        refine ⟨[.recv i o.recv], ?_⟩
        rw [Transition.run, hrecv, hr, ← h]
        rfl
      | error =>
        simp only [hr, Option.some.injEq] at h
        refine ⟨[.recv i o.recv], ?_⟩
        rw [Transition.run, hrecv, hr, ← h]
        rfl
    · cases h

/-- Every run of whole callbacks is a run of statements. -/
theorem callbacks_refine_statements {b : Boot} {s : Server} {as : List Action}
    (h : Transition.run (callbackStep b) b.start as = some s) :
    ∃ cs, Transition.run (fineStep b) (Fine.start b) cs = some ⟨s, .idle⟩ := by
  have hsim : ∀ (s : Server) (a : Action) (s' : Server) (x : Fine), x = ⟨s, .idle⟩ →
      callbackStep b s a = some s' →
      ∃ cs x', Transition.run (fineStep b) x cs = some x' ∧ x' = ⟨s', .idle⟩ := by
    rintro s a s' x rfl hs
    obtain ⟨cs, hcs⟩ := run_of_callbackStep hs
    exact ⟨cs, _, hcs, rfl⟩
  obtain ⟨cs, x, hcs, rfl⟩ := Transition.run_simulation hsim (t := Fine.start b) rfl h
  exact ⟨cs, hcs⟩

/-! ## Bounds of the receive buffer -/

/-- The length argument of `send`, an `int` converted to `size_t`. -/
def sendSize (ev : MyEvents) : Nat := toSize ev.mRcvBufLen

/-- The length is inside the buffer, and nothing was ever stored outside. -/
structure InBuffer (ev : MyEvents) : Prop where
  nonneg : 0 ≤ ev.mRcvBufLen
  le : ev.mRcvBufLen ≤ BUFSIZ
  outside : ∀ k, BUFSIZ ≤ k → ev.mRcvBuf k = 0

theorem InBuffer.congr {ev ev' : MyEvents} (h : InBuffer ev) (hb : ev'.mRcvBuf = ev.mRcvBuf)
    (hl : ev'.mRcvBufLen = ev.mRcvBufLen) : InBuffer ev' :=
  ⟨hl ▸ h.nonneg, hl ▸ h.le, fun k hk => by rw [hb]; exact h.outside k hk⟩

theorem inBuffer_of_zero {ev : MyEvents} (hb : ev.mRcvBuf = fun _ => 0)
    (hl : ev.mRcvBufLen = 0) : InBuffer ev :=
  ⟨by omega, by rw [hl]; exact Int.natCast_nonneg _, fun k _ => by rw [hb]⟩

theorem InBuffer.recvStore {ev : MyEvents} (h : InBuffer ev) {bs : List UInt8}
    (hb : ev.mRcvBufLen + bs.length ≤ BUFSIZ) : InBuffer (recvStore ev bs) := by
  refine ⟨h.nonneg, h.le, fun k hk => ?_⟩
  have := h.nonneg
  simp only [Netepoll.recvStore]
  rw [store_outside _ (Or.inr (by omega))]
  exact h.outside k hk

theorem InBuffer.addLen {ev : MyEvents} (h : InBuffer ev) {n : Nat}
    (hn : ev.mRcvBufLen + n ≤ BUFSIZ) : InBuffer (addLen ev n) := by
  have := h.nonneg
  exact ⟨by simp only [addLen_mRcvBufLen]; omega, hn, h.outside⟩

theorem InBuffer.clearLen {ev : MyEvents} (h : InBuffer ev) : InBuffer (clearLen ev) :=
  ⟨Int.le_refl 0, Int.natCast_nonneg _, h.outside⟩

theorem InBuffer.clearHead {ev : MyEvents} (h : InBuffer ev) : InBuffer (clearHead ev) := by
  refine ⟨h.nonneg, h.le, fun k hk => ?_⟩
  simp only [Netepoll.clearHead]
  rw [store_outside _ (Or.inr ?_)]
  · exact h.outside k hk
  · simp only [BUFSIZ, List.length_singleton] at *
    omega

/-- What `recv` is told of the buffer is the room that is left. -/
theorem InBuffer.room {ev : MyEvents} (h : InBuffer ev) :
    (recvRoom ev : Int) = BUFSIZ - ev.mRcvBufLen := recvRoom_eq h.nonneg h.le

theorem InBuffer.sendSize {ev : MyEvents} (h : InBuffer ev) :
    (sendSize ev : Int) = ev.mRcvBufLen := by
  have h0 := h.nonneg
  have h1 := h.le
  simp only [Netepoll.sendSize, toSize, BUFSIZ] at *
  omega

/-- All slots are in order, and the bytes `recv` has stored but not yet counted fit. A
task can only make the length smaller, so they still fit when they are counted. -/
structure InBounds (x : Fine) : Prop where
  slots : ∀ i, InBuffer (x.server.epEvents i)
  counted : ∀ i n, x.pc = .received i n → (x.server.epEvents i).mRcvBufLen + n ≤ BUFSIZ

/-- An update of one slot by one that is in order. -/
theorem inBuffer_update {t : SlotIx → MyEvents} (h : ∀ i, InBuffer (t i)) {i : SlotIx}
    {ev : MyEvents} (hev : InBuffer ev) : ∀ j, InBuffer (Function.update t i ev j) := by
  intro j
  by_cases hj : j = i
  · rw [hj, Function.update_self]; exact hev
  · rw [Function.update_of_ne hj]; exact h j

theorem inBuffer_closeAndDel {s : Server} (h : ∀ i, InBuffer (s.epEvents i)) (i : SlotIx) :
    ∀ j, InBuffer ((closeAndDel s i).epEvents j) := by
  unfold closeAndDel eventdel
  split
  · exact h
  · exact inBuffer_update h ((h i).congr rfl rfl)

theorem inBuffer_recvdataBranch {s : Server} (h : ∀ i, InBuffer (s.epEvents i)) (fd : Nat)
    (i : SlotIx) (ret : DataRet) (addOk : Bool) :
    ∀ j, InBuffer ((recvdataBranch s fd i ret addOk).epEvents j) := by
  cases ret with
  | dataComplete =>
    simp only [recvdataBranch]
    split
    · exact h
    · exact inBuffer_closeAndDel h i
  | dataError => exact inBuffer_closeAndDel h i
  | dataContinue => exact h

theorem inBuffer_acceptconnect {s s' : Server} {listenFd : Nat} {o : AcceptOutcome}
    (h : ∀ i, InBuffer (s.epEvents i)) (hs : acceptconnect s listenFd o = some s') :
    ∀ i, InBuffer (s'.epEvents i) := by
  cases acceptconnect_cases hs with
  | failed => exact h
  | dropped => exact h
  | leaked => exact inBuffer_update h (inBuffer_of_zero rfl rfl)
  | served => exact inBuffer_update h (inBuffer_of_zero rfl rfl)

theorem inBounds_start (b : Boot) : InBounds (Fine.start b) := by
  refine ⟨?_, fun i n hpc => by cases hpc⟩
  have hzero : ∀ _ : SlotIx, InBuffer MyEvents.zero := fun _ => inBuffer_of_zero rfl rfl
  simp only [Fine.start]
  rw [start_eq]
  split <;> exact inBuffer_update hzero (inBuffer_of_zero rfl rfl)

theorem inBounds_recv {s : Server} {i : SlotIx} {r : RecvResult} {x : Fine}
    (h : ∀ i, InBuffer (s.epEvents i)) (hs : recvStatement s i r = some x) : InBounds x := by
  cases r with
  | data bs =>
    simp only [recvStatement] at hs
    split at hs
    · cases hs
    · rename_i hb
      cases hs
      have hroom := (h i).room
      have hfit : (s.epEvents i).mRcvBufLen + bs.length ≤ BUFSIZ := by omega
      refine ⟨inBuffer_update h ((h i).recvStore hfit), fun j n hpc => ?_⟩
      cases hpc
      simpa using hfit
  | peerClosed =>
    cases hs
    exact ⟨inBuffer_closeAndDel h i, fun j n hpc => by cases hpc⟩
  | error =>
    cases hs
    exact ⟨inBuffer_closeAndDel h i, fun j n hpc => by cases hpc⟩

theorem inBounds_loop {x x' : Fine} {addOk : Bool} (h : InBounds x)
    (hs : loopStatement x.server addOk x.pc = some x') : InBounds x' := by
  cases hpc : x.pc with
  | idle => simp [hpc, loopStatement] at hs
  | received i len =>
    rw [hpc] at hs
    cases hs
    exact ⟨inBuffer_update h.slots ((h.slots i).addLen (h.counted i len hpc)),
      fun j n hj => by cases hj⟩
  | counted i =>
    rw [hpc] at hs
    cases hs
    exact ⟨h.slots, fun j n hj => by cases hj⟩
  | header i len =>
    simp only [hpc, loopStatement] at hs
    split at hs <;> cases hs <;> exact ⟨h.slots, fun j n hj => by cases hj⟩
  | unequal i len =>
    simp only [hpc, loopStatement] at hs
    split at hs <;> cases hs <;> exact ⟨h.slots, fun j n hj => by cases hj⟩
  | tested i ret =>
    rw [hpc] at hs
    cases hs
    exact ⟨inBuffer_recvdataBranch h.slots _ i ret addOk, fun j n hj => by cases hj⟩

theorem inBounds_mytask {x : Fine} {s : Server} {n : Nat} (h : InBounds x)
    (hs : mytaskStep x.server n = some s) : InBounds { x with server := s } := by
  obtain ⟨t, -, hw⟩ := mytaskStep_cases hs
  cases hw with
  | take => exact ⟨h.slots, h.counted⟩
  | send => exact ⟨h.slots, h.counted⟩
  | clearLen =>
    refine ⟨inBuffer_update h.slots (h.slots t.arg).clearLen, fun j n hpc => ?_⟩
    have hold := h.counted j n hpc
    have hpos := (h.slots j).nonneg
    by_cases hj : j = t.arg
    · subst hj
      simp only [Server.setSlot_epEvents, Function.update_self, clearLen_mRcvBufLen]
      omega
    · simpa [hj] using hold
  | clearHead =>
    refine ⟨inBuffer_update h.slots (h.slots t.arg).clearHead, fun j n hpc => ?_⟩
    have hold := h.counted j n hpc
    by_cases hj : j = t.arg
    · subst hj
      simpa using hold
    · simpa [hj] using hold

theorem inBounds_step {b : Boot} {x x' : Fine} {a : FineAction} (h : InBounds x)
    (hs : fineStep b x a = some x') : InBounds x' := by
  cases a with
  | acceptconnect o =>
    simp only [fineStep] at hs
    split at hs
    · obtain ⟨s, hacc, rfl⟩ := Option.map_eq_some_iff.mp hs
      exact ⟨inBuffer_acceptconnect h.slots hacc, fun j n hpc => by cases hpc⟩
    · cases hs
  | recv i r =>
    simp only [fineStep] at hs
    split at hs
    · exact inBounds_recv h.slots hs
    · cases hs
  | loop addOk => exact inBounds_loop h hs
  | mytask n =>
    obtain ⟨s, hm, rfl⟩ := Option.map_eq_some_iff.mp hs
    exact inBounds_mytask h hm

/-- After every run of statements, in any order, the length of each slot is inside its
buffer, the room `recv` is given and the size `send` is given are the true ones, the next
`recv` stores inside the buffer, and nothing was stored outside. -/
theorem receive_buffer_bounds {b : Boot} {x : Fine} {as : List FineAction}
    (hr : Transition.run (fineStep b) (Fine.start b) as = some x) :
    (∀ i, InBuffer (x.server.epEvents i)) ∧
    (∀ i, (recvRoom (x.server.epEvents i) : Int) = BUFSIZ - (x.server.epEvents i).mRcvBufLen) ∧
    (∀ i, (sendSize (x.server.epEvents i) : Int) = (x.server.epEvents i).mRcvBufLen) ∧
    (∀ i bs x', fineStep b x (.recv i (.data bs)) = some x' →
      (x.server.epEvents i).mRcvBufLen + bs.length ≤ BUFSIZ) := by
  have h : InBounds x :=
    Transition.run_invariant (fun _ _ _ hi hs => inBounds_step hi hs) (inBounds_start b) hr
  refine ⟨h.slots, fun i => (h.slots i).room, fun i => (h.slots i).sendSize, ?_⟩
  intro i bs x' hs
  simp only [fineStep] at hs
  split at hs
  · simp only [recvStatement] at hs
    split at hs
    · cases hs
    · have hroom := (h.slots i).room
      omega
  · cases hs

/-- A frame whose echo overlaps the next `recv`. -/
def overlapRun : List FineAction :=
  [.acceptconnect ⟨some 5, true, true⟩, .recv 0 (.data [0, 1, 65]), .loop true, .loop true,
   .loop true, .loop true, .mytask 0, .mytask 0, .recv 0 (.data [0, 1]), .mytask 0, .loop true]

theorem receive_buffer_bounds_overlapRun :
    ∃ x, Transition.run (fineStep plainBoot) (Fine.start plainBoot) overlapRun = some x ∧
      ∀ i, InBuffer (x.server.epEvents i) := by
  have hr : Transition.run (fineStep plainBoot) (Fine.start plainBoot) overlapRun = some _ := rfl
  exact ⟨_, hr, (receive_buffer_bounds hr).1⟩

end Netepoll
