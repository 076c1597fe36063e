import Netepoll.Lib.Transition
import Netepoll.Server

/-! What one callback can do to the server, as one case for each way through its code,
and the server as a step function: the callbacks of the event loop, whole, in any order,
between them the statements of the tasks. -/

namespace Netepoll

section Fields

variable (s : Server) (i : SlotIx) (ev : MyEvents) (fd : Nat)

@[simp] theorem Server.setSlot_epEvents :
    (s.setSlot i ev).epEvents = Function.update s.epEvents i ev := rfl
@[simp] theorem Server.setSlot_kernel : (s.setSlot i ev).kernel = s.kernel := rfl
@[simp] theorem Server.setSlot_tasks : (s.setSlot i ev).tasks = s.tasks := rfl
@[simp] theorem Server.close_epEvents : (s.close fd).epEvents = s.epEvents := rfl
@[simp] theorem Server.close_kernel : (s.close fd).kernel = s.kernel.close fd := rfl
@[simp] theorem Server.close_tasks : (s.close fd).tasks = s.tasks := rfl

theorem Server.setSlot_self : s.setSlot i (s.epEvents i) = s := by
  simp [Server.setSlot, Function.update_eq_self]

end Fields

/-! ## One case for each way through a callback -/

/-- A registered slot is closed and taken out of the epoll set in one go. -/
theorem closeAndDel_eq {s : Server} {i : SlotIx} (h : (s.epEvents i).mStatus = 1) :
    closeAndDel s i = { s with kernel := s.kernel.close (s.epEvents i).mFd }.setSlot i
      { s.epEvents i with mStatus := 0 } := by
  unfold closeAndDel eventdel
  rw [if_neg (by simpa using h)]
  simp [Server.setSlot, Server.close, Kernel.epollDel_close]

theorem eventadd_eq {s : Server} {event : UInt32} {i : SlotIx} {ctlOk : Bool}
    (h : (s.epEvents i).mStatus = 0) :
    eventadd s event i ctlOk =
      match s.kernel.epollAdd (s.epEvents i).mFd ⟨i, event⟩ ctlOk with
      | none => s.setSlot i { s.epEvents i with mEvent := event }
      | some k => { s with kernel := k }.setSlot i
          { s.epEvents i with mEvent := event, mStatus := 1 } := by
  unfold eventadd
  simp only [Server.setSlot_epEvents, Function.update_self, h, if_true, Server.setSlot_kernel]
  cases s.kernel.epollAdd (s.epEvents i).mFd ⟨i, event⟩ ctlOk with
  | none => rfl
  | some k => simp [Server.setSlot, Function.update_idem]

theorem getEventIndexFrom_spec {t : SlotIx → MyEvents} {n : Nat} (h : n ≤ MAX_EVENTS)
    {i : SlotIx} (hi : getEventIndexFrom t n h = some i) : (t i).mStatus = 0 := by
  induction n with
  | zero => simp [getEventIndexFrom] at hi
  | succ n ih =>
    unfold getEventIndexFrom at hi
    split at hi
    · rename_i h0
      rw [← Option.some.inj hi]
      exact h0
    · exact ih _ hi

theorem getEventIndex_free {s : Server} {i : SlotIx} (hi : getEventIndex s = some i) :
    (s.epEvents i).mStatus = 0 :=
  getEventIndexFrom_spec _ hi

/-- The slot `acceptconnect` leaves for a connection it has registered. -/
def servedSlot (i : SlotIx) (connectFd : Nat) : MyEvents :=
  { acceptedSlot i connectFd with mEvent := EPOLLIN, mStatus := 1 }

/-- The ways through `acceptconnect`. -/
inductive Accepts (s : Server) (listenFd : Nat) (o : AcceptOutcome) : Server → Prop
  | failed : o.connectFd = none → Accepts s listenFd o s
  /-- no free slot, or `fcntl` failed: the connection is closed at once -/
  | dropped (fd : Nat) : o.connectFd = some fd → s.kernel.fds listenFd = some .listener →
      s.kernel.fds fd = none → getEventIndex s = none ∨ o.fcntlOk = false →
      Accepts s listenFd o { s with kernel := (s.kernel.addConn fd).close fd }
  /-- `epoll_ctl` refused: the descriptor stays open, the slot free -/
  | leaked (fd : Nat) (i : SlotIx) : o.connectFd = some fd →
      s.kernel.fds listenFd = some .listener → s.kernel.fds fd = none →
      getEventIndex s = some i → o.fcntlOk = true →
      o.ctlOk = false ∨ s.kernel.epoll fd ≠ none →
      Accepts s listenFd o ({ s with kernel := s.kernel.addConn fd }.setSlot i
        { acceptedSlot i fd with mEvent := EPOLLIN })
  | served (fd : Nat) (i : SlotIx) : o.connectFd = some fd →
      s.kernel.fds listenFd = some .listener → s.kernel.fds fd = none →
      getEventIndex s = some i → o.fcntlOk = true → o.ctlOk = true → s.kernel.epoll fd = none →
      Accepts s listenFd o ({ s with kernel := { s.kernel.addConn fd with
        epoll := Function.update s.kernel.epoll fd (some ⟨i, EPOLLIN⟩) } }.setSlot i
          (servedSlot i fd))

theorem acceptconnect_cases {s s' : Server} {listenFd : Nat} {o : AcceptOutcome}
    (h : acceptconnect s listenFd o = some s') : Accepts s listenFd o s' := by
  unfold acceptconnect at h
  cases ho : o.connectFd with
  | none =>
    rw [ho] at h
    cases h
    exact .failed ho
  | some fd =>
    simp only [ho] at h
    cases hk : s.kernel.accept listenFd fd with
    | none => simp [hk] at h
    | some k =>
      obtain ⟨hl, hf, rfl⟩ := Kernel.accept_eq_some.mp hk
      simp only [hk] at h
      have hg : getEventIndex { s with kernel := s.kernel.addConn fd } = getEventIndex s := rfl
      rw [hg] at h
      cases hi : getEventIndex s with
      | none =>
        simp only [hi] at h
        cases h
        exact .dropped fd ho hl hf (Or.inl hi)
      | some i =>
        simp only [hi] at h
        split at h
        · rename_i hc
          cases h
          exact .dropped fd ho hl hf (Or.inr hc)
        · rename_i hc
          have hc' : o.fcntlOk = true := by simpa using hc
          rw [eventadd_eq (by simp [acceptedSlot, eventsetinit])] at h
          simp only [Server.setSlot_kernel, Server.setSlot_epEvents, Function.update_self] at h
          cases ha : (s.kernel.addConn fd).epollAdd (acceptedSlot i fd).mFd ⟨i, EPOLLIN⟩
              o.ctlOk with
          | none =>
            simp only [ha] at h
            cases h
            have hn : o.ctlOk = false ∨ s.kernel.epoll fd ≠ none := by
              by_contra hcon
              simp only [not_or, Bool.not_eq_false, not_not] at hcon
              simp [Kernel.epollAdd, acceptedSlot, eventsetinit, hcon.1, hcon.2] at ha
            simpa [Server.setSlot, Function.update_idem] using
              Accepts.leaked fd i ho hl hf hi hc' hn
          | some k =>
            simp only [ha] at h
            cases h
            obtain ⟨⟨h1, -, h2⟩, rfl⟩ := Kernel.epollAdd_eq_some.mp ha
            simpa [Server.setSlot, Function.update_idem, acceptedSlot, eventsetinit,
              servedSlot] using Accepts.served fd i ho hl hf hi hc' h1 h2

/-- The ways through `recvdata` for a slot that is registered. -/
inductive Receives (s : Server) (clientFd : Nat) (i : SlotIx) (o : RecvOutcome) : Server → Prop
  | kept (bs : List UInt8) : o.recv = .data bs → bs ≠ [] →
      bs.length ≤ recvRoom (s.epEvents i) →
      testpacket (received (s.epEvents i) bs) = .dataContinue →
      Receives s clientFd i o (s.setSlot i (received (s.epEvents i) bs))
  | queued (bs : List UInt8) : o.recv = .data bs → bs ≠ [] →
      bs.length ≤ recvRoom (s.epEvents i) → o.addOk = true →
      testpacket (received (s.epEvents i) bs) = .dataComplete →
      Receives s clientFd i o { s.setSlot i (received (s.epEvents i) bs) with
        tasks := s.tasks ++ [⟨i, .queued, s.kernel.fds clientFd,
          rcvBytes (received (s.epEvents i) bs)⟩] }
  /-- `DATA_ERROR`, a full pool, the end of the stream or an error: the slot holds `ev` -/
  | closed (ev : MyEvents) :
      (ev = s.epEvents i ∧ (o.recv = .peerClosed ∨ o.recv = .error)) ∨
      (∃ bs, ev = received (s.epEvents i) bs ∧ o.recv = .data bs ∧
        (testpacket ev = .dataError ∨ testpacket ev = .dataComplete ∧ o.addOk = false)) →
      Receives s clientFd i o
        ({ s with kernel := s.kernel.close (s.epEvents i).mFd }.setSlot i
          { ev with mStatus := 0 })

theorem recvdata_cases {s s' : Server} {clientFd : Nat} {i : SlotIx} {o : RecvOutcome}
    (hs : (s.epEvents i).mStatus = 1) (h : recvdata s clientFd i o = some s') :
    Receives s clientFd i o s' := by
  have hclose (ev : MyEvents) (hev : ev.mStatus = 1 ∧ ev.mFd = (s.epEvents i).mFd) :
      closeAndDel (s.setSlot i ev) i =
        { s with kernel := s.kernel.close (s.epEvents i).mFd }.setSlot i
          { ev with mStatus := 0 } := by
    rw [closeAndDel_eq (by simpa using hev.1)]
    simp [Server.setSlot, hev.2, Function.update_idem]
  have hend (hr : o.recv = .peerClosed ∨ o.recv = .error) :
      Receives s clientFd i o (closeAndDel s i) := by
    have e := hclose (s.epEvents i) ⟨hs, rfl⟩
    rw [Server.setSlot_self] at e
    rw [e]
    exact .closed _ (Or.inl ⟨rfl, hr⟩)
  unfold recvdata at h
  cases hr : o.recv with
  | data bs =>
    simp only [hr] at h
    split at h
    · cases h
    · rename_i hb
      simp only [not_or, Nat.not_lt] at hb
      simp only [Server.setSlot_epEvents, Function.update_self, Option.some.injEq] at h
      subst h
      have e := hclose (received (s.epEvents i) bs) ⟨hs, rfl⟩
      cases ht : testpacket (received (s.epEvents i) bs) with
      | dataComplete =>
        simp only [recvdataBranch]
        split
        · rename_i ha
          have hq : Receives s clientFd i o _ := .queued bs hr hb.1 hb.2 ha ht
          simpa [newTask] using hq
        · rename_i ha
          rw [e]
          exact .closed _ (Or.inr ⟨bs, rfl, hr, Or.inr ⟨ht, by simpa using ha⟩⟩)
      | dataError =>
        simp only [recvdataBranch]
        rw [e]
        exact .closed _ (Or.inr ⟨bs, rfl, hr, Or.inl ht⟩)
      | dataContinue => exact .kept bs hr hb.1 hb.2 ht
  | peerClosed =>
    simp only [hr, Option.some.injEq] at h
    exact h ▸ hend (Or.inl hr)
  | error =>
    simp only [hr, Option.some.injEq] at h
    exact h ▸ hend (Or.inr hr)

/-- The statements of a task. -/
inductive Works (s : Server) (n : Nat) (t : Task) : Server → Prop
  | take : t.phase = .queued →
      Works s n t { s with tasks := s.tasks.set n { t with phase := .taken } }
  | send : t.phase = .taken →
      Works s n t { s with tasks := s.tasks.set n { t with phase := .sent } }
  | clearLen : t.phase = .sent →
      Works s n t { s.setSlot t.arg (clearLen (s.epEvents t.arg)) with
        tasks := s.tasks.set n { t with phase := .lenCleared } }
  | clearHead : t.phase = .lenCleared →
      Works s n t { s.setSlot t.arg (clearHead (s.epEvents t.arg)) with
        tasks := s.tasks.eraseIdx n }

theorem mytaskStep_cases {s s' : Server} {n : Nat} (h : mytaskStep s n = some s') :
    ∃ t, s.tasks[n]? = some t ∧ Works s n t s' := by
  unfold mytaskStep at h
  cases ht : s.tasks[n]? with
  | none => simp [ht] at h
  | some t =>
    refine ⟨t, rfl, ?_⟩
    simp only [ht] at h
    cases hp : t.phase with
    | queued => simp only [hp] at h; cases h; exact .take hp
    | taken => simp only [hp] at h; cases h; exact .send hp
    | sent => simp only [hp] at h; cases h; exact .clearLen hp
    | lenCleared => simp only [hp] at h; cases h; exact .clearHead hp

/-- The four statements of a queued task, one after the other. -/
theorem run_mytaskStep {s : Server} {n : Nat} {t : Task} (ht : s.tasks[n]? = some t)
    (hq : t.phase = .queued) :
    Transition.run mytaskStep s (List.replicate 4 n) = mytask s n := by
  obtain ⟨hn, rfl⟩ := List.getElem?_eq_some_iff.mp ht
  simp [List.replicate, Transition.run, mytaskStep, mytask, hq, hn, Server.setSlot,
    Function.update_idem, mytaskResets, List.eraseIdx_set_eq]

theorem mytask_eq_some {s s' : Server} {n : Nat} (h : mytask s n = some s') :
    ∃ t, s.tasks[n]? = some t ∧
      s' = { s.setSlot t.arg (mytaskResets (s.epEvents t.arg)) with
        tasks := s.tasks.eraseIdx n } := by
  unfold mytask at h
  cases ht : s.tasks[n]? with
  | none => simp [ht] at h
  | some t =>
    simp only [ht, Option.some.injEq] at h
    exact ⟨t, rfl, h.symm⟩

/-! ## The server as a step function -/

/-- What `main` finds when it enters its loop: the descriptors in use before the listener
was opened, the number of the listener, and whether `epoll_ctl` took it. -/
structure Boot where
  used : Nat → Bool
  listenFd : Nat
  listenFree : used listenFd = false
  ctlOk : Bool

/-- A usual start: descriptors 0 to 3 in use, the listener on 4 and registered. -/
def plainBoot : Boot := ⟨fun d => decide (d < 4), 4, rfl, true⟩

/-- The kernel when `getSrvSocket` has returned. -/
def Boot.kernel (b : Boot) : Kernel where
  fds := fun d =>
    if d = b.listenFd then some .listener else if b.used d then some .other else none
  epoll := fun _ => none
  accepted := 0
  closes := []

/-- The zeroed table after `initlistensocket`. -/
def Boot.start (b : Boot) : Server :=
  initlistensocket ⟨fun _ => MyEvents.zero, b.kernel, []⟩ b.listenFd b.ctlOk

inductive Action where
  | acceptconnect (o : AcceptOutcome)
  | recvdata (i : SlotIx) (o : RecvOutcome)
  | mytask (n : Nat)
  deriving DecidableEq

/-- One callback of the event loop, on the listener or on a slot registered for
`recvdata`, or one statement of a task. -/
def callbackStep (b : Boot) (s : Server) : Action → Option Server
  | .acceptconnect o => acceptconnect s b.listenFd o
  | .recvdata i o =>
    if (s.epEvents i).mStatus = 1 ∧ (s.epEvents i).callBack = some .recvdata then
      recvdata s (s.epEvents i).mFd i o
    else none
  | .mytask n => mytaskStep s n

end Netepoll
