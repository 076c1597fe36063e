import Netepoll.Callbacks

/-! The invariant that ties the slot table to the kernel: a slot is registered exactly
when the epoll set points at it, registered slots hold different open descriptors, the
listener keeps its slot and every other registered slot serves a connection. -/

namespace Netepoll

/-- Slot `i` serves a connection: its callback is `recvdata` on itself, and its
descriptor denotes a connection. -/
structure Serves (s : Server) (i : SlotIx) : Prop where
  callBack : (s.epEvents i).callBack = some .recvdata
  mArg : (s.epEvents i).mArg = some i
  handle : ∃ c, s.kernel.fds (s.epEvents i).mFd = some (.conn c)

structure Wired (b : Boot) (s : Server) : Prop where
  status : ∀ i, (s.epEvents i).mStatus = 0 ∨ (s.epEvents i).mStatus = 1
  mask : ∀ i, (s.epEvents i).mEvent = 0 ∨ (s.epEvents i).mEvent = EPOLLIN
  sync : ∀ i fd, (∃ events, s.kernel.epoll fd = some ⟨i, events⟩) ↔
    (s.epEvents i).mStatus = 1 ∧ (s.epEvents i).mFd = fd
  listenFd : s.kernel.fds b.listenFd = some .listener
  listener : b.ctlOk = true → (s.epEvents listenSlot).mStatus = 1 ∧
    (s.epEvents listenSlot).mFd = b.listenFd ∧
    (s.epEvents listenSlot).callBack = some .acceptconnect
  client : ∀ i, (s.epEvents i).mStatus = 1 → (b.ctlOk = true ∧ i = listenSlot) ∨ Serves s i

/-- The fields the invariant reads. -/
def SameWiring (ev ev' : MyEvents) : Prop :=
  ev'.mFd = ev.mFd ∧ ev'.mEvent = ev.mEvent ∧ ev'.mStatus = ev.mStatus ∧
    ev'.mArg = ev.mArg ∧ ev'.callBack = ev.callBack

theorem Wired.congr {b : Boot} {s s' : Server} (h : Wired b s) (hk : s'.kernel = s.kernel)
    (he : ∀ i, SameWiring (s.epEvents i) (s'.epEvents i)) : Wired b s' := by
  have hserves (i : SlotIx) (hi : Serves s i) : Serves s' i := by
    obtain ⟨h1, -, -, h4, h5⟩ := he i
    exact ⟨h5 ▸ hi.callBack, h4 ▸ hi.mArg, by rw [hk, h1]; exact hi.handle⟩
  refine ⟨fun i => ?_, fun i => ?_, fun i fd => ?_, ?_, fun hb => ?_, fun i hi => ?_⟩
  · rw [(he i).2.2.1]; exact h.status i
  · rw [(he i).2.1]; exact h.mask i
  · rw [hk, (he i).1, (he i).2.2.1]; exact h.sync i fd
  · rw [hk]; exact h.listenFd
  · obtain ⟨h1, -, h3, -, h5⟩ := he listenSlot
    rw [h1, h3, h5]; exact h.listener hb
  · rw [(he i).2.2.1] at hi
    exact (h.client i hi).imp id (hserves i)

theorem sameWiring_refl (ev : MyEvents) : SameWiring ev ev := ⟨rfl, rfl, rfl, rfl, rfl⟩

theorem sameWiring_received (ev : MyEvents) (bs : List UInt8) :
    SameWiring ev (received ev bs) := ⟨rfl, rfl, rfl, rfl, rfl⟩

theorem sameWiring_clearLen (ev : MyEvents) : SameWiring ev (clearLen ev) :=
  ⟨rfl, rfl, rfl, rfl, rfl⟩

theorem sameWiring_clearHead (ev : MyEvents) : SameWiring ev (clearHead ev) :=
  ⟨rfl, rfl, rfl, rfl, rfl⟩

/-- A slot update that keeps the wiring fields keeps the invariant, whatever it queues. -/
theorem Wired.setSlot {b : Boot} {s : Server} (h : Wired b s) {i : SlotIx} {ev : MyEvents}
    (he : SameWiring (s.epEvents i) ev) (ts : List Task) :
    Wired b { s.setSlot i ev with tasks := ts } := by
  refine h.congr rfl fun j => ?_
  by_cases hj : j = i
  · subst hj; simpa using he
  · simpa [hj] using sameWiring_refl _

/-- Two registered slots never hold the same descriptor. -/
theorem Wired.fd_inj {b : Boot} {s : Server} (h : Wired b s) {i j : SlotIx}
    (hi : (s.epEvents i).mStatus = 1) (hj : (s.epEvents j).mStatus = 1)
    (hfd : (s.epEvents i).mFd = (s.epEvents j).mFd) : i = j := by
  obtain ⟨ei, hei⟩ := (h.sync i _).mpr ⟨hi, rfl⟩
  obtain ⟨ej, hej⟩ := (h.sync j _).mpr ⟨hj, rfl⟩
  rw [hfd, hej] at hei
  simp only [Option.some.injEq, EpollItem.mk.injEq] at hei
  exact hei.1.symm

/-- A registered slot holds an open descriptor. -/
theorem Wired.isOpen {b : Boot} {s : Server} (h : Wired b s) {i : SlotIx}
    (hi : (s.epEvents i).mStatus = 1) : s.kernel.fds (s.epEvents i).mFd ≠ none := by
  rcases h.client i hi with ⟨hb, rfl⟩ | hc
  · rw [(h.listener hb).2.1, h.listenFd]; simp
  · obtain ⟨c, hc⟩ := hc.handle
    rw [hc]; simp

/-- A free descriptor number is not in the epoll set, and no registered slot holds it. -/
theorem Wired.epoll_free {b : Boot} {s : Server} (h : Wired b s) {fd : Nat}
    (hf : s.kernel.fds fd = none) : s.kernel.epoll fd = none := by
  cases he : s.kernel.epoll fd with
  | none => rfl
  | some item =>
    obtain ⟨hi, rfl⟩ := (h.sync item.ptr fd).mp ⟨item.events, he⟩
    exact absurd hf (h.isOpen hi)

/-- The slot of the listener is never free. -/
theorem Wired.free_ne_listenSlot {b : Boot} {s : Server} (h : Wired b s) {i : SlotIx}
    (hi : (s.epEvents i).mStatus = 0) (hb : b.ctlOk = true) : i ≠ listenSlot := by
  rintro rfl
  rw [(h.listener hb).1] at hi
  cases hi

/-- The slot of the listener never has the callback of a client. -/
theorem Wired.client_ne_listenSlot {b : Boot} {s : Server} (h : Wired b s) {i : SlotIx}
    (hc : (s.epEvents i).callBack = some .recvdata) (hb : b.ctlOk = true) : i ≠ listenSlot := by
  rintro rfl
  rw [(h.listener hb).2.2] at hc
  cases hc

theorem Wired.serves {b : Boot} {s : Server} (h : Wired b s) {i : SlotIx}
    (hi : (s.epEvents i).mStatus = 1) (hc : (s.epEvents i).callBack = some .recvdata) :
    Serves s i :=
  (h.client i hi).resolve_left fun hx => h.client_ne_listenSlot hc hx.1 hx.2

/-- Closing the descriptor of a slot that serves a connection. -/
theorem Wired.closeSlot {b : Boot} {s : Server} (h : Wired b s) {i : SlotIx} {ev : MyEvents}
    (hi : (s.epEvents i).mStatus = 1) (hc : (s.epEvents i).callBack = some .recvdata)
    (he : SameWiring (s.epEvents i) ev) :
    Wired b ({ s with kernel := s.kernel.close (s.epEvents i).mFd }.setSlot i
      { ev with mStatus := 0 }) := by
  obtain ⟨e1, e2, e3, e4, e5⟩ := he
  have hl := h.client_ne_listenSlot hc
  obtain ⟨c, hconn⟩ := (h.serves hi hc).handle
  have hne (j : SlotIx) (hj : (s.epEvents j).mStatus = 1) (hji : j ≠ i) :
      (s.epEvents j).mFd ≠ (s.epEvents i).mFd := fun e => hji (h.fd_inj hj hi e)
  have hlfd : b.listenFd ≠ (s.epEvents i).mFd := fun e => by
    have := h.listenFd
    rw [e, hconn] at this
    cases this
  refine ⟨fun j => ?_, fun j => ?_, fun j fd => ?_, ?_, fun hb => ?_, fun j hj => ?_⟩
  · by_cases hj : j = i
    · subst hj; simp
    · simpa [hj] using h.status j
  · by_cases hj : j = i
    · subst hj; simpa [e2] using h.mask j
    · simpa [hj] using h.mask j
  · by_cases hj : j = i
    · -- the closed slot: no entry is left for it
      subst hj
      simp only [Server.setSlot_kernel, Kernel.close_epoll, Server.setSlot_epEvents,
        Function.update_self, Nat.zero_ne_one, false_and, iff_false, not_exists]
      intro events hev
      by_cases hfd : fd = (s.epEvents j).mFd
      · simp [hfd] at hev
      · rw [Function.update_of_ne hfd] at hev
        exact hfd ((h.sync j fd).mp ⟨events, hev⟩).2.symm
    · -- every other slot: its descriptor is another one
      simp only [Server.setSlot_kernel, Kernel.close_epoll, Server.setSlot_epEvents,
        Function.update_of_ne hj]
      by_cases hfd : fd = (s.epEvents i).mFd
      · subst hfd
        simp only [Function.update_self, reduceCtorEq, exists_false, false_iff, not_and]
        exact fun hj1 => hne j hj1 hj
      · rw [Function.update_of_ne hfd]
        exact h.sync j fd
  · simpa [hlfd] using h.listenFd
  · simpa [(hl hb).symm] using h.listener hb
  · by_cases hji : j = i
    · subst hji; simp at hj
    · have hj' : (s.epEvents j).mStatus = 1 := by simpa [hji] using hj
      rcases h.client j hj' with hx | hx
      · exact Or.inl hx
      · obtain ⟨c', hc'⟩ := hx.handle
        exact Or.inr ⟨by simpa [hji] using hx.callBack, by simpa [hji] using hx.mArg,
          c', by simpa [hji, hne j hj' hji] using hc'⟩

/-- A descriptor that was free can be opened for a connection. -/
theorem Wired.addConn {b : Boot} {s : Server} (h : Wired b s) {fd : Nat}
    (hf : s.kernel.fds fd = none) : Wired b { s with kernel := s.kernel.addConn fd } := by
  have hlfd : b.listenFd ≠ fd := fun e => by
    rw [← e, h.listenFd] at hf
    cases hf
  have hne (i : SlotIx) (hi : (s.epEvents i).mStatus = 1) : (s.epEvents i).mFd ≠ fd :=
    fun e => h.isOpen hi (e ▸ hf)
  refine ⟨h.status, h.mask, h.sync, ?_, h.listener, fun i hi => ?_⟩
  · simpa [hlfd] using h.listenFd
  · refine (h.client i hi).imp id fun hx => ?_
    obtain ⟨c, hc⟩ := hx.handle
    exact ⟨hx.callBack, hx.mArg, c, by simpa [hne i hi] using hc⟩

/-- A descriptor no slot is registered for can be closed again. -/
theorem Wired.closeFree {b : Boot} {s : Server} (h : Wired b s) {fd : Nat}
    (hl : b.listenFd ≠ fd) (hf : s.kernel.epoll fd = none) :
    Wired b { s with kernel := s.kernel.close fd } := by
  have hne (i : SlotIx) (hi : (s.epEvents i).mStatus = 1) : (s.epEvents i).mFd ≠ fd :=
    fun e => by
      obtain ⟨events, he⟩ := (h.sync i fd).mpr ⟨hi, e⟩
      rw [hf] at he
      cases he
  have he : Function.update s.kernel.epoll fd none = s.kernel.epoll := by
    rw [← hf, Function.update_eq_self]
  refine ⟨h.status, h.mask, fun i fd' => ?_, ?_, h.listener, fun i hi => ?_⟩
  · simpa [he] using h.sync i fd'
  · simpa [hl] using h.listenFd
  · refine (h.client i hi).imp id fun hx => ?_
    obtain ⟨c, hc⟩ := hx.handle
    exact ⟨hx.callBack, hx.mArg, c, by simpa [hne i hi] using hc⟩

/-- A free slot may hold anything, as long as it stays free. -/
theorem Wired.setFree {b : Boot} {s : Server} (h : Wired b s) {i : SlotIx} {ev : MyEvents}
    (hi : (s.epEvents i).mStatus = 0) (hev : ev.mStatus = 0)
    (hm : ev.mEvent = 0 ∨ ev.mEvent = EPOLLIN) : Wired b (s.setSlot i ev) := by
  have hl := h.free_ne_listenSlot hi
  refine ⟨fun j => ?_, fun j => ?_, fun j fd => ?_, h.listenFd, fun hb => ?_, fun j hj => ?_⟩
  · by_cases hj : j = i
    · subst hj; simp [hev]
    · simpa [hj] using h.status j
  · by_cases hj : j = i
    · subst hj; simpa using hm
    · simpa [hj] using h.mask j
  · by_cases hj : j = i
    · subst hj
      have := h.sync j fd
      simpa [hi, hev] using this
    · simpa [hj] using h.sync j fd
  · simpa [(hl hb).symm] using h.listener hb
  · have hji : j ≠ i := fun e => by subst e; simp [hev] at hj
    have hj' : (s.epEvents j).mStatus = 1 := by simpa [hji] using hj
    exact (h.client j hj').imp id fun hx =>
      ⟨by simpa [hji] using hx.callBack, by simpa [hji] using hx.mArg,
        by simpa [hji] using hx.handle⟩

/-- Registering a free slot for an open connection that no slot holds. -/
theorem Wired.serve {b : Boot} {s : Server} (h : Wired b s) {i : SlotIx} {fd c : Nat}
    (hi : (s.epEvents i).mStatus = 0) (hf : s.kernel.fds fd = some (.conn c))
    (hp : s.kernel.epoll fd = none) :
    Wired b ({ s with kernel := { s.kernel with
      epoll := Function.update s.kernel.epoll fd (some ⟨i, EPOLLIN⟩) } }.setSlot i
        (servedSlot i fd)) := by
  have hl := h.free_ne_listenSlot hi
  refine ⟨fun j => ?_, fun j => ?_, fun j fd' => ?_, h.listenFd, fun hb => ?_, fun j hj => ?_⟩
  · by_cases hj : j = i
    · subst hj; simp [servedSlot]
    · simpa [hj] using h.status j
  · by_cases hj : j = i
    · subst hj; simp [servedSlot]
    · simpa [hj] using h.mask j
  · by_cases hfd : fd' = fd
    · -- the entry just made points at slot `i` alone
      subst hfd
      by_cases hj : j = i
      · subst hj; simp [servedSlot, acceptedSlot, eventsetinit]
      · have hno : ¬ ((s.epEvents j).mStatus = 1 ∧ (s.epEvents j).mFd = fd') := fun hx => by
          obtain ⟨events, he⟩ := (h.sync j fd').mpr hx
          rw [hp] at he
          cases he
        simpa [hj, Ne.symm hj] using hno
    · by_cases hj : j = i
      · subst hj
        have hno := h.sync j fd'
        simp only [hi, Nat.zero_ne_one, false_and, iff_false, not_exists] at hno
        simpa [hfd, servedSlot, acceptedSlot, eventsetinit, Ne.symm hfd] using hno
      · simpa [hfd, hj] using h.sync j fd'
  · simpa [(hl hb).symm] using h.listener hb
  · by_cases hji : j = i
    · subst hji
      exact Or.inr ⟨by simp [servedSlot, acceptedSlot, eventsetinit],
        by simp [servedSlot, acceptedSlot, eventsetinit],
        c, by simpa [servedSlot, acceptedSlot, eventsetinit] using hf⟩
    · have hj' : (s.epEvents j).mStatus = 1 := by simpa [hji] using hj
      exact (h.client j hj').imp id fun hx =>
        ⟨by simpa [hji] using hx.callBack, by simpa [hji] using hx.mArg,
          by simpa [hji] using hx.handle⟩

/-! ## One step and whole runs -/

theorem wired_acceptconnect {b : Boot} {s s' : Server} {o : AcceptOutcome} (h : Wired b s)
    (hs : acceptconnect s b.listenFd o = some s') : Wired b s' := by
  cases acceptconnect_cases hs with
  | failed => exact h
  | dropped fd _ hl hf _ =>
    have hne : b.listenFd ≠ fd := fun e => by rw [e, hf] at hl; cases hl
    exact (h.addConn hf).closeFree hne (h.epoll_free hf)
  | leaked fd i _ hl hf hi _ _ =>
    exact (h.addConn hf).setFree (getEventIndex_free hi) rfl (Or.inr rfl)
  | served fd i _ hl hf hi _ _ hp =>
    exact (h.addConn hf).serve (c := s.kernel.accepted) (getEventIndex_free hi) (by simp) hp

theorem wired_recvdata {b : Boot} {s s' : Server} {i : SlotIx} {o : RecvOutcome}
    (h : Wired b s) (hi : (s.epEvents i).mStatus = 1)
    (hc : (s.epEvents i).callBack = some .recvdata)
    (hs : recvdata s (s.epEvents i).mFd i o = some s') : Wired b s' := by
  cases recvdata_cases hi hs with
  | kept bs => exact h.setSlot (sameWiring_received _ bs) s.tasks
  | queued bs => exact h.setSlot (sameWiring_received _ bs) _
  | closed ev hev =>
    refine h.closeSlot hi hc ?_
    rcases hev with ⟨rfl, -⟩ | ⟨bs, rfl, -, -⟩
    · exact sameWiring_refl _
    · exact sameWiring_received _ bs

theorem wired_mytaskStep {b : Boot} {s s' : Server} {n : Nat} (h : Wired b s)
    (hs : mytaskStep s n = some s') : Wired b s' := by
  obtain ⟨t, -, hw⟩ := mytaskStep_cases hs
  cases hw with
  | take => exact h.congr rfl fun _ => sameWiring_refl _
  | send => exact h.congr rfl fun _ => sameWiring_refl _
  | clearLen => exact h.setSlot (sameWiring_clearLen _) _
  | clearHead => exact h.setSlot (sameWiring_clearHead _) _

theorem wired_step {b : Boot} {s s' : Server} {a : Action} (h : Wired b s)
    (hs : callbackStep b s a = some s') : Wired b s' := by
  cases a with
  | acceptconnect o => exact wired_acceptconnect h hs
  | recvdata i o =>
    simp only [callbackStep] at hs
    split at hs
    · rename_i hi
      exact wired_recvdata h hi.1 hi.2 hs
    · cases hs
  | mytask n => exact wired_mytaskStep h hs

/-- The slot of the listener as `initlistensocket` leaves it. -/
def listenEvents (b : Boot) : MyEvents :=
  { eventsetinit MyEvents.zero b.listenFd .acceptconnect listenSlot with mEvent := EPOLLIN }

theorem start_eq (b : Boot) :
    b.start = if b.ctlOk = true then
      { epEvents := Function.update (fun _ => MyEvents.zero) listenSlot
          { listenEvents b with mStatus := 1 }
        kernel := { b.kernel with
          epoll := Function.update b.kernel.epoll b.listenFd (some ⟨listenSlot, EPOLLIN⟩) }
        tasks := [] }
      else
        { epEvents := Function.update (fun _ => MyEvents.zero) listenSlot (listenEvents b)
          kernel := b.kernel
          tasks := [] } := by
  unfold Boot.start initlistensocket
  rw [eventadd_eq (by simp [eventsetinit])]
  cases hb : b.ctlOk <;>
    simp [Kernel.epollAdd, Server.setSlot, Function.update_idem, Boot.kernel, listenEvents,
      eventsetinit]

/-- The zeroed table with the listener registered, or refused by `epoll_ctl`. -/
theorem wired_start (b : Boot) : Wired b b.start := by
  rw [start_eq]
  split
  · rename_i hb
    refine ⟨fun i => ?_, fun i => ?_, fun i fd => ?_, ?_, fun _ => ?_, fun i hi => ?_⟩
    · by_cases hi : i = listenSlot <;> simp [hi, MyEvents.zero]
    · by_cases hi : i = listenSlot <;> simp [hi, MyEvents.zero, listenEvents]
    · by_cases hi : i = listenSlot <;> by_cases hfd : fd = b.listenFd
      · simp [hi, hfd, listenEvents, eventsetinit]
      · simp [hi, hfd, Ne.symm hfd, listenEvents, eventsetinit, Boot.kernel]
      · simp [hi, hfd, Ne.symm hi, MyEvents.zero]
      · simp [hi, hfd, MyEvents.zero, Boot.kernel]
    · simp [Boot.kernel]
    · simp [listenEvents, eventsetinit]
    · by_cases hl : i = listenSlot
      · exact Or.inl ⟨hb, hl⟩
      · simp [hl, MyEvents.zero] at hi
  · rename_i hb
    refine ⟨fun i => ?_, fun i => ?_, fun i fd => ?_, ?_, fun h => absurd h hb, fun i hi => ?_⟩
    · by_cases hi : i = listenSlot <;> simp [hi, MyEvents.zero, listenEvents, eventsetinit]
    · by_cases hi : i = listenSlot <;> simp [hi, MyEvents.zero, listenEvents]
    · by_cases hi : i = listenSlot <;>
        simp [hi, MyEvents.zero, listenEvents, eventsetinit, Boot.kernel]
    · simp [Boot.kernel]
    · by_cases hl : i = listenSlot <;>
        simp [hl, MyEvents.zero, listenEvents, eventsetinit] at hi

theorem wired_run {b : Boot} {s : Server} {as : List Action}
    (h : Transition.run (callbackStep b) b.start as = some s) : Wired b s :=
  Transition.run_invariant (fun _ _ _ hi hs => wired_step hi hs) (wired_start b) h

end Netepoll
