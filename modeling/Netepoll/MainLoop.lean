import Netepoll.Registration

/-! The loop of `main` (netepoll.c): `epoll_wait` fills a batch, the events of the batch
are dispatched one after the other, and earlier ones may close and reuse slots. Between
two callbacks the tasks may run. The loop only ever makes the steps of `callbackStep`,
and no event of a batch is dispatched to a slot that has changed hands. -/

namespace Netepoll

/-- One element of the array `events`. The last field is history: the descriptor the
entry was registered for. -/
structure EpollEvent where
  events : UInt32
  ptr : SlotIx
  fd : Nat
  deriving DecidableEq

structure Loop where
  server : Server
  /-- `events[i]` to `events[n_ready-1]` -/
  pending : List EpollEvent
  /-- `events[i]` has been through the `EPOLLIN` test -/
  half : Bool
  /-- history: the events of this batch that led to a callback -/
  calls : List EpollEvent
  /-- false once `epoll_wait` has failed -/
  running : Bool

/-- What the kernel and the pool answer during one callback. -/
inductive CallOutcome where
  | acceptconnect (o : AcceptOutcome)
  | recvdata (o : RecvOutcome)
  | senddata (len : Int)
  deriving DecidableEq

/-- `ev->call_back(ev->m_fd, events[i].events, ev->m_arg)` with `ev` slot `i`. -/
def callBackFn (s : Server) (i : SlotIx) (o : CallOutcome) : Option Server :=
  match (s.epEvents i).callBack, (s.epEvents i).mArg, o with
  | some .acceptconnect, _, .acceptconnect o => acceptconnect s (s.epEvents i).mFd o
  | some .recvdata, some arg, .recvdata o => recvdata s (s.epEvents i).mFd arg o
  | some .senddata, some arg, .senddata len => some (senddata s arg len)
  | _, _, _ => none

/-- `(events[i].events & mask) && (ev->m_event & mask)`. -/
def wants (s : Server) (e : EpollEvent) (mask : UInt32) : Bool :=
  e.events &&& mask != 0 && (s.epEvents e.ptr).mEvent &&& mask != 0

/-- A batch `epoll_wait` can return: entries of the epoll set, each at most once, with
any event bits. -/
def Ready (s : Server) (batch : List EpollEvent) : Prop :=
  batch.length ≤ MAX_EVENTS ∧ (batch.map EpollEvent.fd).Nodup ∧
    ∀ e ∈ batch, (s.kernel.epoll e.fd).map EpollItem.ptr = some e.ptr

instance (s : Server) (batch : List EpollEvent) : Decidable (Ready s batch) :=
  inferInstanceAs (Decidable (_ ∧ _))

inductive LoopAction where
  | epollWait (batch : List EpollEvent)
  | epollError
  | testIn (o : CallOutcome)
  | testOut (o : CallOutcome)
  | mytask (n : Nat)
  deriving DecidableEq

/-- The event whose callback the step makes, if it makes one. -/
def callMade (l : Loop) : LoopAction → Option EpollEvent
  | .testIn _ =>
    l.pending.head?.filter fun e => !l.half && wants l.server e EPOLLIN
  | .testOut _ =>
    l.pending.head?.filter fun e => l.half && wants l.server e EPOLLOUT
  | _ => none

def loopStep (l : Loop) : LoopAction → Option Loop
  | .epollWait batch =>
    if l.running = true ∧ l.pending = [] ∧ Ready l.server batch then
      some { l with pending := batch, half := false, calls := [] }
    else none
  | .epollError =>
    if l.running = true ∧ l.pending = [] then some { l with running := false } else none
  | .testIn o =>
    match l.pending with
    | [] => none
    | e :: _ =>
      if l.half = true then none
      else if wants l.server e EPOLLIN = true then
        (callBackFn l.server e.ptr o).map fun s =>
          { l with server := s, half := true, calls := l.calls ++ [e] }
      else some { l with half := true }
  | .testOut o =>
    match l.pending with
    | [] => none
    | e :: rest =>
      if l.half = false then none
      else if wants l.server e EPOLLOUT = true then
        (callBackFn l.server e.ptr o).map fun s =>
          { l with server := s, pending := rest, half := false, calls := l.calls ++ [e] }
      else some { l with pending := rest, half := false }
  | .mytask n => (mytaskStep l.server n).map fun s => { l with server := s }

/-- `main` after `initlistensocket`. -/
def Loop.start (b : Boot) : Loop := ⟨b.start, [], false, [], true⟩

/-- The events that can still lead to a callback. -/
def Loop.todo (l : Loop) : List EpollEvent := if l.half then l.pending.tail else l.pending

/-- The slot of `e` is registered with the descriptor `e` was reported for. -/
def Current (s : Server) (e : EpollEvent) : Prop :=
  (s.epEvents e.ptr).mStatus = 1 ∧ (s.epEvents e.ptr).mFd = e.fd

structure LoopInv (b : Boot) (l : Loop) : Prop where
  wired : Wired b l.server
  current : ∀ e ∈ l.todo, Current l.server e
  once : ((l.calls ++ l.todo).map EpollEvent.fd).Nodup

/-! ## Callbacks made from the loop -/

/-- On a registered slot the call through `call_back` is `acceptconnect` on the listener
or `recvdata` on the slot itself. -/
theorem callBackFn_cases {b : Boot} {s s' : Server} {i : SlotIx} {o : CallOutcome}
    (hw : Wired b s) (hi : (s.epEvents i).mStatus = 1) (h : callBackFn s i o = some s') :
    (∃ o', o = .acceptconnect o' ∧ i = listenSlot ∧ b.ctlOk = true ∧
      acceptconnect s b.listenFd o' = some s') ∨
    (∃ o', o = .recvdata o' ∧ Serves s i ∧
      recvdata s (s.epEvents i).mFd i o' = some s') := by
  unfold callBackFn at h
  rcases hw.client i hi with ⟨hb, rfl⟩ | hc
  · obtain ⟨-, hfd, hcb⟩ := hw.listener hb
    left
    cases o with
    | acceptconnect o' =>
      simp only [hcb, hfd] at h
      exact ⟨o', rfl, rfl, hb, h⟩
    | recvdata o' => simp [hcb] at h
    | senddata len => simp [hcb] at h
  · right
    cases o with
    | acceptconnect o' => simp [hc.callBack] at h
    | recvdata o' =>
      simp only [hc.callBack, hc.mArg] at h
      exact ⟨o', rfl, hc, h⟩
    | senddata len => simp [hc.callBack] at h

/-- The call is a step of the callback system. -/
theorem callBackFn_step {b : Boot} {s s' : Server} {i : SlotIx} {o : CallOutcome}
    (hw : Wired b s) (hi : (s.epEvents i).mStatus = 1) (h : callBackFn s i o = some s') :
    ∃ a, callbackStep b s a = some s' := by
  rcases callBackFn_cases hw hi h with ⟨o', -, -, -, hs⟩ | ⟨o', -, hc, hs⟩
  · exact ⟨.acceptconnect o', hs⟩
  · exact ⟨.recvdata i o', by rw [callbackStep, if_pos ⟨hi, hc.callBack⟩]; exact hs⟩

/-- `acceptconnect` changes no registered slot. -/
theorem acceptconnect_frame {s s' : Server} {listenFd : Nat} {o : AcceptOutcome} {j : SlotIx}
    (hj : (s.epEvents j).mStatus = 1) (h : acceptconnect s listenFd o = some s') :
    s'.epEvents j = s.epEvents j := by
  have hne {i : SlotIx} (hi : getEventIndex s = some i) : j ≠ i := fun e => by
    rw [e, getEventIndex_free hi] at hj
    cases hj
  cases acceptconnect_cases h with
  | failed => rfl
  | dropped => rfl
  | leaked fd i _ _ _ hi => simp [hne hi]
  | served fd i _ _ _ hi => simp [hne hi]

/-- `recvdata` changes no slot but its own. -/
theorem recvdata_frame {s s' : Server} {clientFd : Nat} {i j : SlotIx} {o : RecvOutcome}
    (hi : (s.epEvents i).mStatus = 1) (hj : j ≠ i) (h : recvdata s clientFd i o = some s') :
    s'.epEvents j = s.epEvents j := by
  cases recvdata_cases hi h with
  | kept => simp [hj]
  | queued => simp [hj]
  | closed => simp [hj]

theorem callBackFn_frame {b : Boot} {s s' : Server} {i j : SlotIx} {o : CallOutcome}
    (hw : Wired b s) (hi : (s.epEvents i).mStatus = 1) (hj : (s.epEvents j).mStatus = 1)
    (hji : j ≠ i) (h : callBackFn s i o = some s') : s'.epEvents j = s.epEvents j := by
  rcases callBackFn_cases hw hi h with ⟨o', -, -, -, hs⟩ | ⟨o', -, -, hs⟩
  · exact acceptconnect_frame hj hs
  · exact recvdata_frame hi hji hs

/-- No slot asks for `EPOLLOUT`, so the second test of the loop never makes a call. -/
theorem wants_out {b : Boot} {s : Server} (hw : Wired b s) (e : EpollEvent) :
    wants s e EPOLLOUT = false := by
  have hz : EPOLLIN &&& EPOLLOUT = 0 := by decide
  rcases hw.mask e.ptr with h | h <;> simp [wants, h, hz]

theorem current_mytask {s s' : Server} {n : Nat} {e : EpollEvent} (h : Current s e)
    (hs : mytaskStep s n = some s') : Current s' e := by
  obtain ⟨t, -, hw⟩ := mytaskStep_cases hs
  have hset (ev : MyEvents) (hev : SameWiring (s.epEvents t.arg) ev) (ts : List Task) :
      Current { s.setSlot t.arg ev with tasks := ts } e := by
    by_cases he : e.ptr = t.arg
    · simpa [Current, he, hev.1, hev.2.2.1] using h
    · simpa [Current, he] using h
  cases hw with
  | take => exact h
  | send => exact h
  | clearLen => exact hset _ (sameWiring_clearLen _) _
  | clearHead => exact hset _ (sameWiring_clearHead _) _

/-! ## The invariant of the loop -/

theorem loopInv_start (b : Boot) : LoopInv b (Loop.start b) :=
  ⟨wired_start b, by simp [Loop.todo, Loop.start], by simp [Loop.todo, Loop.start]⟩

theorem loopInv_epollWait {b : Boot} {l : Loop} {batch : List EpollEvent} (h : LoopInv b l)
    (hr : Ready l.server batch) :
    LoopInv b { l with pending := batch, half := false, calls := [] } := by
  refine ⟨h.wired, fun e he => ?_, by simpa [Loop.todo] using hr.2.1⟩
  have hp := hr.2.2 e (by simpa [Loop.todo] using he)
  cases hk : l.server.kernel.epoll e.fd with
  | none => simp [hk] at hp
  | some item =>
    simp only [hk, Option.map_some, Option.some.injEq] at hp
    exact (h.wired.sync e.ptr e.fd).mp ⟨item.events, by rw [hk, ← hp]⟩

/-- The callback of the first event of the batch leaves the slots of the others alone:
their descriptors differ, and a slot they name is not free. -/
theorem loopInv_call {b : Boot} {l : Loop} {e : EpollEvent} {rest : List EpollEvent}
    {o : CallOutcome} {s : Server} (h : LoopInv b l) (hp : l.pending = e :: rest)
    (hh : l.half = false) (hs : callBackFn l.server e.ptr o = some s) :
    LoopInv b { l with server := s, half := true, calls := l.calls ++ [e] } := by
  have htodo : l.todo = e :: rest := by simp [Loop.todo, hh, hp]
  have hcur := h.current e (by simp [htodo])
  obtain ⟨a, ha⟩ := callBackFn_step h.wired hcur.1 hs
  have honce := h.once
  rw [htodo] at honce
  refine ⟨wired_step h.wired ha, fun e' he' => ?_, ?_⟩
  · have hmem : e' ∈ rest := by simpa [Loop.todo, hp] using he'
    have hcur' := h.current e' (by simp [htodo, hmem])
    have hne : e'.ptr ≠ e.ptr := fun hx => by
      have hfd : e'.fd = e.fd := by rw [← hcur'.2, ← hcur.2, hx]
      rw [List.map_append, List.nodup_append] at honce
      have := (List.nodup_cons.mp honce.2.1).1
      exact this (hfd ▸ List.mem_map_of_mem hmem)
    have hf := callBackFn_frame h.wired hcur.1 hcur'.1 hne hs
    exact ⟨by rw [hf]; exact hcur'.1, by rw [hf]; exact hcur'.2⟩
  · simpa [Loop.todo, hp] using honce

theorem loopInv_step {b : Boot} {l l' : Loop} {a : LoopAction} (h : LoopInv b l)
    (hs : loopStep l a = some l') : LoopInv b l' := by
  cases a with
  | epollWait batch =>
    simp only [loopStep] at hs
    split at hs
    · rename_i hc
      cases hs
      exact loopInv_epollWait h hc.2.2
    · cases hs
  | epollError =>
    simp only [loopStep] at hs
    split at hs
    · cases hs
      exact ⟨h.wired, h.current, h.once⟩
    · cases hs
  | testIn o =>
    simp only [loopStep] at hs
    cases hp : l.pending with
    | nil => simp [hp] at hs
    | cons e rest =>
      simp only [hp] at hs
      split at hs
      · cases hs
      · rename_i hh
        have hh' : l.half = false := by simpa using hh
        split at hs
        · obtain ⟨s, hcb, rfl⟩ := Option.map_eq_some_iff.mp hs
          have := loopInv_call h hp hh' hcb
          simpa [hp] using this
        · cases hs
          have htodo : l.todo = e :: rest := by simp [Loop.todo, hh', hp]
          refine ⟨h.wired, fun e' he' => h.current e' ?_, ?_⟩
          · rw [htodo]
            exact List.mem_cons_of_mem _ (by simpa [Loop.todo] using he')
          · refine h.once.sublist (List.Sublist.map _ ?_)
            simp [Loop.todo, hh', hp]
  | testOut o =>
    simp only [loopStep] at hs
    cases hp : l.pending with
    | nil => simp [hp] at hs
    | cons e rest =>
      simp only [hp] at hs
      split at hs
      · cases hs
      · rename_i hh
        have hh' : l.half = true := by simpa using hh
        rw [if_neg (by simp [wants_out h.wired])] at hs
        cases hs
        have htodo : l.todo = rest := by simp [Loop.todo, hh', hp]
        have honce := h.once
        rw [htodo] at honce
        refine ⟨h.wired, fun e' he' => h.current e' ?_, by simpa [Loop.todo] using honce⟩
        rw [htodo]
        simpa [Loop.todo] using he'
  | mytask n =>
    obtain ⟨s, hm, rfl⟩ := Option.map_eq_some_iff.mp hs
    exact ⟨wired_mytaskStep h.wired hm, fun e he => current_mytask (h.current e he) hm, h.once⟩

theorem loopInv_run {b : Boot} {l : Loop} {as : List LoopAction}
    (h : Transition.run loopStep (Loop.start b) as = some l) : LoopInv b l :=
  Transition.run_invariant (fun _ _ _ hi hs => loopInv_step hi hs) (loopInv_start b) h

/-- A step of the loop leaves the server alone or is one step of the callback system. -/
theorem server_loopStep {b : Boot} {l l' : Loop} {a : LoopAction} (h : LoopInv b l)
    (hs : loopStep l a = some l') :
    l'.server = l.server ∨ ∃ c, callbackStep b l.server c = some l'.server := by
  cases a with
  | epollWait batch =>
    simp only [loopStep] at hs
    split at hs <;> cases hs
    exact Or.inl rfl
  | epollError =>
    simp only [loopStep] at hs
    split at hs <;> cases hs
    exact Or.inl rfl
  | testIn o =>
    simp only [loopStep] at hs
    cases hp : l.pending with
    | nil => simp [hp] at hs
    | cons e rest =>
      simp only [hp] at hs
      split at hs
      · cases hs
      · rename_i hh
        split at hs
        · obtain ⟨s, hcb, rfl⟩ := Option.map_eq_some_iff.mp hs
          have hcur := h.current e (by simp [Loop.todo, hh, hp])
          exact Or.inr (callBackFn_step h.wired hcur.1 hcb)
        · cases hs
          exact Or.inl rfl
  | testOut o =>
    simp only [loopStep] at hs
    cases hp : l.pending with
    | nil => simp [hp] at hs
    | cons e rest =>
      simp only [hp] at hs
      split at hs
      · cases hs
      · rw [if_neg (by simp [wants_out h.wired])] at hs
        cases hs
        exact Or.inl rfl
  | mytask n =>
    obtain ⟨s, hm, rfl⟩ := Option.map_eq_some_iff.mp hs
    exact Or.inr ⟨.mytask n, hm⟩

/-- Every run of the loop is a run of callbacks and task statements. -/
theorem loop_refines_callbacks {b : Boot} {l : Loop} {as : List LoopAction}
    (h : Transition.run loopStep (Loop.start b) as = some l) :
    ∃ cs, Transition.run (callbackStep b) b.start cs = some l.server := by
  have hsim : ∀ l a l' s, (LoopInv b l ∧ l.server = s) → loopStep l a = some l' →
      ∃ cs s', Transition.run (callbackStep b) s cs = some s' ∧
        (LoopInv b l' ∧ l'.server = s') := by
    rintro l a l' s ⟨hi, rfl⟩ hs
    have hi' := loopInv_step hi hs
    rcases server_loopStep hi hs with e | ⟨c, hc⟩
    · exact ⟨[], _, rfl, hi', e⟩
    · exact ⟨[c], _, Transition.run_cons_eq_some.mpr ⟨_, hc, rfl⟩, hi', rfl⟩
  obtain ⟨cs, s, hr, -, rfl⟩ :=
    Transition.run_simulation hsim (t := b.start) ⟨loopInv_start b, rfl⟩ h
  exact ⟨cs, hr⟩

/-! ## Registration and dispatch -/

/-- The slot table and the epoll set agree. -/
structure InStep (b : Boot) (s : Server) : Prop where
  registered : ∀ i, (s.epEvents i).mStatus = 1 ↔
    ∃ events, s.kernel.epoll (s.epEvents i).mFd = some ⟨i, events⟩
  pointers : ∀ i fd events, s.kernel.epoll fd = some ⟨i, events⟩ → (s.epEvents i).mFd = fd
  distinct : ∀ i j, (s.epEvents i).mStatus = 1 → (s.epEvents j).mStatus = 1 →
    (s.epEvents i).mFd = (s.epEvents j).mFd → i = j
  listener : b.ctlOk = true → (s.epEvents listenSlot).mStatus = 1 ∧
    (s.epEvents listenSlot).mFd = b.listenFd ∧
    (s.epEvents listenSlot).callBack = some .acceptconnect
  client : ∀ i, (s.epEvents i).mStatus = 1 → ¬ (b.ctlOk = true ∧ i = listenSlot) →
    (s.epEvents i).callBack = some .recvdata ∧ (s.epEvents i).mArg = some i

theorem Wired.inStep {b : Boot} {s : Server} (h : Wired b s) : InStep b s where
  registered := fun i => ((h.sync i _).trans (and_iff_left rfl)).symm
  pointers := fun i fd events he => ((h.sync i fd).mp ⟨events, he⟩).2
  distinct := fun _ _ => h.fd_inj
  listener := h.listener
  client := fun i hi hl =>
    have hc := (h.client i hi).resolve_left hl
    ⟨hc.callBack, hc.mArg⟩

/-- A callback is only ever made by the first test, for an event still to do. -/
theorem callMade_todo {b : Boot} {l : Loop} {a : LoopAction} {e : EpollEvent}
    (h : LoopInv b l) (hc : callMade l a = some e) : e ∈ l.todo := by
  cases a with
  | testIn o =>
    simp only [callMade, Option.filter_eq_some_iff, Bool.and_eq_true, Bool.not_eq_eq_eq_not,
      Bool.not_true] at hc
    obtain ⟨hhead, hh, -⟩ := hc
    rw [Loop.todo, hh]
    exact List.mem_of_mem_head? hhead
  | testOut o =>
    simp only [callMade, Option.filter_eq_some_iff, wants_out h.wired, Bool.and_false,
      Bool.false_eq_true, and_false] at hc
  | epollWait batch => cases hc
  | epollError => cases hc
  | mytask n => cases hc

/-- After every run of the loop the table and the epoll set agree, no event of the batch
has led to two callbacks, and whatever callback comes next is made for a slot that is
still registered with the descriptor the event was reported for. -/
theorem loop_inStep {b : Boot} {l : Loop} {as : List LoopAction}
    (h : Transition.run loopStep (Loop.start b) as = some l) :
    InStep b l.server ∧ (l.calls.map EpollEvent.fd).Nodup ∧
      ∀ a e, callMade l a = some e →
        Current l.server e ∧ (∃ events, l.server.kernel.epoll e.fd = some ⟨e.ptr, events⟩) ∧
        e.fd ∉ l.calls.map EpollEvent.fd := by
  have hi := loopInv_run h
  have honce := hi.once
  rw [List.map_append, List.nodup_append] at honce
  refine ⟨hi.wired.inStep, honce.1, fun a e hc => ?_⟩
  have hmem := callMade_todo hi hc
  have hcur := hi.current e hmem
  refine ⟨hcur, (hi.wired.sync e.ptr e.fd).mpr hcur, fun hin => ?_⟩
  exact honce.2.2 _ hin _ (List.mem_map_of_mem hmem) rfl

/-- A connection is accepted in one batch; in the next one its peer closes, and the
listener, reported after it, accepts another into the same slot and number. -/
def twoBatches : List LoopAction :=
  [.epollWait [⟨EPOLLIN, listenSlot, 4⟩],
   .testIn (.acceptconnect ⟨some 5, true, true⟩), .testOut (.senddata 0),
   .epollWait [⟨EPOLLIN, 0, 5⟩, ⟨EPOLLIN, listenSlot, 4⟩],
   .testIn (.recvdata ⟨.peerClosed, true⟩), .testOut (.senddata 0),
   .testIn (.acceptconnect ⟨some 5, true, true⟩)]

theorem loop_inStep_twoBatches :
    ∃ l, Transition.run loopStep (Loop.start plainBoot) twoBatches = some l ∧
      InStep plainBoot l.server ∧ (l.calls.map EpollEvent.fd).Nodup :=
  have hr : Transition.run loopStep (Loop.start plainBoot) twoBatches = some _ := rfl
  ⟨_, hr, (loop_inStep hr).1, (loop_inStep hr).2.1⟩

end Netepoll
