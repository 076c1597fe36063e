import Netepoll.Callbacks

/-! One slot and the epoll set under any calls of `eventadd` and `eventdel` (eventctl.c). The
main loop calls back for an event that is both in the mask of the kernel and in `m_event`. -/

namespace Netepoll

/-- A call for the slot; `ctlOk` is the result of `epoll_ctl(EPOLL_CTL_ADD)`. -/
inductive SlotCall where
  | eventadd (event : UInt32) (ctlOk : Bool)
  | eventdel
  deriving DecidableEq

def slotCall (i : SlotIx) (s : Server) : SlotCall → Server
  | .eventadd event ctlOk => eventadd s event i ctlOk
  | .eventdel => eventdel s i

def slotStep (i : SlotIx) (s : Server) (c : SlotCall) : Option Server := some (slotCall i s c)

/-- `eventsetinit(&Ep_events[i], fd, call_back, event_arg)` -/
def Server.initSlot (s : Server) (i : SlotIx) (fd : Nat) (callBack : CallBack)
    (eventArg : SlotIx) : Server :=
  s.setSlot i (eventsetinit (s.epEvents i) fd callBack eventArg)

/-- `m_status` is 1 exactly when the kernel has the descriptor registered, and then `m_event` is
the registered mask. -/
structure SlotAgrees (i : SlotIx) (fd : Nat) (s : Server) : Prop where
  status : (s.epEvents i).mStatus = 1 ↔ (s.kernel.epoll fd).isSome = true
  mask : ∀ item, s.kernel.epoll fd = some item → (s.epEvents i).mEvent = item.events

/-- An `eventadd` that does not register: the slot is already on the tree, or `epoll_ctl`
fails. -/
def Refused (i : SlotIx) (s : Server) : SlotCall → Prop
  | .eventadd event ctlOk => (s.epEvents i).mStatus ≠ 0 ∨
      s.kernel.epollAdd (s.epEvents i).mFd ⟨i, event⟩ ctlOk = none
  | .eventdel => False

/-- The call leaves slot and kernel in step, and the slot alone if it is refused. -/
def Kept (i : SlotIx) (fd : Nat) (s : Server) (c : SlotCall) : Prop :=
  SlotAgrees i fd (slotCall i s c) ∧
    (Refused i s c → (slotCall i s c).epEvents i = s.epEvents i)

/-- A refused `eventadd` asks for the events that the slot has in `m_event` already. -/
def SameMask (i : SlotIx) (s : Server) : SlotCall → Prop
  | .eventadd event ctlOk =>
    Refused i s (.eventadd event ctlOk) → event = (s.epEvents i).mEvent
  | .eventdel => True

instance Refused.decidable (i : SlotIx) (s : Server) :
    (c : SlotCall) → Decidable (Refused i s c)
  | .eventadd _ _ => inferInstanceAs (Decidable (_ ∨ _))
  | .eventdel => inferInstanceAs (Decidable False)

instance SameMask.decidable (i : SlotIx) (s : Server) :
    (c : SlotCall) → Decidable (SameMask i s c)
  | .eventadd event ctlOk =>
    inferInstanceAs (Decidable (Refused i s (.eventadd event ctlOk) → event = _))
  | .eventdel => inferInstanceAs (Decidable True)

/-- The slot is free, or registered with its own mask. -/
structure Synced (i : SlotIx) (fd : Nat) (s : Server) : Prop where
  mFd : (s.epEvents i).mFd = fd
  sync : ((s.epEvents i).mStatus = 0 ∧ s.kernel.epoll fd = none) ∨
    ((s.epEvents i).mStatus = 1 ∧ s.kernel.epoll fd = some ⟨i, (s.epEvents i).mEvent⟩)

theorem Synced.agrees {i : SlotIx} {fd : Nat} {s : Server} (h : Synced i fd s) :
    SlotAgrees i fd s := by
  rcases h.sync with ⟨hstatus, hnone⟩ | ⟨hstatus, hitem⟩
  · refine ⟨by simp [hstatus, hnone], fun item hitem => ?_⟩
    rw [hnone] at hitem
    cases hitem
  · refine ⟨by simp [hstatus, hitem], fun item hsome => ?_⟩
    rw [hitem] at hsome
    cases hsome
    rfl

theorem synced_initSlot {s : Server} {fd : Nat} (h : s.kernel.epoll fd = none) (i : SlotIx)
    (callBack : CallBack) (eventArg : SlotIx) :
    Synced i fd (s.initSlot i fd callBack eventArg) := by
  constructor
  · simp [Server.initSlot, eventsetinit]
  · exact .inl ⟨by simp [Server.initSlot, eventsetinit], h⟩

/-- The slot after `my_ev->m_event = event`. -/
theorem setEvent_eq_iff {ev : MyEvents} {event : UInt32} :
    { ev with mEvent := event } = ev ↔ event = ev.mEvent := by
  constructor
  · exact congrArg MyEvents.mEvent
  · rintro rfl
    rfl

/-! ## One call -/

theorem eventadd_onTree {s : Server} {event : UInt32} {i : SlotIx} {ctlOk : Bool}
    (h : (s.epEvents i).mStatus ≠ 0) :
    eventadd s event i ctlOk = s.setSlot i { s.epEvents i with mEvent := event } := by
  unfold eventadd
  simp only [Server.setSlot_epEvents, Function.update_self]
  rw [if_neg h]

/-- A refused `eventadd` only stores the mask. -/
theorem eventadd_refused {s : Server} {event : UInt32} {i : SlotIx} {ctlOk : Bool}
    (h : Refused i s (.eventadd event ctlOk)) :
    eventadd s event i ctlOk = s.setSlot i { s.epEvents i with mEvent := event } := by
  by_cases h0 : (s.epEvents i).mStatus = 0
  · have hnone := h.resolve_left fun hne => hne h0
    rw [eventadd_eq h0, hnone]
  · exact eventadd_onTree h0

theorem synced_eventadd {i : SlotIx} {fd : Nat} {s : Server} (h : Synced i fd s)
    {event : UInt32} {ctlOk : Bool} (hok : ¬ Refused i s (.eventadd event ctlOk)) :
    Synced i fd (eventadd s event i ctlOk) := by
  obtain ⟨h0, hadd⟩ := not_or.mp hok
  have h0 := not_not.mp h0
  obtain ⟨k, hk⟩ := Option.ne_none_iff_exists'.mp hadd
  have hcopy := (Kernel.epollAdd_eq_some.mp hk).2
  rw [eventadd_eq h0, hk]
  constructor
  · simpa using h.mFd
  · refine .inr ⟨by simp, ?_⟩
    rw [← hcopy, h.mFd]
    simp

theorem synced_eventdel {i : SlotIx} {fd : Nat} {s : Server} (h : Synced i fd s) :
    Synced i fd (eventdel s i) := by
  rcases h.sync with ⟨hstatus, -⟩ | ⟨hstatus, -⟩
  · rwa [eventdel, if_pos (by rw [hstatus]; decide)]
  · rw [eventdel, if_neg (by rw [hstatus]; decide)]
    constructor
    · simpa using h.mFd
    · refine .inl ⟨by simp, ?_⟩
      simp [Kernel.epollDel, h.mFd]

/-- A refused call keeps the slot in step exactly when it changes nothing. -/
theorem kept_refused_iff {i : SlotIx} {fd : Nat} {s : Server} (h : Synced i fd s)
    {event : UInt32} {ctlOk : Bool} (hr : Refused i s (.eventadd event ctlOk)) :
    Kept i fd s (.eventadd event ctlOk) ↔ event = (s.epEvents i).mEvent := by
  rw [Kept, slotCall, eventadd_refused hr]
  simp only [Server.setSlot_epEvents, Function.update_self, setEvent_eq_iff]
  constructor
  · exact fun hkept => hkept.2 hr
  · intro hevent
    refine ⟨?_, fun _ => hevent⟩
    have hsame : { s.epEvents i with mEvent := event } = s.epEvents i := setEvent_eq_iff.mpr hevent
    rw [hsame, Server.setSlot_self]
    exact h.agrees

theorem kept_iff {i : SlotIx} {fd : Nat} {s : Server} (h : Synced i fd s) (c : SlotCall) :
    Kept i fd s c ↔ SameMask i s c := by
  cases c with
  | eventadd event ctlOk =>
    by_cases hr : Refused i s (.eventadd event ctlOk)
    · rw [kept_refused_iff h hr]
      exact ⟨fun hevent _ => hevent, fun hsame => hsame hr⟩
    · exact iff_of_true ⟨(synced_eventadd h hr).agrees, fun hc => absurd hc hr⟩
        fun hc => absurd hc hr
  | eventdel => exact iff_of_true ⟨(synced_eventdel h).agrees, False.elim⟩ trivial

theorem synced_step {i : SlotIx} {fd : Nat} {s t : Server} {c : SlotCall} (h : Synced i fd s)
    (hc : SameMask i s c) (hstep : slotStep i s c = some t) : Synced i fd t := by
  cases hstep
  cases c with
  | eventadd event ctlOk =>
    by_cases hr : Refused i s (.eventadd event ctlOk)
    · have hsame : { s.epEvents i with mEvent := event } = s.epEvents i :=
        setEvent_eq_iff.mpr (hc hr)
      rw [slotCall, eventadd_refused hr, hsame, Server.setSlot_self]
      exact h
    · exact synced_eventadd h hr
  | eventdel => exact synced_eventdel h

/-! ## Runs -/

/-- From an unregistered descriptor on, every call keeps slot and kernel in step and every
refused one leaves the slot alone, if and only if every refused one has the mask of the slot. -/
theorem slotCalls_kept_iff {s : Server} {fd : Nat} (hfree : s.kernel.epoll fd = none) (i : SlotIx)
    (callBack : CallBack) (eventArg : SlotIx) (calls : List SlotCall) :
    Transition.Along (slotStep i) (Kept i fd) (s.initSlot i fd callBack eventArg) calls ↔
      Transition.Along (slotStep i) (SameMask i) (s.initSlot i fd callBack eventArg) calls :=
  Transition.along_congr (fun _ _ _ => synced_step) (fun _ c h => kept_iff h c)
    (synced_initSlot hfree i callBack eventArg)

/-- A server that has descriptor 4 open and nothing registered. -/
def idleServer : Server := ⟨fun _ => MyEvents.zero, plainBoot.kernel, []⟩

/-- A slot that is taken off the tree before it changes from reading to writing. -/
theorem slotCalls_kept_iff_switch :
    Transition.Along (slotStep 0) (Kept 0 4) (idleServer.initSlot 0 4 .recvdata 0)
      [.eventadd EPOLLIN true, .eventdel, .eventadd EPOLLOUT true] :=
  (slotCalls_kept_iff (s := idleServer) rfl 0 .recvdata 0 _).mpr (by decide)

/-- The second `eventadd` stores its mask in the slot, and the kernel keeps the first one. -/
theorem not_slotCalls_kept :
    ¬ ∀ (s : Server) (fd : Nat) (i : SlotIx) (callBack : CallBack) (eventArg : SlotIx)
      (calls : List SlotCall), s.kernel.epoll fd = none →
      Transition.Along (slotStep i) (Kept i fd) (s.initSlot i fd callBack eventArg) calls := by
  intro h
  have hcalls := h idleServer 4 0 .recvdata 0 [.eventadd EPOLLIN true, .eventadd EPOLLOUT true] rfl
  have hagrees := ((hcalls.2 _ rfl).1).1
  have hmask := hagrees.mask ⟨0, EPOLLIN⟩ rfl
  exact absurd hmask (by decide)

end Netepoll
