import Netepoll.Registration

/-! Whose descriptor and whose bytes `mytask` uses. A task carries a pointer into the
slot table and nothing else, so what it finds there depends on what ran since it was
queued. Steps that keep clear of unfinished tasks leave every task with its connection
and its frame. -/

namespace Netepoll

/-- The next statement of `t`, its `send`, writes the frame it was queued with to the
connection it was queued for. -/
def SendsOwn (s : Server) (t : Task) : Prop :=
  ∃ c, t.owner = some (.conn c) ∧ s.kernel.fds (s.epEvents t.arg).mFd = some (.conn c) ∧
    rcvBytes (s.epEvents t.arg) = t.frame

/-- The slot `t` is about to reset serves no other connection. -/
def ResetsOwn (s : Server) (t : Task) : Prop :=
  (s.epEvents t.arg).mStatus = 1 → s.kernel.fds (s.epEvents t.arg).mFd = t.owner

/-- Every statement of `mytask` that can run next is about its own connection. -/
def NoCrossTalk (s : Server) : Prop :=
  ∀ t ∈ s.tasks, (t.phase = .taken → SendsOwn s t) ∧
    (t.phase = .sent ∨ t.phase = .lenCleared → ResetsOwn s t)

/-- The step keeps clear of unfinished tasks: no connection is registered in a slot that
has one, no `recvdata` runs on a slot whose task has still to send, and no task changes
a slot in which another task has still to send. -/
def KeepsClear (s : Server) : Action → Prop
  | .acceptconnect o =>
    match getEventIndex s with
    | none => True
    | some i => o.connectFd.isSome = true → o.fcntlOk = true → o.ctlOk = true →
        ∀ t ∈ s.tasks, t.arg ≠ i
  | .recvdata i _ => ∀ t ∈ s.tasks, t.arg = i → ¬ t.Unsent
  | .mytask n =>
    match s.tasks[n]? with
    | none => True
    | some t =>
      t.phase = .sent ∨ (t.phase = .lenCleared ∧ (s.epEvents t.arg).mRcvBuf 0 ≠ 0) →
        ∀ u ∈ s.tasks, u.arg = t.arg → ¬ u.Unsent

instance KeepsClear.decidable (s : Server) : (a : Action) → Decidable (KeepsClear s a)
  | .acceptconnect o =>
    match h : getEventIndex s with
    | none => isTrue (by simp [KeepsClear, h])
    | some i =>
      decidable_of_iff (o.connectFd.isSome = true → o.fcntlOk = true → o.ctlOk = true →
        ∀ t ∈ s.tasks, t.arg ≠ i) (by simp [KeepsClear, h])
  | .recvdata i _ => inferInstanceAs (Decidable (∀ t ∈ s.tasks, t.arg = i → ¬ t.Unsent))
  | .mytask n =>
    match h : s.tasks[n]? with
    | none => isTrue (by simp [KeepsClear, h])
    | some t =>
      decidable_of_iff
        (t.phase = .sent ∨ (t.phase = .lenCleared ∧ (s.epEvents t.arg).mRcvBuf 0 ≠ 0) →
          ∀ u ∈ s.tasks, u.arg = t.arg → ¬ u.Unsent) (by simp only [KeepsClear, h])

/-- What holds of an unfinished task `t`: its slot, when registered, serves its
connection, and until the `send` the slot is registered and holds the frame. -/
structure Owned (s : Server) (t : Task) : Prop where
  owner : ∃ c, t.owner = some (.conn c)
  slot : ResetsOwn s t
  unsent : t.Unsent → (s.epEvents t.arg).mStatus = 1 ∧ rcvBytes (s.epEvents t.arg) = t.frame

theorem noCrossTalk_of_owned {s : Server} (h : ∀ t ∈ s.tasks, Owned s t) : NoCrossTalk s := by
  intro t ht
  obtain ⟨⟨c, hc⟩, hslot, hun⟩ := h t ht
  refine ⟨fun hp => ?_, fun _ => hslot⟩
  obtain ⟨hs, hf⟩ := hun (Or.inr hp)
  exact ⟨c, hc, by rw [hslot hs, hc], hf⟩

/-- A task whose slot is left alone, and whose descriptor is, stays owned. -/
theorem Owned.frame {s s' : Server} {t : Task} (h : Owned s t)
    (he : s'.epEvents t.arg = s.epEvents t.arg)
    (hk : (s.epEvents t.arg).mStatus = 1 →
      s'.kernel.fds (s.epEvents t.arg).mFd = s.kernel.fds (s.epEvents t.arg).mFd) :
    Owned s' t := by
  refine ⟨h.owner, fun hs => ?_, fun hu => ?_⟩
  · rw [he] at hs ⊢
    rw [hk hs, h.slot hs]
  · rw [he]; exact h.unsent hu

/-- Opening a descriptor that was free concerns no registered slot. -/
theorem addConn_fds_of_registered {b : Boot} {s : Server} (h : Wired b s) {fd : Nat}
    (hf : s.kernel.fds fd = none) {i : SlotIx} (hi : (s.epEvents i).mStatus = 1) :
    (s.kernel.addConn fd).fds (s.epEvents i).mFd = s.kernel.fds (s.epEvents i).mFd := by
  have hne : (s.epEvents i).mFd ≠ fd := fun e => h.isOpen hi (e ▸ hf)
  simp [hne]

theorem owned_acceptconnect {b : Boot} {s s' : Server} {o : AcceptOutcome} (hw : Wired b s)
    (h : ∀ t ∈ s.tasks, Owned s t) (hc : KeepsClear s (.acceptconnect o))
    (hs : acceptconnect s b.listenFd o = some s') : ∀ t ∈ s'.tasks, Owned s' t := by
  cases acceptconnect_cases hs with
  | failed => exact h
  | dropped fd _ _ hf _ =>
    intro t ht
    refine (h t ht).frame rfl fun hst => ?_
    have hne : (s.epEvents t.arg).mFd ≠ fd := fun e => hw.isOpen hst (e ▸ hf)
    simp [hne]
  | leaked fd i _ _ hf hi _ _ =>
    intro t ht
    have h0 := getEventIndex_free hi
    by_cases hti : t.arg = i
    · -- the slot was free and stays free, so the task is past its `send`
      refine ⟨(h t ht).owner, fun hst => ?_, fun hu => ?_⟩
      · simp [hti, acceptedSlot, eventsetinit] at hst
      · have := ((h t ht).unsent hu).1
        rw [hti, h0] at this
        cases this
    · exact (h t ht).frame (by simp [hti]) fun hst => addConn_fds_of_registered hw hf hst
  | served fd i ho _ hf hi hfc hctl _ =>
    intro t ht
    have hti : t.arg ≠ i := by
      simp only [KeepsClear, hi, ho] at hc
      exact hc rfl hfc hctl t ht
    exact (h t ht).frame (by simp [hti]) fun hst => addConn_fds_of_registered hw hf hst

theorem owned_recvdata {b : Boot} {s s' : Server} {i : SlotIx} {o : RecvOutcome}
    (hw : Wired b s) (h : ∀ t ∈ s.tasks, Owned s t) (hc : KeepsClear s (.recvdata i o))
    (hi : (s.epEvents i).mStatus = 1) (hcb : (s.epEvents i).callBack = some .recvdata)
    (hs : recvdata s (s.epEvents i).mFd i o = some s') : ∀ t ∈ s'.tasks, Owned s' t := by
  -- a slot update that keeps the wiring keeps the tasks of that slot, all past their `send`
  have hkeep (ev : MyEvents) (he : SameWiring (s.epEvents i) ev) (ts : List Task) :
      ∀ t ∈ s.tasks, Owned { s.setSlot i ev with tasks := ts } t := by
    intro t ht
    by_cases hti : t.arg = i
    · refine ⟨(h t ht).owner, fun _ => ?_, fun hu => absurd hu (hc t ht hti)⟩
      have := (h t ht).slot (hti ▸ hi)
      simpa [hti, he.1] using this
    · exact (h t ht).frame (by simp [hti]) fun _ => rfl
  cases recvdata_cases hi hs with
  | kept bs => exact hkeep _ (sameWiring_received _ bs) s.tasks
  | queued bs =>
    intro t ht
    rcases List.mem_append.mp ht with ht | ht
    · exact hkeep _ (sameWiring_received _ bs) _ t ht
    · rw [List.mem_singleton] at ht
      subst ht
      refine ⟨(hw.serves hi hcb).handle, fun _ => ?_, fun _ => ⟨?_, ?_⟩⟩
      · simp [(sameWiring_received (s.epEvents i) bs).1]
      · simpa [(sameWiring_received (s.epEvents i) bs).2.2.1] using hi
      · simp
  | closed ev hev =>
    intro t ht
    by_cases hti : t.arg = i
    · refine ⟨(h t ht).owner, fun hst => ?_, fun hu => absurd hu (hc t ht hti)⟩
      simp [hti] at hst
    · refine (h t ht).frame (by simp [hti]) fun hst => ?_
      have hne : (s.epEvents t.arg).mFd ≠ (s.epEvents i).mFd := fun e =>
        hti (hw.fd_inj hst hi e)
      simp [hne]

theorem owned_mytask {s s' : Server} {n : Nat} (h : ∀ t ∈ s.tasks, Owned s t)
    (hc : KeepsClear s (.mytask n)) (hs : mytaskStep s n = some s') :
    ∀ t ∈ s'.tasks, Owned s' t := by
  obtain ⟨t, ht, hw⟩ := mytaskStep_cases hs
  have hmem : t ∈ s.tasks := List.mem_of_getElem? ht
  simp only [KeepsClear, ht] at hc
  -- the other tasks of the slot are past their `send`, so an update of its buffer is free
  have hkeep (ev : MyEvents) (he : SameWiring (s.epEvents t.arg) ev)
      (hun : ∀ u ∈ s.tasks, u.arg = t.arg → ¬ u.Unsent) (ts : List Task) :
      ∀ u ∈ s.tasks, Owned { s.setSlot t.arg ev with tasks := ts } u := by
    intro u hu
    by_cases hut : u.arg = t.arg
    · refine ⟨(h u hu).owner, fun hst => ?_, fun hu' => absurd hu' (hun u hu hut)⟩
      have := (h u hu).slot
      simp only [ResetsOwn, hut] at this
      simpa [hut, he.1] using this (by simpa [hut, he.2.2.1] using hst)
    · exact (h u hu).frame (by simp [hut]) fun _ => rfl
  cases hw with
  | take hp =>
    intro u hu
    rcases List.mem_or_eq_of_mem_set hu with hu | rfl
    · exact (h u hu).frame rfl fun _ => rfl
    · exact ⟨(h t hmem).owner, (h t hmem).slot, fun _ => (h t hmem).unsent (Or.inl hp)⟩
  | send hp =>
    intro u hu
    rcases List.mem_or_eq_of_mem_set hu with hu | rfl
    · exact (h u hu).frame rfl fun _ => rfl
    · exact ⟨(h t hmem).owner, (h t hmem).slot, fun hu => by simp [Task.Unsent] at hu⟩
  | clearLen hp =>
    intro u hu
    have hk := hkeep _ (sameWiring_clearLen _) (hc (Or.inl hp))
    rcases List.mem_or_eq_of_mem_set hu with hu | rfl
    · exact hk _ u hu
    · exact ⟨(h t hmem).owner, (hk _ t hmem).slot, fun hu => by simp [Task.Unsent] at hu⟩
  | clearHead hp =>
    intro u hu
    have hu' : u ∈ s.tasks := List.mem_of_mem_eraseIdx hu
    by_cases hz : (s.epEvents t.arg).mRcvBuf 0 = 0
    · -- the byte is 0 already: nothing changes
      have e : (s.setSlot t.arg (clearHead (s.epEvents t.arg))).epEvents = s.epEvents := by
        rw [clearHead_eq_self hz, Server.setSlot_self]
      exact (h u hu').frame (by rw [e]) fun _ => rfl
    · exact hkeep _ (sameWiring_clearHead _) (hc (Or.inr ⟨hp, hz⟩)) _ u hu'

/-- In a run whose steps all keep clear of unfinished tasks, every `send` of a task goes
to the connection it was queued for, which is still open, and carries the frame it was
queued with, and no reset touches the slot of another connection. -/
theorem noCrossTalk_of_keepsClear {b : Boot} {s : Server} {as : List Action}
    (hc : Transition.Along (callbackStep b) KeepsClear b.start as)
    (hr : Transition.run (callbackStep b) b.start as = some s) : NoCrossTalk s := by
  have hinit : Wired b b.start ∧ ∀ t ∈ b.start.tasks, Owned b.start t := by
    refine ⟨wired_start b, ?_⟩
    rw [start_eq]
    split <;> simp
  refine noCrossTalk_of_owned (Transition.along_invariant
    (I := fun s => Wired b s ∧ ∀ t ∈ s.tasks, Owned s t) ?_ hinit hc hr).2
  rintro s a s' ⟨hw, ho⟩ hk hs
  refine ⟨wired_step hw hs, ?_⟩
  cases a with
  | acceptconnect o => exact owned_acceptconnect hw ho hk hs
  | recvdata i o =>
    simp only [callbackStep] at hs
    split at hs
    · rename_i hi
      exact owned_recvdata hw ho hk hi.1 hi.2 hs
    · cases hs
  | mytask n => exact owned_mytask ho hk hs

/-- Two connections send a frame. The first is answered and closes, and the next connection gets
its descriptor and its slot; at the end two workers are about to send. -/
def echoRun : List Action :=
  [.acceptconnect ⟨some 5, true, true⟩, .acceptconnect ⟨some 6, true, true⟩,
   .recvdata 0 ⟨.data [0, 1, 65], true⟩, .recvdata 1 ⟨.data [0, 1, 66], true⟩,
   .mytask 0, .mytask 0, .mytask 0, .mytask 0, .recvdata 0 ⟨.peerClosed, true⟩,
   .acceptconnect ⟨some 5, true, true⟩, .recvdata 0 ⟨.data [0, 1, 67], true⟩,
   .mytask 0, .mytask 1]

theorem noCrossTalk_echoRun :
    ∃ s, Transition.run (callbackStep plainBoot) plainBoot.start echoRun = some s ∧
      s.tasks = [⟨1, .taken, some (.conn 1), [0, 1, 66]⟩, ⟨0, .taken, some (.conn 2), [0, 1, 67]⟩] ∧
      NoCrossTalk s := by
  have hc : Transition.Along (callbackStep plainBoot) KeepsClear plainBoot.start echoRun := by
    decide
  exact ⟨_, rfl, by decide, noCrossTalk_of_keepsClear hc rfl⟩

/-- The peer closes while its frame is queued. The next connection gets the same
descriptor and the same slot and has sent half a frame when the worker runs. -/
def reuseRun : List Action :=
  [.acceptconnect ⟨some 5, true, true⟩, .recvdata 0 ⟨.data [0, 1, 65], true⟩, .mytask 0,
   .recvdata 0 ⟨.peerClosed, true⟩, .acceptconnect ⟨some 5, true, true⟩,
   .recvdata 0 ⟨.data [0, 9, 66], true⟩]

theorem crossTalk_reuseRun :
    ¬ ∀ (b : Boot) (as : List Action) (s : Server),
      Transition.run (callbackStep b) b.start as = some s → NoCrossTalk s := by
  intro h
  have e : (Transition.run (callbackStep plainBoot) plainBoot.start reuseRun).map
      (fun s => (s.tasks, s.kernel.fds (s.epEvents 0).mFd)) =
      some ([⟨0, .taken, some (.conn 0), [0, 1, 65]⟩], some (.conn 1)) := by decide
  obtain ⟨s, hs, he⟩ := Option.map_eq_some_iff.mp e
  simp only [Prod.mk.injEq] at he
  obtain ⟨ht, hfd⟩ := he
  have hmem : ⟨0, .taken, some (.conn 0), [0, 1, 65]⟩ ∈ s.tasks := by simp [ht]
  obtain ⟨c, hc, hsend, -⟩ := (h _ _ s hs _ hmem).1 rfl
  rw [hfd] at hsend
  cases hc
  cases hsend

end Netepoll
