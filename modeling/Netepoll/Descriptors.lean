import Netepoll.Registration

/-! Who closes an accepted descriptor. The kernel keeps a ledger of the connections it
handed out and of those closed. A run loses no descriptor exactly when `epoll_ctl` takes
every connection `acceptconnect` gives it: `eventadd` has no way to report a refusal. -/

namespace Netepoll

/-! ## The ledger of the kernel -/

/-- Every accepted connection is open under one number or was closed, once. -/
structure Ledger (k : Kernel) : Prop where
  known : ∀ fd c, k.fds fd = some (.conn c) → c < k.accepted
  unique : ∀ fd fd' c, k.fds fd = some (.conn c) → k.fds fd' = some (.conn c) → fd = fd'
  settled : ∀ c, c < k.accepted →
    ((∃ fd, k.fds fd = some (.conn c)) ↔ some (.conn c) ∉ k.closes)
  ours : ∀ h ∈ k.closes, ∃ c, c < k.accepted ∧ h = some (.conn c)
  once : k.closes.Nodup

theorem Ledger.congr {k k' : Kernel} (h : Ledger k) (hf : k'.fds = k.fds)
    (ha : k'.accepted = k.accepted) (hc : k'.closes = k.closes) : Ledger k' := by
  obtain ⟨h1, h2, h3, h4, h5⟩ := h
  constructor <;> simp only [hf, ha, hc] <;> assumption

theorem ledger_start (b : Boot) : Ledger b.kernel := by
  have hno (fd c : Nat) : b.kernel.fds fd ≠ some (.conn c) := by
    simp only [Boot.kernel]
    split
    · simp
    · split <;> simp
  refine ⟨fun fd c h => absurd h (hno fd c), fun fd _ c h => absurd h (hno fd c), fun c h => ?_,
    fun h hm => ?_, List.nodup_nil⟩
  · cases h
  · cases hm

theorem Ledger.addConn {k : Kernel} (h : Ledger k) {fd : Nat} (hf : k.fds fd = none) :
    Ledger (k.addConn fd) := by
  have hold (d c : Nat) (hd : k.fds d = some (.conn c)) : d ≠ fd := fun e => by
    rw [e, hf] at hd
    cases hd
  -- a connection that is open is the new one or an old one
  have hcases (d c : Nat) (hd : (k.addConn fd).fds d = some (.conn c)) :
      (d = fd ∧ c = k.accepted) ∨ k.fds d = some (.conn c) := by
    by_cases e : d = fd
    · subst e
      simp only [Kernel.addConn_fds, Function.update_self, Option.some.injEq,
        Handle.conn.injEq] at hd
      exact Or.inl ⟨rfl, hd.symm⟩
    · simp only [Kernel.addConn_fds, Function.update_of_ne e] at hd
      exact Or.inr hd
  refine ⟨fun d c hd => ?_, fun d d' c hd hd' => ?_, fun c hc => ?_, fun x hx => ?_, h.once⟩
  · rcases hcases d c hd with ⟨-, rfl⟩ | hd
    · exact Nat.lt_succ_self _
    · exact Nat.lt_succ_of_lt (h.known d c hd)
  · rcases hcases d c hd with ⟨hdf, hc⟩ | hold₁ <;> rcases hcases d' c hd' with ⟨hdf', hc'⟩ | hold₂
    · rw [hdf, hdf']
    · exact absurd (h.known d' c hold₂) (by omega)
    · exact absurd (h.known d c hold₁) (by omega)
    · exact h.unique d d' c hold₁ hold₂
  · rcases Nat.lt_succ_iff_lt_or_eq.mp hc with hc | rfl
    · rw [Kernel.addConn_closes, ← h.settled c hc]
      constructor
      · rintro ⟨d, hd⟩
        rcases hcases d c hd with ⟨-, rfl⟩ | hd
        · exact absurd hc (Nat.lt_irrefl _)
        · exact ⟨d, hd⟩
      · rintro ⟨d, hd⟩
        exact ⟨d, by simpa [hold d c hd] using hd⟩
    · refine iff_of_true ⟨fd, by simp⟩ fun hx => ?_
      obtain ⟨c, hc, e⟩ := h.ours _ hx
      cases e
      exact Nat.lt_irrefl _ hc
  · obtain ⟨c, hc, rfl⟩ := h.ours x hx
    exact ⟨c, Nat.lt_succ_of_lt hc, rfl⟩

theorem Ledger.close {k : Kernel} (h : Ledger k) {fd c : Nat} (hf : k.fds fd = some (.conn c)) :
    Ledger (k.close fd) := by
  have hrest (d c' : Nat) (hd : (k.close fd).fds d = some (.conn c')) :
      d ≠ fd ∧ k.fds d = some (.conn c') := by
    by_cases e : d = fd
    · simp [e] at hd
    · simp only [Kernel.close_fds, Function.update_of_ne e] at hd
      exact ⟨e, hd⟩
  have hc := h.known fd c hf
  have hnot : some (.conn c) ∉ k.closes := (h.settled c hc).mp ⟨fd, hf⟩
  refine ⟨fun d c' hd => h.known d c' (hrest d c' hd).2,
    fun d d' c' hd hd' => h.unique d d' c' (hrest d c' hd).2 (hrest d' c' hd').2,
    fun c' hc' => ?_, fun x hx => ?_, ?_⟩
  · by_cases e : c' = c
    · subst e
      refine iff_of_false ?_ (by simp [hf])
      rintro ⟨d, hd⟩
      exact (hrest d c' hd).1 (h.unique d fd c' (hrest d c' hd).2 hf)
    · have hsame : some (Handle.conn c') ∉ (k.close fd).closes ↔
          some (Handle.conn c') ∉ k.closes := by simp [hf, e]
      rw [hsame, ← h.settled c' hc']
      constructor
      · rintro ⟨d, hd⟩
        exact ⟨d, (hrest d c' hd).2⟩
      · rintro ⟨d, hd⟩
        have hne : d ≠ fd := fun ed => e (by rw [ed, hf] at hd; cases hd; rfl)
        exact ⟨d, by simpa [hne] using hd⟩
  · rw [Kernel.close_closes, hf, List.mem_append, List.mem_singleton] at hx
    rcases hx with hx | rfl
    · exact h.ours x hx
    · exact ⟨c, hc, rfl⟩
  · rw [Kernel.close_closes, hf]
    refine List.nodup_append.mpr
      ⟨h.once, List.nodup_cons.mpr ⟨by simp, List.nodup_nil⟩, fun x hx y hy => ?_⟩
    rw [List.mem_singleton] at hy
    rintro rfl
    exact hnot (hy ▸ hx)

/-! ## Conservation -/

/-- Slot `i` is registered for a client. -/
def ClientSlot (s : Server) (i : SlotIx) : Prop :=
  (s.epEvents i).mStatus = 1 ∧ (s.epEvents i).callBack = some .recvdata

/-- Every open connection has a client slot. -/
def AllOwned (s : Server) : Prop :=
  ∀ fd c, s.kernel.fds fd = some (.conn c) → ∃ i, ClientSlot s i ∧ (s.epEvents i).mFd = fd

/-- The open connections are the descriptors of the client slots, one slot each, and
every other connection accepted so far was closed exactly once. -/
structure Conserved (s : Server) : Prop where
  ledger : Ledger s.kernel
  owned : ∀ fd c, s.kernel.fds fd = some (.conn c) →
    ∃! i, ClientSlot s i ∧ (s.epEvents i).mFd = fd
  isOpen : ∀ i, ClientSlot s i → ∃ c, s.kernel.fds (s.epEvents i).mFd = some (.conn c)

/-- The invariant that holds in every run, also in those that lose descriptors. -/
structure Booked (b : Boot) (s : Server) : Prop where
  wired : Wired b s
  ledger : Ledger s.kernel

theorem Booked.conserved_iff {b : Boot} {s : Server} (h : Booked b s) :
    Conserved s ↔ AllOwned s := by
  constructor
  · intro hc fd c hf
    obtain ⟨i, hi, -⟩ := hc.owned fd c hf
    exact ⟨i, hi⟩
  · intro ho
    refine ⟨h.ledger, fun fd c hf => ?_, fun i hi => (h.wired.serves hi.1 hi.2).handle⟩
    obtain ⟨i, hi, hfd⟩ := ho fd c hf
    refine ⟨i, ⟨hi, hfd⟩, fun j hj => ?_⟩
    exact h.wired.fd_inj hj.1.1 hi.1 (hj.2.trans hfd.symm)

theorem booked_start (b : Boot) : Booked b b.start := by
  refine ⟨wired_start b, ?_⟩
  rw [start_eq]
  split <;> exact (ledger_start b).congr rfl rfl rfl

theorem allOwned_start (b : Boot) : AllOwned b.start := by
  intro fd c hf
  have hk : b.start.kernel.fds = b.kernel.fds := by
    rw [start_eq]
    split <;> rfl
  rw [hk] at hf
  exact absurd ((ledger_start b).known fd c hf) (Nat.not_lt_zero _)

theorem ledger_acceptconnect {s s' : Server} {listenFd : Nat} {o : AcceptOutcome}
    (h : Ledger s.kernel) (hs : acceptconnect s listenFd o = some s') : Ledger s'.kernel := by
  cases acceptconnect_cases hs with
  | failed => exact h
  | dropped fd _ _ hf _ => exact (h.addConn hf).close (c := s.kernel.accepted) (by simp)
  | leaked fd i _ _ hf _ _ _ => exact h.addConn hf
  | served fd i _ _ hf _ _ _ _ => exact (h.addConn hf).congr rfl rfl rfl

theorem ledger_recvdata {b : Boot} {s s' : Server} {i : SlotIx} {o : RecvOutcome}
    (hw : Wired b s) (h : Ledger s.kernel) (hi : ClientSlot s i)
    (hs : recvdata s (s.epEvents i).mFd i o = some s') : Ledger s'.kernel := by
  cases recvdata_cases hi.1 hs with
  | kept => exact h
  | queued => exact h
  | closed ev _ =>
    obtain ⟨c, hc⟩ := (hw.serves hi.1 hi.2).handle
    exact h.close hc

theorem mytaskStep_kernel {s s' : Server} {n : Nat} (hs : mytaskStep s n = some s') :
    s'.kernel = s.kernel := by
  obtain ⟨t, -, hw⟩ := mytaskStep_cases hs
  cases hw <;> rfl

theorem booked_step {b : Boot} {s s' : Server} {a : Action} (h : Booked b s)
    (hs : callbackStep b s a = some s') : Booked b s' := by
  refine ⟨wired_step h.wired hs, ?_⟩
  cases a with
  | acceptconnect o => exact ledger_acceptconnect h.ledger hs
  | recvdata i o =>
    simp only [callbackStep] at hs
    split at hs
    · rename_i hi
      exact ledger_recvdata h.wired h.ledger hi hs
    · cases hs
  | mytask n => exact (mytaskStep_kernel hs) ▸ h.ledger

/-! ## Where a descriptor is lost -/

/-- When `acceptconnect` gets as far as `eventadd`, `epoll_ctl` succeeds. -/
def AddSucceeds (s : Server) : Action → Prop
  | .acceptconnect o => o.connectFd.isSome = true → (getEventIndex s).isSome = true →
      o.fcntlOk = true → o.ctlOk = true
  | _ => True

instance AddSucceeds.decidable (s : Server) : (a : Action) → Decidable (AddSucceeds s a)
  | .acceptconnect o => inferInstanceAs (Decidable (o.connectFd.isSome = true →
      (getEventIndex s).isSome = true → o.fcntlOk = true → o.ctlOk = true))
  | .recvdata _ _ => isTrue trivial
  | .mytask _ => isTrue trivial

theorem allOwned_acceptconnect {b : Boot} {s s' : Server} {o : AcceptOutcome}
    (hb : Booked b s) (h : AllOwned s) (hs : acceptconnect s b.listenFd o = some s') :
    AllOwned s' ↔ AddSucceeds s (.acceptconnect o) := by
  -- a slot that was free is not the slot of any open connection
  have hkeep {i : SlotIx} {ev : MyEvents} {k : Kernel} (hi : getEventIndex s = some i)
      {fd c : Nat} (hf : s.kernel.fds fd = some (.conn c)) :
      ∃ j, ClientSlot ({ s with kernel := k }.setSlot i ev) j ∧
        (({ s with kernel := k }.setSlot i ev).epEvents j).mFd = fd := by
    obtain ⟨j, hj, hfd⟩ := h fd c hf
    have hne : j ≠ i := fun e => by
      have := getEventIndex_free hi
      rw [← e, hj.1] at this
      cases this
    exact ⟨j, by simpa [ClientSlot, hne] using hj, by simpa [hne] using hfd⟩
  cases acceptconnect_cases hs with
  | failed ho => exact iff_of_true h (by simp [AddSucceeds, ho])
  | dropped fd ho _ hf hd =>
    refine iff_of_true (fun d c hd => ?_) ?_
    · have hne : d ≠ fd := fun e => by simp [e] at hd
      exact h d c (by simpa [hne] using hd)
    · rcases hd with hd | hd <;> simp [AddSucceeds, hd]
  | leaked fd i ho _ hf hi hfc hctl =>
    have hrefused : o.ctlOk = false :=
      hctl.resolve_right (fun hx => hx (hb.wired.epoll_free hf))
    refine iff_of_false (fun hall => ?_) (by simp [AddSucceeds, ho, hi, hfc, hrefused])
    obtain ⟨j, hj, hfd⟩ := hall fd s.kernel.accepted (by simp)
    by_cases hji : j = i
    · subst hji
      simp [ClientSlot, acceptedSlot, eventsetinit] at hj
    · have hj1 : (s.epEvents j).mStatus = 1 := by simpa [hji] using hj.1
      have hj2 : (s.epEvents j).mFd = fd := by simpa [hji] using hfd
      exact hb.wired.isOpen hj1 (hj2 ▸ hf)
  | served fd i ho _ hf hi hfc hctl _ =>
    refine iff_of_true (fun d c hd => ?_) (fun _ _ _ => hctl)
    by_cases e : d = fd
    · subst e
      exact ⟨i, by simp [ClientSlot, servedSlot, acceptedSlot, eventsetinit],
        by simp [servedSlot, acceptedSlot, eventsetinit]⟩
    · exact hkeep hi (by simpa [e] using hd)

theorem allOwned_recvdata {s s' : Server} {i : SlotIx} {o : RecvOutcome} (h : AllOwned s)
    (hi : ClientSlot s i) (hs : recvdata s (s.epEvents i).mFd i o = some s') :
    AllOwned s' := by
  have hsame (bs : List UInt8) (ts : List Task) :
      AllOwned { s.setSlot i (received (s.epEvents i) bs) with tasks := ts } := by
    intro fd c hf
    obtain ⟨j, hj, hfd⟩ := h fd c hf
    by_cases hji : j = i
    · subst hji
      exact ⟨j, by simpa [ClientSlot, received, addLen, recvStore] using hj,
        by simpa [received, addLen, recvStore] using hfd⟩
    · exact ⟨j, by simpa [ClientSlot, hji] using hj, by simpa [hji] using hfd⟩
  cases recvdata_cases hi.1 hs with
  | kept bs => exact hsame bs s.tasks
  | queued bs => exact hsame bs _
  | closed ev _ =>
    intro fd c hf
    have hne : fd ≠ (s.epEvents i).mFd := fun e => by simp [e] at hf
    obtain ⟨j, hj, hfd⟩ := h fd c (by simpa [hne] using hf)
    have hji : j ≠ i := fun e => hne (by rw [← hfd, e])
    exact ⟨j, by simpa [ClientSlot, hji] using hj, by simpa [hji] using hfd⟩

theorem allOwned_mytask {s s' : Server} {n : Nat} (h : AllOwned s)
    (hs : mytaskStep s n = some s') : AllOwned s' := by
  intro fd c hf
  rw [mytaskStep_kernel hs] at hf
  obtain ⟨j, hj, hfd⟩ := h fd c hf
  obtain ⟨t, -, hw⟩ := mytaskStep_cases hs
  refine ⟨j, ?_⟩
  cases hw with
  | take => exact ⟨hj, hfd⟩
  | send => exact ⟨hj, hfd⟩
  | clearLen =>
    by_cases e : j = t.arg
    · subst e
      simpa [ClientSlot, clearLen] using And.intro hj hfd
    · simpa [ClientSlot, e] using And.intro hj hfd
  | clearHead =>
    by_cases e : j = t.arg
    · subst e
      simpa [ClientSlot, clearHead] using And.intro hj hfd
    · simpa [ClientSlot, e] using And.intro hj hfd

theorem allOwned_step {b : Boot} {s s' : Server} {a : Action} (hb : Booked b s)
    (h : AllOwned s) (hs : callbackStep b s a = some s') : AllOwned s' ↔ AddSucceeds s a := by
  cases a with
  | acceptconnect o => exact allOwned_acceptconnect hb h hs
  | recvdata i o =>
    simp only [callbackStep] at hs
    split at hs
    · rename_i hi
      exact iff_of_true (allOwned_recvdata h hi hs) trivial
    · cases hs
  | mytask n => exact iff_of_true (allOwned_mytask h hs) trivial

/-- Descriptors are conserved all along a run if and only if every `acceptconnect` that
reaches `eventadd` finds `epoll_ctl` willing. -/
theorem conserved_iff_addSucceeds {b : Boot} {s : Server} {as : List Action}
    (hr : Transition.run (callbackStep b) b.start as = some s) :
    (∀ pre suf t, as = pre ++ suf → Transition.run (callbackStep b) b.start pre = some t →
      Conserved t) ↔ Transition.Along (callbackStep b) AddSucceeds b.start as := by
  refine Transition.prefixes_iff_along (J := Booked b) (fun s a s' h hs => booked_step h hs)
    (fun s a s' hb h hs => ?_) (booked_start b) ?_ hr
  · rw [(booked_step hb hs).conserved_iff]
    exact allOwned_step hb (hb.conserved_iff.mp h) hs
  · exact (booked_start b).conserved_iff.mpr (allOwned_start b)

/-- A connection that its peer closes. -/
def acceptCloseRun : List Action :=
  [.acceptconnect ⟨some 5, true, true⟩, .recvdata 0 ⟨.peerClosed, true⟩]

theorem conserved_iff_addSucceeds_acceptCloseRun : ∃ s,
    Transition.run (callbackStep plainBoot) plainBoot.start acceptCloseRun = some s ∧
      Conserved s := by
  have hr : Transition.run (callbackStep plainBoot) plainBoot.start acceptCloseRun = some _ :=
    rfl
  have hall := (conserved_iff_addSucceeds hr).mpr (by decide)
  exact ⟨_, hr, hall acceptCloseRun [] _ (List.append_nil _).symm hr⟩

/-- `epoll_ctl` has no room for the first connection. -/
def refusedRun : List Action := [.acceptconnect ⟨some 5, true, false⟩]

theorem not_conserved_refusedRun :
    ¬ ∀ (b : Boot) (as : List Action) (s : Server),
      Transition.run (callbackStep b) b.start as = some s → Conserved s := by
  intro h
  have hs : callbackStep plainBoot plainBoot.start (.acceptconnect ⟨some 5, true, false⟩) =
    some _ := rfl
  have hr := Transition.run_cons_eq_some.mpr ⟨_, hs, Transition.run_nil _ _⟩
  have hall := (booked_step (booked_start plainBoot) hs).conserved_iff.mp (h _ refusedRun _ hr)
  have hok := (allOwned_step (booked_start plainBoot) (allOwned_start _) hs).mp hall
  revert hok
  decide

end Netepoll
