import Netepoll.PoolRuns

/-! The pool cannot get stuck while there is something to do. In runs in which no pthread call
fails and the pool is destroyed once, a measure falls with every step that needs nobody from
outside, and where no such step is left every accepted task has been executed. -/

namespace Netepoll

universe u v

variable {α : Type u} {n : Nat} {κ : Type v}

/-- A step of a thread that is inside a call or a task, in which no pthread call fails. -/
def PoolAction.internal : PoolAction n κ α → Bool
  | .worker _ => true
  | .add _ ok _ => ok
  | .destroy _ ok => ok
  | _ => false

/-- `pthread_cond_wait` returns without a signal. -/
def PoolAction.isSpurious : PoolAction n κ α → Bool
  | .spurious _ => true
  | _ => false

/-! ## The measure -/

def WorkerPc.weight : WorkerPc α → Nat
  | .waiting | .exited => 0
  | .leaving => 1
  | .check => 2
  | .lock | .woken => 3
  | .working _ => 4
  | .grabbed _ => 5

/-- With `n` workers: a broadcast wakes them all, and each is joined. -/
def CallerPc.weight (n : Nat) : CallerPc α → Nat
  | .returned _ => 0
  | .addUnlock _ => 1
  | .addLocked _ => 9
  | .addLock _ => 10
  | .freeLock => 1
  | .free => 2
  | .join j _ => n - j + 3
  | .destroyUnlock => n + 4
  | .destroyLocked _ => 4 * n + 5
  | .destroyLock _ => 4 * n + 6

/-- The steps that are left until somebody calls again. -/
def PoolSystem.effort [Fintype κ] (s : PoolSystem n κ α) : Nat :=
  4 * s.pool.count + Tally.total WorkerPc.weight s.workers +
    Tally.total (CallerPc.weight n) s.callers

theorem weight_woken_le (workers : Fin n → WorkerPc α) :
    Tally.total WorkerPc.weight (broadcast workers) ≤
      Tally.total WorkerPc.weight workers + 3 * n := by
  have h := Tally.total_le_add (f := WorkerPc.weight) (w := workers) (v := broadcast workers)
    (k := 3) fun i => by
      unfold broadcast
      split
      · exact Nat.le_add_left 3 _
      · exact Nat.le_add_right _ 3
  rw [Fintype.card_fin] at h
  omega

theorem Signalled.weight_le {workers workers' : Fin n → WorkerPc α}
    (h : Signalled workers workers') :
    Tally.total WorkerPc.weight workers' ≤ Tally.total WorkerPc.weight workers + 3 := by
  cases h with
  | woke i hi =>
    have hsum := Tally.total_update WorkerPc.weight workers i .woken
    rw [hi] at hsum
    simp only [WorkerPc.weight] at hsum
    omega
  | nobody => exact Nat.le_add_right _ 3

section Effort

variable [DecidableEq κ] [Fintype κ] {s t : PoolSystem n κ α} {a : PoolAction n κ α}

omit [DecidableEq κ] in
/-- A worker moves, and the queue gives back at least the weight it gains. -/
theorem effort_worker {i : Fin n} {pc : WorkerPc α} (hcallers : t.callers = s.callers)
    (hworkers : t.workers = Function.update s.workers i pc)
    (hlt : 4 * t.pool.count + pc.weight < 4 * s.pool.count + (s.workers i).weight) :
    t.effort < s.effort := by
  have hsum := Tally.total_update WorkerPc.weight s.workers i pc
  unfold PoolSystem.effort
  rw [hcallers, hworkers]
  omega

theorem effort_caller {c : κ} {pc : CallerPc α} {k : Nat}
    (hcallers : t.callers = Function.update s.callers c pc)
    (hworkers : Tally.total WorkerPc.weight t.workers ≤ Tally.total WorkerPc.weight s.workers + k)
    (hlt : 4 * t.pool.count + k + pc.weight n < 4 * s.pool.count + (s.callers c).weight n) :
    t.effort < s.effort := by
  have hsum := Tally.total_update (CallerPc.weight n) s.callers c pc
  unfold PoolSystem.effort
  rw [hcallers]
  omega

/-- Every step that needs nobody from outside makes the measure fall. -/
theorem effort_lt (hn : s.pool.threadCount = n) (ha : a.internal = true) (hm : PoolMoves s a t) :
    t.effort < s.effort := by
  have hpass {c : κ} {pc : CallerPc α} (hlt : pc.weight n < (s.callers c).weight n) :
      (s.setCaller c pc).effort < s.effort :=
    effort_caller (k := 0) rfl (Nat.le_refl _) (by simp only [PoolSystem.setCaller]; omega)
  cases hm with
  | acquires i hpc =>
    refine effort_worker rfl rfl ?_
    rcases hpc with hpc | hpc <;> simp [PoolSystem.setWorker, hpc, WorkerPc.weight]
  | waits i hpc =>
    exact effort_worker rfl rfl (by simp [PoolSystem.setWorker, hpc, WorkerPc.weight])
  | leaves i hpc =>
    exact effort_worker rfl rfl
      (by simp [PoolSystem.setWorker, ThreadpoolT.left, hpc, WorkerPc.weight])
  | grabs i task hpc hwork hstay =>
    have hne := count_ne_zero_of_stays hwork hstay
    refine effort_worker rfl rfl ?_
    simp only [PoolSystem.setWorker, ThreadpoolT.grabbed, hpc, WorkerPc.weight]
    omega
  | unlocks i task hpc =>
    exact effort_worker rfl rfl (by simp [PoolSystem.setWorker, hpc, WorkerPc.weight])
  | finishes i task hpc =>
    exact effort_worker rfl rfl (by simp [PoolSystem.setWorker, hpc, WorkerPc.weight])
  | exits i hpc =>
    exact effort_worker rfl rfl (by simp [PoolSystem.setWorker, hpc, WorkerPc.weight])
  | spurious => cases ha
  | callsAdd => cases ha
  | callsDestroy => cases ha
  | callsInvalid => cases ha
  | lockFailed => cases ha
  | addAcquires c ok wake task hpc => exact hpass (by simp [hpc, CallerPc.weight])
  | addRefused c ok wake task err hpc => exact hpass (by simp [hpc, CallerPc.weight])
  | addStores c wake task workers hpc hroom hshut hsignal =>
    refine effort_caller rfl hsignal.weight_le ?_
    simp only [PoolSystem.setCaller, ThreadpoolT.stored, hpc, CallerPc.weight]
    omega
  | signalFails => cases ha
  | addReturns c wake err hpc => exact hpass (by simp [hpc, CallerPc.weight])
  | addUnlockFails => cases ha
  | destroyAcquires c ok graceful hpc => exact hpass (by simp [hpc, CallerPc.weight])
  | destroyRefused c ok graceful hpc => exact hpass (by simp [hpc, CallerPc.weight])
  | destroyShuts c graceful hpc =>
    refine effort_caller rfl (weight_woken_le s.workers) ?_
    simp only [PoolSystem.setCaller, ThreadpoolT.shut, hpc, CallerPc.weight]
    omega
  | broadcastFails => cases ha
  | destroyUnlocks c hpc => exact hpass (by simp [hpc, CallerPc.weight])
  | destroyUnlockFails => cases ha
  | joins c ok j err hpc hlt =>
    exact hpass (by simp only [hpc, CallerPc.weight]; omega)
  | joinsDone c ok j hpc => exact hpass (by simp only [hpc, CallerPc.weight]; omega)
  | joinsFailed c ok j err hpc => exact hpass (by simp only [hpc, CallerPc.weight]; omega)
  | freeGivesUp c ok hpc => exact hpass (by simp [hpc, CallerPc.weight])
  | freesQueue c ok hpc => exact hpass (by simp [hpc, CallerPc.weight])
  | frees c ok hpc => exact hpass (by simp [hpc, CallerPc.weight])

omit [DecidableEq κ] in
/-- A worker that wakes up for nothing takes the lock, looks and waits again. -/
theorem effort_spurious {i : Fin n} (hpc : s.workers i = .waiting) :
    (s.setWorker i .woken).effort = s.effort + 3 := by
  have hsum := Tally.total_update WorkerPc.weight s.workers i .woken
  rw [hpc] at hsum
  simp only [WorkerPc.weight] at hsum
  simp only [PoolSystem.effort, PoolSystem.setWorker]
  omega

/-- What a step of the threads or a spurious wake-up does to the measure. -/
theorem effort_step (hn : s.pool.threadCount = n) (ha : a.internal = true ∨ a.isSpurious = true)
    (hm : PoolMoves s a t) : t.effort < s.effort + if a.isSpurious = true then 4 else 0 := by
  rcases ha with ha | ha
  · exact Nat.lt_of_lt_of_le (effort_lt hn ha hm) (Nat.le_add_right _ _)
  · cases hm with
    | spurious i hpc =>
      rw [effort_spurious hpc]
      exact Nat.lt_succ_self (s.effort + 3)
    | _ => cases ha

end Effort

/-! ## Runs in which no pthread call fails -/

def CallerPc.destroying : CallerPc α → Bool
  | .destroyLock _ | .destroyLocked _ | .destroyUnlock | .join _ _ | .free | .freeLock => true
  | _ => false

/-- In `threadpool_destroy`, in front of the shutdown flag. -/
def CallerPc.locking : CallerPc α → Bool
  | .destroyLock _ | .destroyLocked _ => true
  | _ => false

/-- In `threadpool_destroy`, behind the shutdown flag, without an error. -/
def CallerPc.joining : CallerPc α → Bool
  | .destroyUnlock | .free | .freeLock => true
  | .join _ err => decide (err = 0)
  | _ => false

/-- No pthread call fails, and `threadpool_destroy` is called once. -/
def Proper (s : PoolSystem n κ α) : PoolAction n κ α → Prop
  | .add _ ok _ => ok = true
  | .destroy _ ok => ok = true
  | .callDestroy _ _ => s.pool.shutdown = none ∧ ∀ c, (s.callers c).destroying = false
  | _ => True

/-- How far the one `threadpool_destroy` has come. -/
inductive DestroyPhase (s : PoolSystem n κ α) : Prop where
  | quiet (hquiet : ∀ c, (s.callers c).destroying = false)
      (hshut : s.pool.shutdown = none ∨ s.freed = true)
  | locking (c : κ) (hc : (s.callers c).locking = true)
      (hone : ∀ d, d ≠ c → (s.callers d).destroying = false) (hshut : s.pool.shutdown = none)
  | joining (c : κ) (hc : (s.callers c).joining = true)
      (hone : ∀ d, d ≠ c → (s.callers d).destroying = false) (hshut : s.pool.shutdown ≠ none)

variable {s t : PoolSystem n κ α}

theorem destroying_of_locking {pc : CallerPc α} (h : pc.locking = true) : pc.destroying = true := by
  cases pc <;> simp_all [CallerPc.locking, CallerPc.destroying]

theorem destroying_of_joining {pc : CallerPc α} (h : pc.joining = true) : pc.destroying = true := by
  cases pc <;> simp_all [CallerPc.joining, CallerPc.destroying]

theorem not_locking_of_joining {pc : CallerPc α} (h : pc.joining = true) :
    pc.locking = false := by
  cases pc <;> simp_all [CallerPc.joining, CallerPc.locking]

/-- A caller in `threadpool_destroy` is the only one. -/
theorem DestroyPhase.of_destroying (h : DestroyPhase s) {c : κ}
    (hc : (s.callers c).destroying = true) :
    (∀ d, d ≠ c → (s.callers d).destroying = false) ∧
      ((s.callers c).locking = true ∧ s.pool.shutdown = none ∨
        (s.callers c).joining = true ∧ s.pool.shutdown ≠ none) := by
  cases h with
  | quiet hquiet =>
    rw [hquiet c] at hc
    cases hc
  | locking e he hone hshut =>
    by_cases hce : c = e
    · subst hce
      exact ⟨hone, .inl ⟨he, hshut⟩⟩
    · rw [hone c hce] at hc
      cases hc
  | joining e he hone hshut =>
    by_cases hce : c = e
    · subst hce
      exact ⟨hone, .inr ⟨he, hshut⟩⟩
    · rw [hone c hce] at hc
      cases hc

theorem DestroyPhase.of_locking (h : DestroyPhase s) {c : κ} (hc : (s.callers c).locking = true) :
    (∀ d, d ≠ c → (s.callers d).destroying = false) ∧ s.pool.shutdown = none := by
  obtain ⟨hone, ⟨-, hshut⟩ | ⟨hjoin, -⟩⟩ := h.of_destroying (destroying_of_locking hc)
  · exact ⟨hone, hshut⟩
  · rw [not_locking_of_joining hjoin] at hc
    cases hc

/-- A caller behind the shutdown flag has met no error. -/
theorem DestroyPhase.of_behind (h : DestroyPhase s) {c : κ} (hc : (s.callers c).destroying = true)
    (hnot : (s.callers c).locking = false) :
    (∀ d, d ≠ c → (s.callers d).destroying = false) ∧ (s.callers c).joining = true ∧
      s.pool.shutdown ≠ none := by
  obtain ⟨hone, ⟨hlock, -⟩ | ⟨hjoin, hshut⟩⟩ := h.of_destroying hc
  · rw [hnot] at hlock
    cases hlock
  · exact ⟨hone, hjoin, hshut⟩

/-- Nothing changes that a phase is about. -/
theorem DestroyPhase.keep (h : DestroyPhase s) (hcallers : t.callers = s.callers)
    (hshut : t.pool.shutdown = s.pool.shutdown) (hfreed : t.freed = s.freed) : DestroyPhase t := by
  cases h with
  | quiet hquiet hnone => exact .quiet (hcallers ▸ hquiet) (by rw [hshut, hfreed]; exact hnone)
  | locking c hc hone hnone => exact .locking c (hcallers ▸ hc) (hcallers ▸ hone) (hshut ▸ hnone)
  | joining c hc hone hsome => exact .joining c (hcallers ▸ hc) (hcallers ▸ hone) (hshut ▸ hsome)

section Callers

variable [DecidableEq κ] {a : PoolAction n κ α}

theorem destroying_update {callers : κ → CallerPc α} {c : κ} {pc : CallerPc α}
    (h : ∀ d, d ≠ c → (callers d).destroying = false) (d : κ) (hd : d ≠ c) :
    (Function.update callers c pc d).destroying = false := by
  rw [Function.update_of_ne hd]
  exact h d hd

/-- A caller moves that is not in `threadpool_destroy`. -/
theorem DestroyPhase.other (h : DestroyPhase s) {c : κ} {pc : CallerPc α}
    (hold : (s.callers c).destroying = false) (hnew : pc.destroying = false)
    (hcallers : t.callers = Function.update s.callers c pc)
    (hshut : t.pool.shutdown = s.pool.shutdown) (hfreed : t.freed = s.freed) : DestroyPhase t := by
  have hsame (d : κ) : (t.callers d).destroying = (s.callers d).destroying := by
    rw [hcallers]
    by_cases hdc : d = c
    · rw [hdc, Function.update_self, hnew, hold]
    · rw [Function.update_of_ne hdc]
  have hstay {d : κ} (hd : (s.callers d).destroying = true) : t.callers d = s.callers d := by
    have hdc : d ≠ c := by
      rintro rfl
      rw [hold] at hd
      cases hd
    rw [hcallers, Function.update_of_ne hdc]
  cases h with
  | quiet hquiet hnone =>
    exact .quiet (fun d => (hsame d).trans (hquiet d)) (by rw [hshut, hfreed]; exact hnone)
  | locking d hd hone hnone =>
    have hd' := hstay (destroying_of_locking hd)
    exact .locking d (by rw [hd']; exact hd) (fun e he => (hsame e).trans (hone e he))
      (hshut.trans hnone)
  | joining d hd hone hsome =>
    have hd' := hstay (destroying_of_joining hd)
    exact .joining d (by rw [hd']; exact hd) (fun e he => (hsame e).trans (hone e he))
      (hshut ▸ hsome)

theorem phase_step {size : Nat} (h : DestroyPhase s) (hinv : PoolInv size s) (ha : Proper s a)
    (hm : PoolMoves s a t) : DestroyPhase t := by
  have hbehind {c : κ} {pc : CallerPc α} (hpc : s.callers c = pc) (hin : pc.destroying = true)
      (hnot : pc.locking = false) := h.of_behind (hpc.symm ▸ hin) (hpc.symm ▸ hnot)
  cases hm with
  | callsAdd c task ret hpc => exact h.other (by rw [hpc]; rfl) rfl rfl rfl rfl
  | callsInvalid c ret hpc => exact h.other (by rw [hpc]; rfl) rfl rfl rfl rfl
  | callsDestroy c graceful ret hpc =>
    refine .locking c ?_ (destroying_update fun d _ => ha.2 d) ha.1
    simp [PoolSystem.setCaller, CallerPc.locking]
  | lockFailed c hpc =>
    by_cases hin : (s.callers c).destroying = true
    · have hlock : (s.callers c).locking = true := by
        cases hc : s.callers c <;> simp_all [CallerPc.atLock, CallerPc.destroying, CallerPc.locking]
      obtain ⟨hone, hshut⟩ := h.of_locking hlock
      refine .quiet (fun d => ?_) (.inl hshut)
      by_cases hdc : d = c
      · simp [PoolSystem.setCaller, hdc, CallerPc.destroying]
      · exact destroying_update hone d hdc
    · exact h.other (Bool.eq_false_of_not_eq_true hin) rfl rfl rfl rfl
  | addAcquires c ok wake task hpc => exact h.other (by rw [hpc]; rfl) rfl rfl rfl rfl
  | addRefused c ok wake task err hpc => exact h.other (by rw [hpc]; rfl) rfl rfl rfl rfl
  | addStores c wake task workers hpc => exact h.other (by rw [hpc]; rfl) rfl rfl rfl rfl
  | signalFails => cases ha
  | addReturns c wake err hpc => exact h.other (by rw [hpc]; rfl) rfl rfl rfl rfl
  | addUnlockFails => cases ha
  | destroyAcquires c ok graceful hpc =>
    obtain ⟨hone, hshut⟩ := h.of_locking (c := c) (by rw [hpc]; rfl)
    refine .locking c ?_ (destroying_update hone) hshut
    simp [PoolSystem.setCaller, CallerPc.locking]
  | destroyRefused c ok graceful hpc hshut =>
    exact absurd (h.of_locking (c := c) (by rw [hpc]; rfl)).2 hshut
  | destroyShuts c graceful hpc =>
    obtain ⟨hone, -⟩ := h.of_locking (c := c) (by rw [hpc]; rfl)
    refine .joining c ?_ (destroying_update hone) (by simp [PoolSystem.setCaller, ThreadpoolT.shut])
    simp [PoolSystem.setCaller, CallerPc.joining]
  | broadcastFails => cases ha
  | destroyUnlockFails => cases ha
  | destroyUnlocks c hpc =>
    obtain ⟨hone, -, hshut⟩ := hbehind hpc rfl rfl
    refine .joining c ?_ (destroying_update hone) hshut
    simp [PoolSystem.setCaller, CallerPc.joining]
  | joins c ok j err hpc =>
    obtain ⟨hone, hjoin, hshut⟩ := hbehind hpc rfl rfl
    refine .joining c ?_ (destroying_update hone) hshut
    rw [hpc] at hjoin
    cases ha
    simpa [PoolSystem.setCaller, CallerPc.joining] using hjoin
  | joinsDone c ok j hpc =>
    obtain ⟨hone, -, hshut⟩ := hbehind hpc rfl rfl
    refine .joining c ?_ (destroying_update hone) hshut
    simp [PoolSystem.setCaller, CallerPc.joining]
  | joinsFailed c ok j err hpc hge herr =>
    obtain ⟨-, hjoin, -⟩ := hbehind hpc rfl rfl
    rw [hpc] at hjoin
    exact absurd (of_decide_eq_true hjoin) herr
  | freeGivesUp c ok hpc hstarted =>
    rw [Joined.started hinv.roll (hinv.joined.free c (by rw [hpc]; rfl))] at hstarted
    exact absurd hstarted (by decide)
  | freesQueue c ok hpc =>
    obtain ⟨hone, -, hshut⟩ := hbehind hpc rfl rfl
    refine .joining c ?_ (destroying_update hone) hshut
    simp [PoolSystem.setCaller, CallerPc.joining]
  | frees c ok hpc =>
    obtain ⟨hone, -, -⟩ := hbehind hpc rfl rfl
    refine .quiet (fun d => ?_) (.inr rfl)
    by_cases hdc : d = c
    · simp [PoolSystem.setCaller, hdc, CallerPc.destroying]
    · exact destroying_update hone d hdc
  | _ => exact h.keep rfl rfl rfl

end Callers

/-! ## Nobody sleeps through a task -/

/-- 1 for a worker that looks at the queue before it waits the next time. -/
def WorkerPc.ready : WorkerPc α → Nat
  | .lock | .woken | .check => 1
  | _ => 0

/-- No worker waits behind a shutdown, and while one waits, the tasks in the queue do not
outnumber the workers that are about to look for one. -/
structure Awake (pool : ThreadpoolT α) (workers : Fin n → WorkerPc α) : Prop where
  shut : pool.shutdown ≠ none → ∀ i, workers i ≠ .waiting
  ready : ∀ i, workers i = .waiting → pool.count ≤ Tally.total WorkerPc.ready workers

variable {pool : ThreadpoolT α} {workers : Fin n → WorkerPc α}

/-- A worker moves that does not go to wait, and the queue shrinks as much as it was ready. -/
theorem Awake.move {pool' : ThreadpoolT α} (h : Awake pool workers) {i : Fin n}
    {pc : WorkerPc α} (hpc : pc ≠ .waiting) (hshut : pool'.shutdown = pool.shutdown)
    (hready : pool'.count + (workers i).ready ≤ pool.count + pc.ready) :
    Awake pool' (Function.update workers i pc) := by
  have hold {j : Fin n} (hj : Function.update workers i pc j = .waiting) :
      workers j = .waiting := by
    by_cases hji : j = i
    · rw [hji, Function.update_self] at hj
      exact absurd hj hpc
    · rwa [Function.update_of_ne hji] at hj
  refine ⟨fun hsome j hj => h.shut (hshut ▸ hsome) j (hold hj), fun j hj => ?_⟩
  have hsum := Tally.total_update WorkerPc.ready workers i pc
  have hcount := h.ready j (hold hj)
  omega

theorem awake_wait (i : Fin n) (hcount : pool.count = 0) (hshut : pool.shutdown = none) :
    Awake pool (Function.update workers i .waiting) :=
  ⟨fun hsome => absurd hshut hsome, fun _ _ => hcount ▸ Nat.zero_le _⟩

/-- One more task, and one more worker that is ready if there is one to wake. -/
theorem Awake.store {workers' : Fin n → WorkerPc α} (h : Awake pool workers)
    (hshut : pool.shutdown = none) (hsignal : Signalled workers workers') (task : α) :
    Awake (pool.stored task) workers' := by
  refine ⟨fun hsome => absurd hshut hsome, fun j hj => ?_⟩
  cases hsignal with
  | woke i hi =>
    have hsum := Tally.total_update WorkerPc.ready workers i .woken
    have hcount := h.ready i hi
    rw [hi] at hsum
    simp only [WorkerPc.ready] at hsum
    simp only [ThreadpoolT.stored]
    omega
  | nobody hnone => exact absurd hj (hnone j)

theorem broadcast_ne_waiting (workers : Fin n → WorkerPc α) (i : Fin n) :
    broadcast workers i ≠ .waiting := by
  unfold broadcast
  split
  · simp
  · rename_i hi
    exact fun hw => hi (isWaiting_iff.mpr hw)

section Callers

variable [DecidableEq κ] {a : PoolAction n κ α}

theorem awake_step (h : Awake s.pool s.workers) (ha : Proper s a) (hm : PoolMoves s a t) :
    Awake t.pool t.workers := by
  cases hm with
  | acquires i hpc =>
    exact h.move (by simp) rfl (by rcases hpc with hpc | hpc <;> rw [hpc] <;> exact Nat.le_refl _)
  | waits i hpc hcount hshut => exact awake_wait i hcount hshut
  | leaves i hpc hleave =>
    have hnobody := h.shut hleave.shutdown_ne
    refine ⟨fun _ j => ?_, fun j hj => absurd hj ?_⟩ <;> by_cases hji : j = i
    · simp [PoolSystem.setWorker, hji]
    · simpa [PoolSystem.setWorker, Function.update_of_ne hji] using hnobody j
    · simp [PoolSystem.setWorker, hji]
    · simpa [PoolSystem.setWorker, Function.update_of_ne hji] using hnobody j
  | grabs i task hpc hwork hstay =>
    have hne := count_ne_zero_of_stays hwork hstay
    refine h.move (by simp) rfl ?_
    simp only [ThreadpoolT.grabbed, hpc, WorkerPc.ready, PoolSystem.setWorker]
    omega
  | unlocks i task hpc => exact h.move (by simp) rfl (by rw [hpc]; exact Nat.le_refl _)
  | finishes i task hpc => exact h.move (by simp) rfl (by rw [hpc]; exact Nat.le_succ _)
  | exits i hpc => exact h.move (by simp) rfl (by rw [hpc]; exact Nat.le_refl _)
  | spurious i hpc => exact h.move (by simp) rfl (by rw [hpc]; exact Nat.le_succ _)
  | addStores c wake task workers hpc hroom hshut hsignal => exact h.store hshut hsignal task
  | signalFails => cases ha
  | destroyShuts c graceful hpc =>
    have hnobody := broadcast_ne_waiting s.workers
    exact ⟨fun _ => hnobody, fun i hi => absurd hi (hnobody i)⟩
  | broadcastFails => cases ha
  | _ => exact ⟨h.shut, h.ready⟩

/-! ## Whoever owns the lock is inside -/

theorem held_worker (h : Mutex.Held s.lock s.holds) {i : Fin n} {pc : WorkerPc α}
    (hpc : (s.workers i).holds = true → pc.holds = true) :
    Mutex.Held s.lock (s.setWorker i pc).holds := by
  refine h.keep fun u hu => ?_
  by_cases hui : u = .worker i
  · rw [hui] at hu ⊢
    exact holds_setWorker_self.mpr (hpc hu)
  · exact (holds_setWorker hui).mpr hu

theorem held_caller (h : Mutex.Held s.lock s.holds) {c : κ} {pc : CallerPc α}
    (hpc : (s.callers c).holds = true → pc.holds = true) :
    Mutex.Held s.lock (s.setCaller c pc).holds := by
  refine h.keep fun u hu => ?_
  by_cases huc : u = .caller c
  · rw [huc] at hu ⊢
    exact holds_setCaller_self.mpr (hpc hu)
  · exact (holds_setCaller huc).mpr hu

omit [DecidableEq κ] in
theorem held_wake {workers : Fin n → WorkerPc α} (h : Mutex.Held s.lock s.holds)
    (hw : ∀ i, (workers i).holds = (s.workers i).holds) :
    Mutex.Held s.lock { s with workers := workers }.holds := by
  refine h.keep fun u hu => ?_
  cases u with
  | worker i => exact (hw i).trans hu
  | caller c => exact hu

theorem held_step (h : Mutex.Held s.lock s.holds) (hphase : DestroyPhase s) (ha : Proper s a)
    (hm : PoolMoves s a t) : Mutex.Held t.lock t.holds := by
  cases hm with
  | acquires i => exact Mutex.held_some (holds_setWorker_self.mpr rfl)
  | waits => exact Mutex.held_none
  | leaves i hpc => exact held_worker h fun _ => rfl
  | grabs i task hpc => exact held_worker h fun _ => rfl
  | unlocks => exact Mutex.held_none
  | finishes i task hpc => exact held_worker h fun hin => by rw [hpc] at hin; cases hin
  | exits => exact Mutex.held_none
  | spurious i hpc => exact held_worker h fun hin => by rw [hpc] at hin; cases hin
  | callsAdd c task ret hpc => exact held_caller h fun hin => by rw [hpc] at hin; cases hin
  | callsDestroy c graceful ret hpc =>
    exact held_caller h fun hin => by rw [hpc] at hin; cases hin
  | callsInvalid c ret hpc => exact held_caller h fun hin => by rw [hpc] at hin; cases hin
  | lockFailed c hpc =>
    refine held_caller h fun hin => ?_
    cases hc : s.callers c <;> simp_all [CallerPc.atLock, CallerPc.holds]
  | addAcquires c => exact Mutex.held_some (holds_setCaller_self.mpr rfl)
  | addRefused c ok wake task err hpc => exact held_caller h fun _ => rfl
  | addStores c wake task workers hpc hroom hshut hsignal =>
    have hwoken := held_wake h (hsignal.map_eq WorkerPc.holds rfl)
    exact held_caller (s := { s with workers := workers }) hwoken fun _ => rfl
  | signalFails => cases ha
  | addReturns => exact Mutex.held_none
  | addUnlockFails => cases ha
  | destroyAcquires c => exact Mutex.held_some (holds_setCaller_self.mpr rfl)
  | destroyRefused c ok graceful hpc hshut =>
    exact absurd (hphase.of_locking (c := c) (by rw [hpc]; rfl)).2 hshut
  | destroyShuts c =>
    have hwoken := held_wake h (broadcast_map_eq s.workers WorkerPc.holds rfl)
    exact held_caller (s := { s with workers := broadcast s.workers }) hwoken fun _ => rfl
  | broadcastFails => cases ha
  | destroyUnlocks => exact Mutex.held_none
  | destroyUnlockFails => cases ha
  | joins c ok j err hpc => exact held_caller h fun hin => by rw [hpc] at hin; cases hin
  | joinsDone c ok j hpc => exact held_caller h fun hin => by rw [hpc] at hin; cases hin
  | joinsFailed c ok j err hpc => exact held_caller h fun hin => by rw [hpc] at hin; cases hin
  | freeGivesUp c ok hpc => exact held_caller h fun hin => by rw [hpc] at hin; cases hin
  | freesQueue c ok hpc => exact held_caller h fun hin => by rw [hpc] at hin; cases hin
  | frees c ok hpc => exact held_caller h fun hin => by rw [hpc] at hin; cases hin

end Callers

/-! ## Where no step is left -/

/-- What holds besides `PoolInv` in every state of a run in which no pthread call fails. -/
structure PoolLive (s : PoolSystem n κ α) : Prop where
  held : Mutex.Held s.lock s.holds
  awake : Awake s.pool s.workers
  phase : DestroyPhase s

/-- Nothing is left to do until somebody calls: the queue is empty, all workers wait and every
task that was ever added has been executed. -/
structure Idle (s : PoolSystem n κ α) : Prop where
  shutdown : s.pool.shutdown = none
  lock : s.lock = none
  count : s.pool.count = 0
  workers : ∀ i, s.workers i = .waiting
  callers : ∀ c, ∃ ret, s.callers c = .returned ret
  finished : s.finished.Perm s.added

section Callers

variable [DecidableEq κ] {a : PoolAction n κ α}

/-- No thread can make a step of its own. -/
def Stuck (s : PoolSystem n κ α) : Prop :=
  ∀ a : PoolAction n κ α, a.internal = true → poolStep s a = none

theorem exists_signal (workers : Fin n → WorkerPc α) :
    ∃ wake, signal workers wake ≠ none := by
  by_cases h : ∀ i, (workers i).isWaiting = false
  · exact ⟨none, by simp [signal, h]⟩
  · obtain ⟨i, hi⟩ := not_forall.mp h
    exact ⟨some i, by simp [signal, Bool.eq_true_of_not_eq_false hi]⟩

/-- A thread inside a critical section can go on. -/
theorem not_stuck_of_holds {size : Nat} (hinv : PoolInv size s) (hfreed : s.freed = false)
    {u : Tid n κ} (hu : s.holds u) : ¬Stuck s := by
  intro hstuck
  have hdefined := hinv.defined u
  cases u with
  | worker i =>
    have hnone := hstuck (.worker i) rfl
    simp only [poolStep, hfreed, Bool.false_eq_true, if_false, threadpoolThread] at hnone
    cases hpc : s.workers i <;> simp only [PoolSystem.holds, hpc, WorkerPc.holds,
      Bool.false_eq_true] at hu hnone
    · obtain ⟨hsome, hqueue⟩ := hdefined hpc
      cases hnext : threadpoolThreadLocked s.pool with
      | none => exact hsome hnext
      | some r =>
        cases r with
        | wait => simp [hnext] at hnone
        | leave pool => simp [hnext] at hnone
        | grab pool task => simp [hnext, hqueue pool task hnext] at hnone
    · simp at hnone
    · simp at hnone
  | caller c =>
    obtain ⟨wake, hwake⟩ := exists_signal s.workers
    have hadd := hstuck (.add c true wake) rfl
    have hdestroy := hstuck (.destroy c true) rfl
    simp only [poolStep, hfreed, Bool.false_eq_true, if_false, threadpoolAdd,
      threadpoolDestroy] at hadd hdestroy
    cases hpc : s.callers c <;> simp only [PoolSystem.holds, hpc, CallerPc.holds,
      Bool.false_eq_true] at hu hadd hdestroy
    · rename_i task
      obtain ⟨hsome, hqueue⟩ := hdefined task hpc
      cases hnext : threadpoolAddLocked s.pool task with
      | none => exact hsome hnext
      | some r =>
        cases r with
        | refused err => simp [hnext] at hadd
        | queued pool => simp [hnext, hqueue pool hnext, hwake] at hadd
    · simp at hadd
    · rename_i graceful
      cases hnext : threadpoolDestroyLocked s.pool graceful <;> simp [hnext] at hdestroy
    · simp at hdestroy

/-- Where no step is left, nobody is inside and the lock is free. -/
theorem lock_of_stuck {size : Nat} (hinv : PoolInv size s) (hlive : PoolLive s)
    (hfreed : s.freed = false) (hstuck : Stuck s) : s.lock = none :=
  hlive.held.free fun _ hu => not_stuck_of_holds hinv hfreed hu hstuck

theorem worker_of_stuck {size : Nat} (hinv : PoolInv size s) (hlive : PoolLive s)
    (hfreed : s.freed = false) (hstuck : Stuck s) (i : Fin n) :
    s.workers i = .waiting ∨ s.workers i = .exited := by
  have hlock := lock_of_stuck hinv hlive hfreed hstuck
  have hnobody : ¬s.holds (.worker i) := fun hu => not_stuck_of_holds hinv hfreed hu hstuck
  have hnone := hstuck (.worker i) rfl
  simp only [poolStep, hfreed, Bool.false_eq_true, if_false, threadpoolThread, hlock] at hnone
  cases hpc : s.workers i with
  | waiting => exact .inl rfl
  | exited => exact .inr rfl
  | lock => simp [hpc] at hnone
  | woken => simp [hpc] at hnone
  | working task => simp [hpc] at hnone
  | check => exact absurd (show (s.workers i).holds = true by rw [hpc]; rfl) hnobody
  | grabbed task => exact absurd (show (s.workers i).holds = true by rw [hpc]; rfl) hnobody
  | leaving => exact absurd (show (s.workers i).holds = true by rw [hpc]; rfl) hnobody

/-- A caller at a join waits for no worker for ever: behind a shutdown none of them waits. -/
theorem caller_of_stuck {size : Nat} (hinv : PoolInv size s) (hlive : PoolLive s)
    (hfreed : s.freed = false) (hstuck : Stuck s) (c : κ) :
    ∃ ret, s.callers c = .returned ret := by
  have hlock := lock_of_stuck hinv hlive hfreed hstuck
  have hnobody : ¬s.holds (.caller c) := fun hu => not_stuck_of_holds hinv hfreed hu hstuck
  have hadd := hstuck (.add c true none) rfl
  have hdestroy := hstuck (.destroy c true) rfl
  simp only [poolStep, hfreed, Bool.false_eq_true, if_false, threadpoolAdd, threadpoolDestroy,
    hlock] at hadd hdestroy
  cases hpc : s.callers c with
  | returned ret => exact ⟨ret, rfl⟩
  | addLock task => simp [hpc] at hadd
  | destroyLock graceful => simp [hpc] at hdestroy
  | addLocked task => exact absurd (show (s.callers c).holds = true by rw [hpc]; rfl) hnobody
  | addUnlock err => exact absurd (show (s.callers c).holds = true by rw [hpc]; rfl) hnobody
  | destroyLocked graceful =>
    exact absurd (show (s.callers c).holds = true by rw [hpc]; rfl) hnobody
  | destroyUnlock => exact absurd (show (s.callers c).holds = true by rw [hpc]; rfl) hnobody
  | free =>
    have hzero := Joined.started hinv.roll (hinv.joined.free c (by rw [hpc]; rfl))
    simp [hpc, hzero] at hdestroy
  | freeLock => simp [hpc] at hdestroy
  | join j err =>
    simp only [hpc] at hdestroy
    split at hdestroy
    · rename_i hlt
      rw [hinv.roll.threadCount] at hlt
      obtain ⟨-, -, hshut⟩ := hlive.phase.of_behind (c := c) (by rw [hpc]; rfl) (by rw [hpc]; rfl)
      have hexited : s.workers ⟨j, hlt⟩ = .exited := by
        rcases worker_of_stuck hinv hlive hfreed hstuck ⟨j, hlt⟩ with hw | hw
        · exact absurd hw (hlive.awake.shut hshut _)
        · exact hw
      simp [joined, hlt, hexited, WorkerPc.isExited] at hdestroy
    · split at hdestroy <;> cases hdestroy

/-- **No deadlock.** Where no step is left, the pool is freed or has nothing to do. -/
theorem idle_of_stuck {size : Nat} (hinv : PoolInv size s) (hlive : PoolLive s) (hn : 0 < n)
    (hfreed : s.freed = false) (hstuck : Stuck s) : Idle s := by
  have hcallers := caller_of_stuck hinv hlive hfreed hstuck
  have hshut : s.pool.shutdown = none := by
    cases hlive.phase with
    | quiet _ hshut => exact hshut.resolve_right (by simp [hfreed])
    | locking c _ _ hshut => exact hshut
    | joining c hc =>
      obtain ⟨ret, hret⟩ := hcallers c
      rw [hret] at hc
      cases hc
  have hworkers (i : Fin n) : s.workers i = .waiting := by
    refine (worker_of_stuck hinv hlive hfreed hstuck i).resolve_right fun hw => ?_
    exact (hinv.roll.left i (by rw [hw]; rfl)).shutdown_ne hshut
  have hcount : s.pool.count = 0 := by
    have hle := hlive.awake.ready ⟨0, hn⟩ (hworkers _)
    rw [Tally.total_eq_zero fun i => by rw [hworkers i]; rfl] at hle
    exact Nat.le_zero.mp hle
  obtain ⟨xs, hxs⟩ := hinv.queued
  have hempty : xs = [] := List.eq_nil_of_length_eq_zero (hxs.ring.length_eq.trans hcount)
  have hnone : inProgress s.workers = [] :=
    Tally.collect_eq_nil fun i => by rw [hworkers i]; rfl
  have hexec := hinv.executed
  rw [Executed, hnone, List.append_nil] at hexec
  exact {
    shutdown := hshut
    lock := lock_of_stuck hinv hlive hfreed hstuck
    count := hcount
    workers := hworkers
    callers := hcallers
    finished := by rw [hxs.added_eq, hempty, List.append_nil]; exact hexec.symm }

theorem poolLive_step {size : Nat} (hinv : PoolInv size s) (h : PoolLive s) (ha : Proper s a)
    (hs : poolStep s a = some t) : PoolLive t := by
  obtain ⟨-, hm⟩ := poolStep_cases hs
  exact ⟨held_step h.held h.phase ha hm, awake_step h.awake ha hm, phase_step h.phase hinv ha hm⟩

omit [DecidableEq κ] in
theorem poolLive_start (queueSize : Nat) (o : CreateOutcome α) :
    PoolLive (n := n) (κ := κ) (.start (startedPool queueSize n o)) where
  held := Mutex.held_none
  awake := ⟨fun hsome => absurd rfl hsome, fun i hi => by cases hi⟩
  phase := .quiet (fun _ => rfl) (.inl rfl)

omit [DecidableEq κ] in
theorem proper_of_internal (ha : a.internal = true) : Proper s a := by
  cases a <;> first | exact ha | exact trivial | cases ha

omit [DecidableEq κ] in
theorem proper_of_isSpurious (ha : a.isSpurious = true) : Proper s a := by
  cases a <;> first | exact trivial | cases ha

/-- **Progress.** From every state of a run in which no pthread call fails and the pool is
destroyed once, the threads make only so many steps before they need somebody from outside, and
at most four more for each wake-up without a signal; and when they have made them all, the pool
is freed, or every accepted task has been executed and all workers wait for the next. -/
theorem pool_progress [Fintype κ] {threadCount queueSize : Int} {o : CreateOutcome α}
    {pool : ThreadpoolT α} (hpool : threadpoolCreate threadCount queueSize o = .pool pool)
    {s t : PoolSystem pool.threadCount κ α} {as bs : List (PoolAction pool.threadCount κ α)}
    (hr : Transition.run poolStep (.start pool) as = some s)
    (hproper : Transition.Along poolStep Proper (.start pool) as)
    (hs : Transition.run poolStep s bs = some t)
    (hbs : ∀ b ∈ bs, b.internal = true ∨ b.isSpurious = true) :
    bs.length + t.effort ≤ s.effort + 4 * bs.countP PoolAction.isSpurious ∧
      (Stuck t → t.freed = true ∨ Idle t) := by
  obtain ⟨⟨hcount, -, hsize, -⟩, m, rfl, hm⟩ := launched_eq (.inl hpool)
  have hpos : 0 < m := by
    rw [hm hpool]
    omega
  have hstep (u : PoolSystem m κ α) (a : PoolAction m κ α) (v : PoolSystem m κ α)
      (hu : PoolInv queueSize.toNat u ∧ PoolLive u) (ha : Proper u a)
      (huv : poolStep u a = some v) : PoolInv queueSize.toNat v ∧ PoolLive v :=
    ⟨poolInv_step hu.1 huv, poolLive_step hu.1 hu.2 ha huv⟩
  have hbegin := Transition.along_invariant hstep
    ⟨poolInv_start o (Int.pos_iff_toNat_pos.mp hsize), poolLive_start queueSize.toNat o⟩ hproper hr
  have halong : Transition.Along poolStep
      (fun _ a => a.internal = true ∨ a.isSpurious = true) s bs :=
    Transition.along_of_mem (fun b hb _ => hbs b hb) s
  have hown (u : PoolSystem m κ α) (a : PoolAction m κ α)
      (ha : a.internal = true ∨ a.isSpurious = true) : Proper u a :=
    ha.elim proper_of_internal proper_of_isSpurious
  have hend := Transition.along_invariant (fun u a v hu ha huv => hstep u a v hu (hown u a ha) huv)
    hbegin halong hs
  refine ⟨Transition.length_le_of_raised (I := fun u => PoolInv queueSize.toNat u ∧ PoolLive u)
    PoolSystem.effort PoolAction.isSpurious 4 (fun u a v hu ha huv => ?_) hbegin halong hs,
    fun hstuck => ?_⟩
  · exact ⟨hstep u a v hu (hown u a ha) huv,
      effort_step hu.1.roll.threadCount ha (poolStep_cases huv).2⟩
  · cases hfreed : t.freed with
    | true => exact .inl rfl
    | false => exact .inr (idle_of_stuck hend.1 hend.2 hpos hfreed hstuck)

end Callers

def addTask : List (PoolAction 1 Unit Nat) :=
  [.callAdd () 7, .add () true none, .add () true none, .add () true none]

def onlyWorker : Fin 1 := ⟨0, Nat.one_pos⟩

/-- The worker takes the task, finishes it and goes to wait; it wakes up once for nothing. -/
def serveTask : List (PoolAction 1 Unit Nat) :=
  List.replicate 6 (.worker onlyWorker) ++
    [.spurious onlyWorker, .worker onlyWorker, .worker onlyWorker]

theorem stuck_of_waiting {t : PoolSystem 1 Unit Nat} {ret : Option Int}
    (hworker : t.workers 0 = .waiting) (hcaller : t.callers () = .returned ret) : Stuck t := by
  intro a ha
  unfold poolStep
  split
  · rfl
  · cases a with
    | worker i => simp [threadpoolThread, Fin.fin_one_eq_zero i, hworker]
    | add c ok wake => simp [threadpoolAdd, hcaller]
    | destroy c ok => simp [threadpoolDestroy, hcaller]
    | _ => cases ha

theorem pool_progress_serveTask :
    ∃ s t : PoolSystem 1 Unit Nat, Transition.run poolStep (.start onePool) addTask = some s ∧
      Transition.run poolStep s serveTask = some t ∧
      serveTask.length + t.effort ≤ s.effort + 4 ∧ Stuck t ∧ Idle t ∧ t.finished = [7] := by
  have hpool : threadpoolCreate 1 2 (allWell 0) = .pool onePool := rfl
  obtain ⟨s, t, hr, hs, hworker, hcaller, hfreed, hdone⟩ : ∃ s t : PoolSystem 1 Unit Nat,
      Transition.run poolStep (.start onePool) addTask = some s ∧
      Transition.run poolStep s serveTask = some t ∧ t.workers 0 = .waiting ∧
      t.callers () = .returned (some 0) ∧ t.freed = false ∧ t.finished = [7] :=
    ⟨_, _, rfl, rfl, rfl, rfl, rfl, rfl⟩
  have hproper : Transition.Along poolStep Proper (.start onePool) addTask := by
    refine Transition.along_of_mem (fun a ha s => ?_) _
    simp only [addTask, List.mem_cons, List.not_mem_nil, or_false, or_self] at ha
    rcases ha with rfl | rfl
    · trivial
    · rfl
  have hbs : ∀ b ∈ serveTask, b.internal = true ∨ b.isSpurious = true := by decide
  obtain ⟨hbound, hrest⟩ := pool_progress hpool hr hproper hs hbs
  have hstuck := stuck_of_waiting hworker hcaller
  exact ⟨s, t, hr, hs, hbound, hstuck, (hrest hstuck).resolve_left (by simp [hfreed]), hdone⟩

end Netepoll
