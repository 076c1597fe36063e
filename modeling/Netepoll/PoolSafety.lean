import Netepoll.Lib.Mutex
import Netepoll.PoolMoves

/-! Over every run of a pool that `threadpool_create` has returned: who is inside the
critical sections, which tasks the queue holds, how often a task is executed, and what is
left when the pool is freed. -/

namespace Netepoll

universe u v

variable {α : Type u} {n : Nat} {κ : Type v}

/-! ## What a signal leaves alone -/

/-- What does not tell a woken worker from a waiting one. -/
theorem Signalled.map_eq {β : Type v} {workers workers' : Fin n → WorkerPc α}
    (h : Signalled workers workers') (f : WorkerPc α → β) (hf : f .woken = f .waiting)
    (i : Fin n) : f (workers' i) = f (workers i) := by
  cases h with
  | woke j hj =>
    by_cases hij : i = j
    · rw [hij, Function.update_self, hj, hf]
    · rw [Function.update_of_ne hij]
  | nobody => rfl

theorem broadcast_map_eq {β : Type v} (workers : Fin n → WorkerPc α) (f : WorkerPc α → β)
    (hf : f .woken = f .waiting) (i : Fin n) : f (broadcast workers i) = f (workers i) := by
  unfold broadcast
  split
  · rename_i hi
    rw [isWaiting_iff.mp hi, hf]
  · rfl

theorem total_map_eq {f : WorkerPc α → Nat} {workers workers' : Fin n → WorkerPc α}
    (h : ∀ i, f (workers' i) = f (workers i)) :
    Tally.total f workers' = Tally.total f workers :=
  Finset.sum_congr rfl fun i _ => h i

/-! ## The lock -/

/-- Thread `t` is inside a critical section of the pool. -/
def PoolSystem.holds (s : PoolSystem n κ α) : Tid n κ → Prop
  | .worker i => (s.workers i).holds = true
  | .caller c => (s.callers c).holds = true

/-- What a thread inside a critical section is about to do stays inside the array, which has not
been freed when it reads or writes it, and divides by no zero. -/
def PoolSystem.Defined (s : PoolSystem n κ α) : Tid n κ → Prop
  | .worker i => s.workers i = .check → threadpoolThreadLocked s.pool ≠ none ∧
      ∀ pool task, threadpoolThreadLocked s.pool = some (.grab pool task) → s.queueFreed = false
  | .caller c => ∀ task, s.callers c = .addLocked task → threadpoolAddLocked s.pool task ≠ none ∧
      ∀ pool, threadpoolAddLocked s.pool task = some (.queued pool) → s.queueFreed = false

variable {s t : PoolSystem n κ α}

theorem holds_setWorker {i : Fin n} {pc : WorkerPc α} {u : Tid n κ} (hu : u ≠ .worker i) :
    (s.setWorker i pc).holds u ↔ s.holds u := by
  cases u with
  | worker j =>
    have hj : j ≠ i := fun e => hu (by rw [e])
    simp [PoolSystem.holds, PoolSystem.setWorker, Function.update_of_ne hj]
  | caller c => exact Iff.rfl

theorem holds_setWorker_self {i : Fin n} {pc : WorkerPc α} :
    (s.setWorker i pc).holds (.worker i) ↔ pc.holds = true := by
  simp [PoolSystem.holds, PoolSystem.setWorker]

/-- A worker that finds the lock free goes in. -/
theorem exclusive_worker_in (h : Mutex.Exclusive s.lock s.holds) (hlock : s.lock = none)
    (i : Fin n) (pc : WorkerPc α) :
    Mutex.Exclusive (some (.worker i)) (s.setWorker i pc).holds := by
  rw [hlock] at h
  exact h.acquire fun u hu hin => (holds_setWorker hu).mp hin

theorem exclusive_worker_out (h : Mutex.Exclusive s.lock s.holds) {i : Fin n}
    (hin : (s.workers i).holds = true) {pc : WorkerPc α} (hpc : pc.holds = false) :
    Mutex.Exclusive none (s.setWorker i pc).holds := by
  refine h.release (t := .worker i) hin (fun hu => ?_) fun u hu hin => (holds_setWorker hu).mp hin
  rw [holds_setWorker_self, hpc] at hu
  cases hu

/-- A worker that goes on inside, or stays outside. -/
theorem exclusive_worker_on (h : Mutex.Exclusive s.lock s.holds) {i : Fin n} {pc : WorkerPc α}
    (hpc : pc.holds = true → (s.workers i).holds = true) :
    Mutex.Exclusive s.lock (s.setWorker i pc).holds := by
  refine h.keep fun u hu => ?_
  by_cases hui : u = .worker i
  · subst hui
    exact hpc (holds_setWorker_self.mp hu)
  · exact (holds_setWorker hui).mp hu

/-- Workers that are woken do not come in by that. -/
theorem exclusive_wake {workers : Fin n → WorkerPc α} (h : Mutex.Exclusive s.lock s.holds)
    (hw : ∀ i, (workers i).holds = (s.workers i).holds) :
    Mutex.Exclusive s.lock { s with workers := workers }.holds := by
  refine h.keep fun u hu => ?_
  cases u with
  | worker i => exact (hw i).symm.trans hu
  | caller c => exact hu

section Callers

variable [DecidableEq κ] {a : PoolAction n κ α}

theorem holds_setCaller {c : κ} {pc : CallerPc α} {u : Tid n κ} (hu : u ≠ .caller c) :
    (s.setCaller c pc).holds u ↔ s.holds u := by
  cases u with
  | worker j => exact Iff.rfl
  | caller d =>
    have hd : d ≠ c := fun e => hu (by rw [e])
    simp [PoolSystem.holds, PoolSystem.setCaller, Function.update_of_ne hd]

theorem holds_setCaller_self {c : κ} {pc : CallerPc α} :
    (s.setCaller c pc).holds (.caller c) ↔ pc.holds = true := by
  simp [PoolSystem.holds, PoolSystem.setCaller]

theorem exclusive_caller_in (h : Mutex.Exclusive s.lock s.holds) (hlock : s.lock = none)
    (c : κ) (pc : CallerPc α) :
    Mutex.Exclusive (some (.caller c)) (s.setCaller c pc).holds := by
  rw [hlock] at h
  exact h.acquire fun u hu hin => (holds_setCaller hu).mp hin

theorem exclusive_caller_out (h : Mutex.Exclusive s.lock s.holds) {c : κ}
    (hin : (s.callers c).holds = true) {pc : CallerPc α} (hpc : pc.holds = false) :
    Mutex.Exclusive none (s.setCaller c pc).holds := by
  refine h.release (t := .caller c) hin (fun hu => ?_) fun u hu hin => (holds_setCaller hu).mp hin
  rw [holds_setCaller_self, hpc] at hu
  cases hu

theorem exclusive_caller_on (h : Mutex.Exclusive s.lock s.holds) {c : κ} {pc : CallerPc α}
    (hpc : pc.holds = true → (s.callers c).holds = true) :
    Mutex.Exclusive s.lock (s.setCaller c pc).holds := by
  refine h.keep fun u hu => ?_
  by_cases huc : u = .caller c
  · subst huc
    exact hpc (holds_setCaller_self.mp hu)
  · exact (holds_setCaller huc).mp hu

theorem exclusive_step (h : Mutex.Exclusive s.lock s.holds) (hm : PoolMoves s a t) :
    Mutex.Exclusive t.lock t.holds := by
  cases hm with
  | acquires i hpc hlock => exact exclusive_worker_in h hlock i .check
  | waits i hpc => exact exclusive_worker_out h (by rw [hpc]; rfl) rfl
  | leaves i hpc => exact exclusive_worker_on h fun _ => by rw [hpc]; rfl
  | grabs i task hpc => exact exclusive_worker_on h fun _ => by rw [hpc]; rfl
  | unlocks i task hpc => exact exclusive_worker_out h (by rw [hpc]; rfl) rfl
  | finishes i task hpc => exact exclusive_worker_on h fun hin => by cases hin
  | exits i hpc => exact exclusive_worker_out h (by rw [hpc]; rfl) rfl
  | spurious i hpc => exact exclusive_worker_on h fun hin => by cases hin
  | callsAdd c task ret hpc => exact exclusive_caller_on h fun hin => by cases hin
  | callsDestroy c graceful ret hpc => exact exclusive_caller_on h fun hin => by cases hin
  | callsInvalid c ret hpc => exact exclusive_caller_on h fun hin => by cases hin
  | lockFailed c hpc => exact exclusive_caller_on h fun hin => by cases hin
  | addAcquires c ok wake task hpc hlock => exact exclusive_caller_in h hlock c _
  | addRefused c ok wake task err hpc => exact exclusive_caller_on h fun _ => by rw [hpc]; rfl
  | addStores c wake task workers hpc hroom hshut hsignal =>
    have hwoken := exclusive_wake h (hsignal.map_eq WorkerPc.holds rfl)
    exact exclusive_caller_on hwoken fun _ => by rw [hpc]; rfl
  | signalFails c wake task hpc => exact exclusive_caller_on h fun _ => by rw [hpc]; rfl
  | addReturns c wake err hpc => exact exclusive_caller_out h (by rw [hpc]; rfl) rfl
  | addUnlockFails c wake err hpc => exact exclusive_caller_on h fun hin => by cases hin
  | destroyAcquires c ok graceful hpc hlock => exact exclusive_caller_in h hlock c _
  | destroyRefused c ok graceful hpc => exact exclusive_caller_on h fun hin => by cases hin
  | destroyShuts c graceful hpc =>
    have hwoken := exclusive_wake h (broadcast_map_eq s.workers WorkerPc.holds rfl)
    exact exclusive_caller_on hwoken fun _ => by rw [hpc]; rfl
  | broadcastFails c graceful hpc => exact exclusive_caller_on h fun hin => by cases hin
  | destroyUnlocks c hpc => exact exclusive_caller_out h (by rw [hpc]; rfl) rfl
  | destroyUnlockFails c hpc => exact exclusive_caller_on h fun hin => by cases hin
  | joins c ok j err hpc => exact exclusive_caller_on h fun hin => by cases hin
  | joinsDone c ok j hpc => exact exclusive_caller_on h fun hin => by cases hin
  | joinsFailed c ok j err hpc => exact exclusive_caller_on h fun hin => by cases hin
  | freeGivesUp c ok hpc => exact exclusive_caller_on h fun hin => by cases hin
  | freesQueue c ok hpc => exact exclusive_caller_on h fun hin => by cases hin
  | frees c ok hpc => exact exclusive_caller_on h fun hin => by cases hin

end Callers

/-! ## The queue -/

/-- The circular array holds `xs`, oldest first: what was added and not yet taken. -/
structure Queued (pool : ThreadpoolT α) (added taken xs : List α) : Prop where
  ring : Ring.Represents pool.queue pool.queueSize pool.head pool.tail pool.count xs
  added_eq : added = taken ++ xs

variable {pool : ThreadpoolT α} {added taken xs : List α}

theorem Queued.store (h : Queued pool added taken xs) (hroom : pool.count ≠ pool.queueSize)
    (task : α) : Queued (pool.stored task) (added ++ [task]) taken (xs ++ [task]) where
  ring := h.ring.push (Nat.lt_of_le_of_ne h.ring.count_le hroom) task
  added_eq := by rw [h.added_eq, List.append_assoc]

/-- A worker that neither waits nor leaves finds something in the queue. -/
theorem count_ne_zero_of_stays (hwork : ¬(pool.count = 0 ∧ pool.shutdown = none))
    (hstay : ¬Leaves pool) : pool.count ≠ 0 := by
  intro hzero
  cases hshut : pool.shutdown with
  | none => exact hwork ⟨hzero, hshut⟩
  | some kind =>
    cases kind with
    | immediateShutdown => exact hstay (.inl hshut)
    | gracefulShutdown => exact hstay (.inr ⟨hshut, hzero⟩)

theorem Queued.grab {task : α} (h : Queued pool added taken xs) (hne : pool.count ≠ 0)
    (htask : pool.queue[pool.head]? = some task) :
    ∃ ys, xs = task :: ys ∧ Queued pool.grabbed added (taken ++ [task]) ys := by
  obtain ⟨task', ys, rfl, hhead, hring⟩ := h.ring.pop hne
  have e : task' = task := Option.some.inj (hhead.symm.trans htask)
  subst e
  refine ⟨ys, rfl, hring, ?_⟩
  rw [h.added_eq, List.append_assoc]
  rfl

theorem Queued.pos (h : Queued pool added taken xs) : pool.queueSize ≠ 0 :=
  Nat.ne_of_gt (Nat.zero_lt_of_lt h.ring.head_lt)

theorem Queued.threadLocked (h : Queued pool added taken xs) :
    threadpoolThreadLocked pool ≠ none := by
  have hhead : pool.head < pool.queue.length := h.ring.length_cells ▸ h.ring.head_lt
  unfold threadpoolThreadLocked
  split
  · simp
  · split
    · simp
    · rw [List.getElem?_eq_getElem hhead, Option.bind_some, remainder, if_neg h.pos]
      simp

theorem Queued.addLocked (h : Queued pool added taken xs) (task : α) :
    threadpoolAddLocked pool task ≠ none := by
  have htail : ¬pool.queue.length ≤ pool.tail :=
    Nat.not_le_of_lt (h.ring.length_cells ▸ h.ring.tail_lt)
  rw [threadpoolAddLocked, remainder, if_neg h.pos, Option.bind_some, if_neg htail]
  split
  · simp
  · split <;> simp

/-! ## The workers -/

/-- 1 for a worker that `pool->started` counts. -/
def WorkerPc.counted : WorkerPc α → Nat
  | .leaving | .exited => 0
  | _ => 1

/-- The counters agree with the workers, and a worker leaves for a reason that lasts. -/
structure Roll (pool : ThreadpoolT α) (workers : Fin n → WorkerPc α) : Prop where
  threadCount : pool.threadCount = n
  started : pool.started = Tally.total WorkerPc.counted workers
  left : ∀ i, (workers i).counted = 0 → Leaves pool

variable {workers workers' : Fin n → WorkerPc α}

theorem Roll.wake (h : Roll pool workers) (hw : ∀ i, (workers' i).counted = (workers i).counted) :
    Roll pool workers' where
  threadCount := h.threadCount
  started := by rw [h.started, total_map_eq hw]
  left i hi := h.left i ((hw i).symm.trans hi)

/-- A worker moves on that is counted before and afterwards. -/
theorem Roll.move (h : Roll pool workers) {i : Fin n} {pc : WorkerPc α} (hpc : pc.counted = 1)
    (hold : (workers i).counted = 1) : Roll pool (Function.update workers i pc) := by
  refine h.wake fun j => ?_
  by_cases hji : j = i
  · rw [hji, Function.update_self, hpc, hold]
  · rw [Function.update_of_ne hji]

/-- The pool changes, but not in its counters. -/
theorem Roll.change {pool' : ThreadpoolT α} (h : Roll pool workers)
    (hthreads : pool'.threadCount = pool.threadCount) (hstarted : pool'.started = pool.started)
    (hleaves : Leaves pool → Leaves pool') : Roll pool' workers where
  threadCount := hthreads.trans h.threadCount
  started := hstarted.trans h.started
  left i hi := hleaves (h.left i hi)

theorem Roll.leave (h : Roll pool workers) {i : Fin n} (hpc : workers i = .check)
    (hleave : Leaves pool) : Roll pool.left (Function.update workers i .leaving) where
  threadCount := h.threadCount
  started := by
    have hsum := Tally.total_update WorkerPc.counted workers i .leaving
    rw [hpc] at hsum
    simp only [WorkerPc.counted] at hsum
    simp only [ThreadpoolT.left, h.started]
    omega
  left _ _ := hleave

/-- A worker that has left `pool->started` stays out of it. -/
theorem Roll.exit (h : Roll pool workers) {i : Fin n} (hpc : workers i = .leaving) :
    Roll pool (Function.update workers i .exited) := by
  refine h.wake fun j => ?_
  by_cases hji : j = i
  · rw [hji, Function.update_self, hpc]
    rfl
  · rw [Function.update_of_ne hji]

section Callers

variable [DecidableEq κ] {a : PoolAction n κ α}

theorem queued_step (h : Queued s.pool s.added s.taken xs) (hm : PoolMoves s a t) :
    ∃ ys, Queued t.pool t.added t.taken ys := by
  cases hm with
  | grabs i task hpc hwork hstay htask =>
    obtain ⟨ys, -, hys⟩ := h.grab (count_ne_zero_of_stays hwork hstay) htask
    exact ⟨ys, hys⟩
  | addStores c wake task workers hpc hroom => exact ⟨_, h.store hroom task⟩
  | signalFails c wake task hpc hroom => exact ⟨_, h.store hroom task⟩
  | _ => exact ⟨xs, h.ring, h.added_eq⟩

theorem roll_step (h : Roll s.pool s.workers) (hm : PoolMoves s a t) : Roll t.pool t.workers := by
  cases hm with
  | acquires i hpc => exact h.move rfl (by rcases hpc with hpc | hpc <;> rw [hpc] <;> rfl)
  | waits i hpc => exact h.move rfl (by rw [hpc]; rfl)
  | leaves i hpc hleave => exact h.leave hpc hleave
  | grabs i task hpc hwork hstay =>
    have hmoved : Roll s.pool (Function.update s.workers i (.grabbed task)) :=
      h.move rfl (by rw [hpc]; rfl)
    exact hmoved.change rfl rfl fun hleave => absurd hleave hstay
  | unlocks i task hpc => exact h.move rfl (by rw [hpc]; rfl)
  | finishes i task hpc => exact h.move rfl (by rw [hpc]; rfl)
  | exits i hpc => exact h.exit hpc
  | spurious i hpc => exact h.move rfl (by rw [hpc]; rfl)
  | addStores c wake task workers hpc hroom hshut hsignal =>
    exact (h.wake (hsignal.map_eq WorkerPc.counted rfl)).change rfl rfl fun hleave =>
      absurd hshut hleave.shutdown_ne
  | signalFails c wake task hpc hroom hshut =>
    exact h.change rfl rfl fun hleave => absurd hshut hleave.shutdown_ne
  | destroyShuts c graceful hpc hshut =>
    exact (h.wake (broadcast_map_eq s.workers WorkerPc.counted rfl)).change rfl rfl fun hleave =>
      absurd hshut hleave.shutdown_ne
  | broadcastFails c graceful hpc hshut =>
    exact h.change rfl rfl fun hleave => absurd hshut hleave.shutdown_ne
  | _ => exact h

end Callers

end Netepoll
