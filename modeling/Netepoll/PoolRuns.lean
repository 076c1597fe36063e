import Netepoll.PoolCreate
import Netepoll.PoolSafety

/-! Whole runs of a pool that `threadpool_create` has returned: tasks are taken in the order
in which they were added, each is executed once, the pool is freed only when every worker has
ended, and what a shutdown or a lock that is never given back does to it. -/

namespace Netepoll

universe u v

variable {α : Type u} {n : Nat} {κ : Type v}

/-! ## Tasks in progress -/

/-- The task that a worker has taken and not yet finished. -/
def WorkerPc.task : WorkerPc α → Option α
  | .grabbed task | .working task => some task
  | _ => none

/-- The tasks that the workers have in hand. -/
def inProgress (workers : Fin n → WorkerPc α) : List α := Tally.collect WorkerPc.task workers

/-- What was taken is finished or in progress. -/
def Executed (taken finished : List α) (workers : Fin n → WorkerPc α) : Prop :=
  taken.Perm (finished ++ inProgress workers)

variable {taken finished : List α} {workers workers' : Fin n → WorkerPc α}

theorem Executed.wake (h : Executed taken finished workers)
    (hw : ∀ i, (workers' i).task = (workers i).task) : Executed taken finished workers' := by
  rw [Executed, inProgress, Tally.collect_congr hw]
  exact h

theorem Executed.move (h : Executed taken finished workers) {i : Fin n} {pc : WorkerPc α}
    (hpc : pc.task = (workers i).task) :
    Executed taken finished (Function.update workers i pc) := by
  refine h.wake fun j => ?_
  by_cases hji : j = i
  · rw [hji, Function.update_self, hpc]
  · rw [Function.update_of_ne hji]

theorem Executed.grab (h : Executed taken finished workers) {i : Fin n}
    (hold : (workers i).task = none) (task : α) :
    Executed (taken ++ [task]) finished (Function.update workers i (.grabbed task)) := by
  obtain ⟨rest, hbefore, hafter⟩ :=
    Tally.collect_update WorkerPc.task workers i (.grabbed task)
  rw [hold] at hbefore
  calc List.Perm (taken ++ [task]) ((finished ++ rest) ++ [task]) :=
        (h.trans (hbefore.append_left finished)).append_right [task]
    _ = finished ++ (rest ++ [task]) := List.append_assoc ..
    List.Perm _ (finished ++ ([task] ++ rest)) := List.perm_append_comm.append_left finished
    List.Perm _ (finished ++ inProgress _) := hafter.symm.append_left finished

theorem Executed.finish (h : Executed taken finished workers) {i : Fin n} {task : α}
    (hold : (workers i).task = some task) :
    Executed taken (finished ++ [task]) (Function.update workers i .lock) := by
  obtain ⟨rest, hbefore, hafter⟩ := Tally.collect_update WorkerPc.task workers i .lock
  rw [hold] at hbefore
  calc List.Perm taken (finished ++ ([task] ++ rest)) := h.trans (hbefore.append_left finished)
    _ = finished ++ [task] ++ rest := (List.append_assoc ..).symm
    List.Perm _ (finished ++ [task] ++ inProgress _) := hafter.symm.append_left _

/-! ## The joins -/

/-- In `threadpool_free`. -/
def CallerPc.freeing : CallerPc α → Bool
  | .free | .freeLock => true
  | _ => false

/-- Behind a join without an error the worker has ended, and so have all workers of a pool
that is about to be freed. -/
structure Joined (workers : Fin n → WorkerPc α) (callers : κ → CallerPc α)
    (queueFreed freed : Bool) : Prop where
  join : ∀ c j, callers c = .join j 0 → ∀ i : Fin n, i.val < j → workers i = .exited
  free : ∀ c, (callers c).freeing = true → ∀ i, workers i = .exited
  queueFreed : queueFreed = true → ∀ i, workers i = .exited
  freed : freed = true → ∀ i, workers i = .exited

variable {callers : κ → CallerPc α} {queueFreed freed : Bool}

/-- A worker that has ended makes no step. -/
theorem Joined.keep (h : Joined workers callers queueFreed freed)
    (hexited : ∀ i, workers i = .exited → workers' i = .exited) :
    Joined workers' callers queueFreed freed where
  join c j hc i hi := hexited i (h.join c j hc i hi)
  free c hc i := hexited i (h.free c hc i)
  queueFreed hf i := hexited i (h.queueFreed hf i)
  freed hf i := hexited i (h.freed hf i)

theorem Joined.move (h : Joined workers callers queueFreed freed) {i : Fin n} {pc old : WorkerPc α}
    (hpc : workers i = old) (hold : old.isExited = false) :
    Joined (Function.update workers i pc) callers queueFreed freed := by
  refine h.keep fun j hj => ?_
  have hji : j ≠ i := by
    rintro rfl
    rw [hpc] at hj
    subst hj
    cases hold
  rw [Function.update_of_ne hji, hj]

theorem Joined.wake (h : Joined workers callers queueFreed freed)
    (hw : ∀ i, (workers' i).isExited = (workers i).isExited) :
    Joined workers' callers queueFreed freed :=
  h.keep fun i hi => isExited_iff.mp ((hw i).trans (isExited_iff.mpr hi))

variable [DecidableEq κ]

/-- A caller goes to a place where it knows nothing of the workers. -/
def CallerPc.unaware : CallerPc α → Bool
  | .join _ _ | .free | .freeLock => false
  | _ => true

theorem Joined.caller (h : Joined workers callers queueFreed freed) {c : κ} {pc : CallerPc α}
    (hjoin : ∀ j, pc = .join j 0 → ∀ i : Fin n, i.val < j → workers i = .exited)
    (hfree : pc.freeing = true → ∀ i, workers i = .exited) :
    Joined workers (Function.update callers c pc) queueFreed freed := by
  refine ⟨fun d j hd => ?_, fun d hd => ?_, h.queueFreed, h.freed⟩ <;> by_cases hdc : d = c
  · rw [hdc, Function.update_self] at hd
    exact hjoin j hd
  · rw [Function.update_of_ne hdc] at hd
    exact h.join d j hd
  · rw [hdc, Function.update_self] at hd
    exact hfree hd
  · rw [Function.update_of_ne hdc] at hd
    exact h.free d hd

theorem Joined.unaware (h : Joined workers callers queueFreed freed) (c : κ) {pc : CallerPc α}
    (hpc : pc.unaware = true) :
    Joined workers (Function.update callers c pc) queueFreed freed := by
  refine h.caller (fun j hj => ?_) fun hfree => ?_
  · rw [hj] at hpc
    cases hpc
  · cases pc <;> first
      | exact absurd hfree Bool.false_ne_true
      | exact absurd hpc Bool.false_ne_true

variable {s t : PoolSystem n κ α} {a : PoolAction n κ α}

theorem executed_step (h : Executed s.taken s.finished s.workers) (hm : PoolMoves s a t) :
    Executed t.taken t.finished t.workers := by
  cases hm with
  | acquires i hpc => exact h.move (by rcases hpc with hpc | hpc <;> rw [hpc] <;> rfl)
  | waits i hpc => exact h.move (by rw [hpc]; rfl)
  | leaves i hpc => exact h.move (by rw [hpc]; rfl)
  | grabs i task hpc => exact h.grab (by rw [hpc]; rfl) task
  | unlocks i task hpc => exact h.move (by rw [hpc]; rfl)
  | finishes i task hpc => exact h.finish (by rw [hpc]; rfl)
  | exits i hpc => exact h.move (by rw [hpc]; rfl)
  | spurious i hpc => exact h.move (by rw [hpc]; rfl)
  | addStores c wake task workers hpc hroom hshut hsignal =>
    exact h.wake (hsignal.map_eq WorkerPc.task rfl)
  | destroyShuts => exact h.wake (broadcast_map_eq s.workers WorkerPc.task rfl)
  | _ => exact h

theorem joined_step (h : Joined s.workers s.callers s.queueFreed s.freed)
    (hroll : Roll s.pool s.workers) (hm : PoolMoves s a t) :
    Joined t.workers t.callers t.queueFreed t.freed := by
  cases hm with
  | acquires i hpc => rcases hpc with hpc | hpc <;> exact h.move hpc rfl
  | waits i hpc => exact h.move hpc rfl
  | leaves i hpc => exact h.move hpc rfl
  | grabs i task hpc => exact h.move hpc rfl
  | unlocks i task hpc => exact h.move hpc rfl
  | finishes i task hpc => exact h.move hpc rfl
  | exits i hpc => exact h.move hpc rfl
  | spurious i hpc => exact h.move hpc rfl
  | addStores c wake task workers hpc hroom hshut hsignal =>
    exact (h.wake (hsignal.map_eq WorkerPc.isExited rfl)).unaware c rfl
  | destroyShuts c =>
    exact (h.wake (broadcast_map_eq s.workers WorkerPc.isExited rfl)).unaware c rfl
  | destroyUnlocks c =>
    refine h.caller (fun j hj i hi => ?_) fun hfree => by cases hfree
    cases hj
    exact absurd hi (Nat.not_lt_zero _)
  | joins c ok j err hpc hlt hexit =>
    refine h.caller (fun k hk i hi => ?_) fun hfree => by cases hfree
    cases ok with
    | false => cases hk
    | true =>
      cases hk
      obtain ⟨hj, hex⟩ := hexit rfl
      rcases Nat.lt_or_eq_of_le (Nat.le_of_lt_succ hi) with hlt | heq
      · exact h.join c j hpc i hlt
      · have e : i = ⟨j, hj⟩ := Fin.ext heq
        rw [e, hex]
  | joinsDone c ok j hpc hge =>
    refine h.caller (fun k hk => by cases hk) fun _ i => ?_
    rw [hroll.threadCount] at hge
    exact h.join c j hpc i (Nat.lt_of_lt_of_le i.isLt hge)
  | freesQueue c ok hpc =>
    have hall := h.free c (by rw [hpc]; rfl)
    have hrest : Joined s.workers (Function.update s.callers c .freeLock) s.queueFreed s.freed :=
      h.caller (fun j hj => by cases hj) fun _ => hall
    exact ⟨hrest.join, hrest.free, fun _ => hall, hrest.freed⟩
  | frees c ok hpc =>
    have hrest : Joined s.workers (Function.update s.callers c (.returned (some 0))) s.queueFreed
        s.freed := h.unaware c rfl
    exact ⟨hrest.join, hrest.free, hrest.queueFreed, fun _ => h.free c (by rw [hpc]; rfl)⟩
  | callsInvalid c => exact h.unaware c rfl
  | addUnlockFails c => exact h.unaware c rfl
  | destroyUnlockFails c => exact h.unaware c rfl
  | callsAdd c => exact h.unaware c rfl
  | callsDestroy c => exact h.unaware c rfl
  | lockFailed c => exact h.unaware c rfl
  | addAcquires c => exact h.unaware c rfl
  | addRefused c => exact h.unaware c rfl
  | signalFails c => exact h.unaware c rfl
  | addReturns c => exact h.unaware c rfl
  | destroyAcquires c => exact h.unaware c rfl
  | destroyRefused c => exact h.unaware c rfl
  | broadcastFails c => exact h.unaware c rfl
  | joinsFailed c => exact h.unaware c rfl
  | freeGivesUp c => exact h.unaware c rfl

/-! ## The shutdown flag -/

/-- In `threadpool_destroy`, behind the shutdown flag. -/
def CallerPc.behindFlag : CallerPc α → Bool
  | .destroyUnlock | .join _ _ | .free | .freeLock => true
  | _ => false

/-- Nobody gets to `threadpool_free` without the flag. -/
structure FlagSet (s : PoolSystem n κ α) : Prop where
  caller : ∀ c, (s.callers c).behindFlag = true → s.pool.shutdown ≠ none
  queueFreed : s.queueFreed = true → s.pool.shutdown ≠ none

theorem shutdown_stays (h : s.pool.shutdown ≠ none) (hm : PoolMoves s a t) :
    t.pool.shutdown ≠ none := by
  cases hm with
  | destroyShuts => exact Option.some_ne_none _
  | broadcastFails => exact Option.some_ne_none _
  | _ => exact h

/-- A caller behind the flag has been there before the step, or has set the flag in it. -/
theorem behindFlag_step (hm : PoolMoves s a t) {c : κ} (hc : (t.callers c).behindFlag = true) :
    (∃ d, (s.callers d).behindFlag = true) ∨ t.pool.shutdown ≠ none := by
  have hmoved {d : κ} {pc : CallerPc α} (hold : (s.callers d).behindFlag = pc.behindFlag)
      (hnew : (Function.update s.callers d pc c).behindFlag = true) :
      ∃ d, (s.callers d).behindFlag = true := by
    by_cases hcd : c = d
    · rw [hcd, Function.update_self] at hnew
      exact ⟨d, hold.trans hnew⟩
    · rw [Function.update_of_ne hcd] at hnew
      exact ⟨c, hnew⟩
  have hout {d : κ} {pc : CallerPc α} (hpc : pc.behindFlag = false)
      (hnew : (Function.update s.callers d pc c).behindFlag = true) :
      ∃ d, (s.callers d).behindFlag = true := by
    by_cases hcd : c = d
    · rw [hcd, Function.update_self, hpc] at hnew
      cases hnew
    · rw [Function.update_of_ne hcd] at hnew
      exact ⟨c, hnew⟩
  cases hm with
  | destroyShuts => exact .inr (Option.some_ne_none _)
  | broadcastFails => exact .inr (Option.some_ne_none _)
  | callsAdd => exact .inl (hout rfl hc)
  | callsDestroy => exact .inl (hout rfl hc)
  | callsInvalid => exact .inl (hout rfl hc)
  | lockFailed => exact .inl (hout rfl hc)
  | addAcquires => exact .inl (hout rfl hc)
  | addRefused => exact .inl (hout rfl hc)
  | addStores => exact .inl (hout rfl hc)
  | signalFails => exact .inl (hout rfl hc)
  | addReturns => exact .inl (hout rfl hc)
  | addUnlockFails => exact .inl (hout rfl hc)
  | destroyAcquires => exact .inl (hout rfl hc)
  | destroyRefused => exact .inl (hout rfl hc)
  | destroyUnlocks d hpc => exact .inl (hmoved (by rw [hpc]; rfl) hc)
  | destroyUnlockFails => exact .inl (hout rfl hc)
  | joins d ok j err hpc => exact .inl (hmoved (by rw [hpc]; rfl) hc)
  | joinsDone d ok j hpc => exact .inl (hmoved (by rw [hpc]; rfl) hc)
  | joinsFailed => exact .inl (hout rfl hc)
  | freeGivesUp => exact .inl (hout rfl hc)
  | freesQueue d ok hpc => exact .inl (hmoved (by rw [hpc]; rfl) hc)
  | frees => exact .inl (hout rfl hc)
  | _ => exact .inl ⟨c, hc⟩

theorem flagSet_step (h : FlagSet s) (hm : PoolMoves s a t) : FlagSet t := by
  refine ⟨fun c hc => ?_, fun hfreed => ?_⟩
  · rcases behindFlag_step hm hc with ⟨d, hd⟩ | hset
    · exact shutdown_stays (h.caller d hd) hm
    · exact hset
  · have hold : s.pool.shutdown ≠ none := by
      cases hm with
      | freesQueue c ok hpc => exact h.caller c (by rw [hpc]; rfl)
      | _ => exact h.queueFreed hfreed
    exact shutdown_stays hold hm

/-! ## Runs -/

/-- What holds in every state of a run of a pool whose queue has `size` places. -/
structure PoolInv (size : Nat) (s : PoolSystem n κ α) : Prop where
  exclusive : Mutex.Exclusive s.lock s.holds
  queueSize : s.pool.queueSize = size
  queued : ∃ xs, Queued s.pool s.added s.taken xs
  roll : Roll s.pool s.workers
  executed : Executed s.taken s.finished s.workers
  joined : Joined s.workers s.callers s.queueFreed s.freed
  flag : FlagSet s

theorem poolInv_step {size : Nat} (h : PoolInv size s) (hs : poolStep s a = some t) :
    PoolInv size t := by
  obtain ⟨-, hm⟩ := poolStep_cases hs
  obtain ⟨xs, hxs⟩ := h.queued
  exact {
    exclusive := exclusive_step h.exclusive hm
    queueSize := by rw [← h.queueSize]; cases hm <;> rfl
    queued := queued_step hxs hm
    roll := roll_step h.roll hm
    executed := executed_step h.executed hm
    joined := joined_step h.joined h.roll hm
    flag := flagSet_step h.flag hm }

theorem startedPool_queue_length (queueSize m : Nat) (o : CreateOutcome α) :
    (startedPool queueSize m o).queue.length = queueSize := by
  simp [startedPool, initPool]

omit [DecidableEq κ] in
theorem poolInv_start {queueSize : Nat} (o : CreateOutcome α) (hsize : 0 < queueSize) :
    PoolInv (n := n) (κ := κ) queueSize (.start (startedPool queueSize n o)) := by
  have htotal : Tally.total WorkerPc.counted (fun _ : Fin n => (.lock : WorkerPc α)) = n := by
    have hone : ∀ _ : Fin n, (WorkerPc.lock : WorkerPc α).counted = 1 := fun _ => rfl
    rw [Tally.total_const hone, Fintype.card_fin, Nat.mul_one]
  have hnone : inProgress (fun _ : Fin n => (.lock : WorkerPc α)) = [] :=
    Tally.collect_eq_nil fun _ => rfl
  exact {
    exclusive := fun u hu => by cases u <;> cases hu
    queueSize := rfl
    queued := ⟨[], Ring.represents_nil hsize (startedPool_queue_length queueSize n o), rfl⟩
    roll := ⟨rfl, congrArg Nat.cast htotal.symm, fun i hi => by cases hi⟩
    executed := List.Perm.of_eq (by rw [PoolSystem.start, hnone]; rfl)
    joined := ⟨fun c j hc => by (cases hc), fun c hc => by (cases hc), fun hf => by (cases hf),
      fun hf => by cases hf⟩
    flag := ⟨fun c hc => by (cases hc), fun hf => by cases hf⟩ }

/-- The invariant holds over every run of a pool that `threadpool_create` hands out. -/
theorem poolInv_run {threadCount queueSize : Int} {o : CreateOutcome α} {pool : ThreadpoolT α}
    (hpool : Launched threadCount queueSize o pool)
    {s : PoolSystem pool.threadCount κ α} {as : List (PoolAction pool.threadCount κ α)}
    (hr : Transition.run poolStep (.start pool) as = some s) : PoolInv pool.queueSize s := by
  obtain ⟨hrange, m, rfl, -⟩ := launched_eq hpool
  refine Transition.run_invariant (fun _ _ _ hi hs => poolInv_step hi hs) ?_ hr
  exact poolInv_start o (Int.pos_iff_toNat_pos.mp hrange.2.2.1)

omit [DecidableEq κ] in
/-- Nobody touches the queue once it is freed. -/
theorem PoolInv.defined {size : Nat} (h : PoolInv size s) (u : Tid n κ) : s.Defined u := by
  obtain ⟨xs, hxs⟩ := h.queued
  cases u with
  | worker i =>
    refine fun hpc => ⟨hxs.threadLocked, fun pool task _ => Bool.eq_false_of_not_eq_true ?_⟩
    intro hfreed
    rw [h.joined.queueFreed hfreed i] at hpc
    cases hpc
  | caller c =>
    refine fun task _ => ⟨hxs.addLocked task, fun pool hadd => Bool.eq_false_of_not_eq_true ?_⟩
    exact fun hfreed => h.flag.queueFreed hfreed (addLocked_queued hadd).2.1

/-- **The queue is first in, first out, and every task is executed once.** In every state of
every run the array, until it is freed, holds, oldest first, exactly the tasks that were added
and not yet taken, workers have taken the others in the order in which they were added, and each
task added is finished, in the hands of one worker or not yet taken. -/
theorem pool_fifo {threadCount queueSize : Int} {o : CreateOutcome α} {pool : ThreadpoolT α}
    (hpool : Launched threadCount queueSize o pool)
    {s : PoolSystem pool.threadCount κ α} {as : List (PoolAction pool.threadCount κ α)}
    (hr : Transition.run poolStep (.start pool) as = some s) :
    ∃ xs, (s.queueFreed = false →
        Ring.Represents s.pool.queue pool.queueSize s.pool.head s.pool.tail s.pool.count xs) ∧
      s.added = s.taken ++ xs ∧
      s.added.Perm (s.finished ++ inProgress s.workers ++ xs) := by
  have h := poolInv_run hpool hr
  obtain ⟨xs, hxs⟩ := h.queued
  refine ⟨xs, fun _ => h.queueSize ▸ hxs.ring, hxs.added_eq, ?_⟩
  rw [hxs.added_eq]
  exact h.executed.append_right xs

def allWell {α : Type} (a : α) : CreateOutcome α where
  pool := true
  threads := true
  queue := true
  contents := fun _ => a
  mutexInit := true
  condInit := true
  created := fun _ => true

/-- A pool of one thread and two places. -/
def onePool : ThreadpoolT Nat := startedPool 2 1 (allWell 0)

theorem launched_onePool : Launched 1 2 (allWell 0) onePool := .inl rfl

/-- One caller adds two tasks. -/
def addTwo : List (PoolAction 1 Bool Nat) :=
  [.callAdd false 7, .add false true none, .add false true none, .add false true none,
   .callAdd false 8, .add false true none, .add false true none, .add false true none]

/-- The worker takes the first one. -/
def takeOne : List (PoolAction 1 Bool Nat) := addTwo ++ [.worker 0, .worker 0]

theorem pool_fifo_takeOne :
    ∃ s : PoolSystem 1 Bool Nat, Transition.run poolStep (.start onePool) takeOne = some s ∧
      s.added = [7, 8] ∧ s.taken = [7] ∧ s.workers 0 = .grabbed 7 ∧
      Ring.Represents s.pool.queue 2 s.pool.head s.pool.tail s.pool.count [8] ∧
      s.added.Perm (s.finished ++ inProgress s.workers ++ [8]) := by
  have hr : Transition.run poolStep (.start onePool) takeOne = some _ := rfl
  obtain ⟨xs, hring, hadded, hperm⟩ := pool_fifo launched_onePool hr
  have hxs : xs = [8] := (List.cons.inj hadded).2.symm
  subst hxs
  exact ⟨_, hr, rfl, rfl, rfl, hring rfl, hperm⟩

/-- **Critical sections.** In every state of every run at most one thread is inside a section
that the lock guards, and no thread in one reads or writes outside the queue, or in it when it
is freed, or divides by zero. -/
theorem pool_critical_sections {threadCount queueSize : Int} {o : CreateOutcome α}
    {pool : ThreadpoolT α} (hpool : Launched threadCount queueSize o pool)
    {s : PoolSystem pool.threadCount κ α} {as : List (PoolAction pool.threadCount κ α)}
    (hr : Transition.run poolStep (.start pool) as = some s) :
    (∀ u v, s.holds u → s.holds v → u = v) ∧ ∀ u, s.Defined u := by
  have h := poolInv_run hpool hr
  exact ⟨fun u v hu hv => h.exclusive.unique hu hv, h.defined⟩

/-- The worker is inside, in front of the queue, and another caller is at the lock. -/
def atQueue : List (PoolAction 1 Bool Nat) := addTwo ++ [.callAdd true 9, .worker 0]

theorem pool_critical_sections_atQueue :
    ∃ s : PoolSystem 1 Bool Nat, Transition.run poolStep (.start onePool) atQueue = some s ∧
      s.workers 0 = .check ∧ s.callers true = .addLock 9 ∧
      (∀ u, s.holds u → u = .worker 0) ∧ ∀ u, s.Defined u := by
  have hr : Transition.run poolStep (.start onePool) atQueue = some _ := rfl
  obtain ⟨hone, hdefined⟩ := pool_critical_sections launched_onePool hr
  exact ⟨_, hr, rfl, rfl, fun u hu => hone u _ hu rfl, hdefined⟩

/-! ## The end of a pool -/

theorem Joined.started {pool : ThreadpoolT α} (hroll : Roll pool workers)
    (hall : ∀ i, workers i = .exited) : pool.started = 0 := by
  rw [hroll.started, Tally.total_eq_zero fun i => by rw [hall i]; rfl]
  rfl

/-- **Freeing.** A pool is freed only when every worker has ended; then what was taken has been
executed, and after a graceful shutdown all that was ever added. A `threadpool_destroy` that
comes to `threadpool_free` does not give up there: it frees the queue, and the pool when it finds
the lock free. -/
theorem pool_freed {threadCount queueSize : Int} {o : CreateOutcome α} {pool : ThreadpoolT α}
    (hpool : Launched threadCount queueSize o pool)
    {s : PoolSystem pool.threadCount κ α} {as : List (PoolAction pool.threadCount κ α)}
    (hr : Transition.run poolStep (.start pool) as = some s) :
    (s.freed = true → (∀ i, s.workers i = .exited) ∧ s.finished.Perm s.taken ∧
      (0 < pool.threadCount → s.pool.shutdown = some .gracefulShutdown →
        s.finished.Perm s.added)) ∧
    (∀ c ok, s.freed = false → s.callers c = .free →
      poolStep s (.destroy c ok) = some ({ s with queueFreed := true }.setCaller c .freeLock)) ∧
    ∀ c ok, s.freed = false → s.callers c = .freeLock → s.lock = none →
      ∃ t, poolStep s (.destroy c ok) = some t ∧ t.freed = true := by
  have h := poolInv_run hpool hr
  obtain ⟨xs, hxs⟩ := h.queued
  refine ⟨fun hfreed => ?_, fun c ok hfreed hc => ?_, fun c ok hfreed hc hlock => ?_⟩
  · have hall := h.joined.freed hfreed
    have hnone : inProgress s.workers = [] :=
      Tally.collect_eq_nil fun i => by rw [hall i]; rfl
    have hdone : s.finished.Perm s.taken := by
      have hexec := h.executed
      rw [Executed, hnone, List.append_nil] at hexec
      exact hexec.symm
    refine ⟨hall, hdone, fun hpos hgraceful => ?_⟩
    have hleft : Leaves s.pool := h.roll.left ⟨0, hpos⟩ (by rw [hall]; rfl)
    have hcount : s.pool.count = 0 := by
      rcases hleft with himm | ⟨-, hcount⟩
      · rw [hgraceful] at himm
        cases himm
      · exact hcount
    have hempty : xs = [] := List.eq_nil_of_length_eq_zero (hxs.ring.length_eq.trans hcount)
    rw [hxs.added_eq, hempty, List.append_nil]
    exact hdone
  · have hzero := Joined.started h.roll (h.joined.free c (by rw [hc]; rfl))
    simp [poolStep, hfreed, threadpoolDestroy, hc, hzero]
  · simp [poolStep, hfreed, threadpoolDestroy, hc, hlock, PoolSystem.setCaller]

/-- A task is added and executed, and the pool destroyed. -/
def serveAndDestroy : List (PoolAction 1 Unit Nat) :=
  [.callAdd () 7, .add () true none, .add () true none, .add () true none,
    .worker 0, .worker 0, .worker 0, .worker 0, .callDestroy () true,
    .destroy () true, .destroy () true, .destroy () true, .worker 0, .worker 0, .worker 0,
    .destroy () true, .destroy () true, .destroy () true, .destroy () true]

theorem pool_freed_serveAndDestroy :
    ∃ s : PoolSystem 1 Unit Nat,
      Transition.run poolStep (.start onePool) serveAndDestroy = some s ∧ s.freed = true ∧
        s.finished.Perm s.added := by
  have hr : Transition.run poolStep (.start onePool) serveAndDestroy = some _ := rfl
  have hfreed := (pool_freed launched_onePool hr).1 rfl
  exact ⟨_, hr, rfl, hfreed.2.2 (by decide) rfl⟩

/-- **Shutdown.** From the state on in which a shutdown is seen, no task is added any more, and
after an immediate one none is taken: only what workers have in hand is still executed. -/
theorem pool_shutdown {s t : PoolSystem n κ α} {as : List (PoolAction n κ α)}
    {kind : ShutdownKind} (hkind : s.pool.shutdown = some kind)
    (hr : Transition.run poolStep s as = some t) :
    t.pool.shutdown = some kind ∧ t.added = s.added ∧
      (kind = .immediateShutdown → t.taken = s.taken) := by
  refine Transition.run_invariant (I := fun u => u.pool.shutdown = some kind ∧
    u.added = s.added ∧ (kind = .immediateShutdown → u.taken = s.taken)) ?_
    ⟨hkind, rfl, fun _ => rfl⟩ hr
  rintro u a v ⟨hshut, hadded, htaken⟩ hs
  have hsome : u.pool.shutdown ≠ none := by simp [hshut]
  cases (poolStep_cases hs).2 with
  | grabs i task hpc hwork hstay =>
    refine ⟨hshut, hadded, fun himm => ?_⟩
    exact absurd (.inl (by rw [hshut, himm])) hstay
  | addStores c wake task workers hpc hroom hnone => exact absurd hnone hsome
  | signalFails c wake task hpc hroom hnone => exact absurd hnone hsome
  | destroyShuts c graceful hpc hnone => exact absurd hnone hsome
  | broadcastFails c graceful hpc hnone => exact absurd hnone hsome
  | _ => exact ⟨hshut, hadded, htaken⟩

/-- A task is in the queue and a caller is about to add another when the pool is shut down. -/
def shutAtOnce : List (PoolAction 1 Bool Nat) :=
  [.callAdd false 7, .add false true none, .add false true none, .add false true none,
   .callAdd false 8, .callDestroy true false, .destroy true true, .destroy true true]

/-- The second task is refused, the worker leaves and the pool is freed. -/
def afterShut : List (PoolAction 1 Bool Nat) :=
  [.destroy true true, .add false true none, .add false true none, .add false true none,
   .worker 0, .worker 0, .worker 0, .destroy true true, .destroy true true, .destroy true true,
   .destroy true true]

theorem pool_shutdown_afterShut :
    ∃ s t : PoolSystem 1 Bool Nat, Transition.run poolStep (.start onePool) shutAtOnce = some s ∧
      Transition.run poolStep s afterShut = some t ∧ s.callers false = .addLock 8 ∧
      s.pool.count = 1 ∧ t.freed = true ∧
      t.callers false = .returned (some threadpoolShutdown) ∧
      t.pool.shutdown = some .immediateShutdown ∧ t.added = s.added ∧ t.taken = s.taken := by
  have hall : Transition.run poolStep (.start onePool) (shutAtOnce ++ afterShut) = some _ := rfl
  obtain ⟨s, hs, ht⟩ := Transition.run_append_eq_some.mp hall
  have hkind : s.pool.shutdown = some .immediateShutdown := by
    cases hs
    rfl
  obtain ⟨hshut, hadded, htaken⟩ := pool_shutdown hkind ht
  refine ⟨s, _, hs, ht, ?_, ?_, rfl, rfl, hshut, hadded, htaken rfl⟩
  · cases hs
    rfl
  · cases hs
    rfl

/-! ## A lock that is never given back -/

theorem nobody_setWorker (h : ∀ u, ¬s.holds u) {i : Fin n} {pc : WorkerPc α}
    (hpc : pc.holds = false) : ∀ u, ¬(s.setWorker i pc).holds u := by
  intro u hu
  by_cases hui : u = .worker i
  · rw [hui, holds_setWorker_self, hpc] at hu
    cases hu
  · exact h u ((holds_setWorker hui).mp hu)

theorem nobody_setCaller (h : ∀ u, ¬s.holds u) {c : κ} {pc : CallerPc α}
    (hpc : pc.holds = false) : ∀ u, ¬(s.setCaller c pc).holds u := by
  intro u hu
  by_cases huc : u = .caller c
  · rw [huc, holds_setCaller_self, hpc] at hu
    cases hu
  · exact h u ((holds_setCaller huc).mp hu)

/-- Caller `c` owns the lock outside the pool, and since `s` nothing moves that needs it. -/
structure Leaked (c : κ) (s t : PoolSystem n κ α) : Prop where
  lock : t.lock = some (.caller c)
  nobody : ∀ u, ¬t.holds u
  pool : t.pool = s.pool
  added : t.added = s.added
  taken : t.taken = s.taken
  freed : t.freed = false
  exited : ∀ i, t.workers i = .exited ↔ s.workers i = .exited

theorem exited_update_iff {i : Fin n} {pc : WorkerPc α} (hpc : pc ≠ .exited)
    (hold : workers i ≠ .exited) (j : Fin n) :
    Function.update workers i pc j = .exited ↔ workers j = .exited := by
  by_cases hji : j = i
  · rw [hji, Function.update_self]
    exact ⟨fun h => absurd h hpc, fun h => absurd h hold⟩
  · rw [Function.update_of_ne hji]

/-- A thread that is outside moves without the lock. -/
theorem leaked_step {c : κ} {u : PoolSystem n κ α} (h : Leaked c s t) (hs : poolStep t a = some u) :
    Leaked c s u := by
  have hworker {i : Fin n} {pc : WorkerPc α} (hpc : t.workers i = pc) (hin : pc.holds = true) :
      False := by
    subst hpc
    exact h.nobody (.worker i) hin
  have hcaller {d : κ} {pc : CallerPc α} (hpc : t.callers d = pc) (hin : pc.holds = true) :
      False := by
    subst hpc
    exact h.nobody (.caller d) hin
  have hlock : t.lock ≠ none := by simp [h.lock]
  cases (poolStep_cases hs).2 with
  | acquires i hpc hfree => exact absurd hfree hlock
  | waits i hpc => exact (hworker hpc rfl).elim
  | leaves i hpc => exact (hworker hpc rfl).elim
  | grabs i task hpc => exact (hworker hpc rfl).elim
  | unlocks i task hpc => exact (hworker hpc rfl).elim
  | exits i hpc => exact (hworker hpc rfl).elim
  | finishes i task hpc =>
    refine ⟨h.lock, nobody_setWorker h.nobody rfl, h.pool, h.added, h.taken, h.freed, fun j => ?_⟩
    exact (exited_update_iff (by simp) (by simp [hpc]) j).trans (h.exited j)
  | spurious i hpc =>
    refine ⟨h.lock, nobody_setWorker h.nobody rfl, h.pool, h.added, h.taken, h.freed, fun j => ?_⟩
    exact (exited_update_iff (by simp) (by simp [hpc]) j).trans (h.exited j)
  | addAcquires d ok wake task hpc hfree => exact absurd hfree hlock
  | addRefused d ok wake task err hpc => exact (hcaller hpc rfl).elim
  | addStores d wake task workers hpc => exact (hcaller hpc rfl).elim
  | signalFails d wake task hpc => exact (hcaller hpc rfl).elim
  | addReturns d wake err hpc => exact (hcaller hpc rfl).elim
  | addUnlockFails d wake err hpc => exact (hcaller hpc rfl).elim
  | destroyAcquires d ok graceful hpc hfree => exact absurd hfree hlock
  | destroyRefused d ok graceful hpc => exact (hcaller hpc rfl).elim
  | destroyShuts d graceful hpc => exact (hcaller hpc rfl).elim
  | broadcastFails d graceful hpc => exact (hcaller hpc rfl).elim
  | destroyUnlocks d hpc => exact (hcaller hpc rfl).elim
  | destroyUnlockFails d hpc => exact (hcaller hpc rfl).elim
  | frees d ok hpc hfree => exact absurd hfree hlock
  | _ =>
    exact ⟨h.lock, nobody_setCaller h.nobody rfl, h.pool, h.added, h.taken, h.freed, h.exited⟩

/-- The next step of `c` leaves the `do` block of `threadpool_destroy` by a `break`: the pool is
shutting down already, or the broadcast or the unlocking fails. -/
def Breaks (s : PoolSystem n κ α) (c : κ) (ok : Bool) : Prop :=
  (∃ graceful, s.callers c = .destroyLocked graceful ∧ (s.pool.shutdown ≠ none ∨ ok = false)) ∨
    s.callers c = .destroyUnlock ∧ ok = false

omit [DecidableEq κ] in
theorem Breaks.holds {c : κ} {ok : Bool} (h : Breaks s c ok) : s.holds (.caller c) := by
  show (s.callers c).holds = true
  rcases h with ⟨graceful, hc, -⟩ | ⟨hc, -⟩ <;> rw [hc] <;> rfl

theorem Breaks.returns {c : κ} {ok : Bool} (h : Breaks s c ok)
    (hm : PoolMoves s (.destroy c ok) t) :
    ∃ pool ret, t = { s with pool := pool }.setCaller c (.returned (some ret)) := by
  have hother {pc : CallerPc α} (hc : s.callers c = pc)
      (hpc : (∀ graceful, pc ≠ .destroyLocked graceful) ∧ pc ≠ .destroyUnlock) : False := by
    rcases h with ⟨graceful, hat, -⟩ | ⟨hat, -⟩
    · exact hpc.1 graceful (hc.symm.trans hat)
    · exact hpc.2 (hc.symm.trans hat)
  cases hm with
  | destroyRefused => exact ⟨s.pool, _, rfl⟩
  | broadcastFails => exact ⟨_, _, rfl⟩
  | destroyUnlockFails => exact ⟨s.pool, _, rfl⟩
  | destroyShuts c graceful hpc hnone =>
    rcases h with ⟨-, -, hbad | hbad⟩ | ⟨-, hbad⟩
    · exact absurd hnone hbad
    · cases hbad
    · cases hbad
  | destroyUnlocks c hpc =>
    rcases h with ⟨graceful, hat, -⟩ | ⟨-, hbad⟩
    · rw [hpc] at hat
      cases hat
    · cases hbad
  | destroyAcquires c ok graceful hpc => exact (hother hpc ⟨nofun, nofun⟩).elim
  | joins c ok j err hpc => exact (hother hpc ⟨nofun, nofun⟩).elim
  | joinsDone c ok j hpc => exact (hother hpc ⟨nofun, nofun⟩).elim
  | joinsFailed c ok j err hpc => exact (hother hpc ⟨nofun, nofun⟩).elim
  | freeGivesUp c ok hpc => exact (hother hpc ⟨nofun, nofun⟩).elim
  | freesQueue c ok hpc => exact (hother hpc ⟨nofun, nofun⟩).elim
  | frees c ok hpc => exact (hother hpc ⟨nofun, nofun⟩).elim

/-- **A `threadpool_destroy` that leaves its `do` block by a `break` keeps the lock.** It returns
without unlocking, and from then on, in every run, nobody gets the lock: no task is added or
taken, no worker ends, and the pool is never freed, even if another `threadpool_destroy` has
joined all workers and frees the queue. -/
theorem destroy_keeps_lock {threadCount queueSize : Int} {o : CreateOutcome α}
    {pool : ThreadpoolT α} (hpool : Launched threadCount queueSize o pool)
    {s t u : PoolSystem pool.threadCount κ α} {as bs : List (PoolAction pool.threadCount κ α)}
    (hr : Transition.run poolStep (.start pool) as = some s) {c : κ} {ok : Bool}
    (hbad : Breaks s c ok) (hs : poolStep s (.destroy c ok) = some t)
    (hu : Transition.run poolStep t bs = some u) : Leaked c t u := by
  have hexcl := (poolInv_run hpool hr).exclusive
  obtain ⟨hfreed, hm⟩ := poolStep_cases hs
  refine Transition.run_invariant (fun _ _ _ hi hstep => leaked_step hi hstep) ?_ hu
  obtain ⟨pool', ret, rfl⟩ := hbad.returns hm
  refine ⟨hexcl _ hbad.holds, fun v hv => ?_, rfl, rfl, rfl, hfreed, fun i => Iff.rfl⟩
  by_cases hvc : v = .caller c
  · rw [hvc, holds_setCaller_self] at hv
    cases hv
  · exact hvc (hexcl.unique ((holds_setCaller hvc).mp hv) hbad.holds)

/-- The first caller destroys the pool, the worker ends, and a second `threadpool_destroy` has the
lock. -/
def destroyTwice : List (PoolAction 1 Bool Nat) :=
  [.callDestroy false false, .destroy false true, .destroy false true, .destroy false true,
   .worker 0, .worker 0, .worker 0, .callDestroy true false, .destroy true true]

/-- The first caller joins the worker and frees the queue. -/
def joinAndFree : List (PoolAction 1 Bool Nat) :=
  [.destroy false true, .destroy false true, .destroy false true]

theorem destroy_keeps_lock_destroyTwice :
    ∃ s t u : PoolSystem 1 Bool Nat,
      Transition.run poolStep (.start onePool) destroyTwice = some s ∧
      poolStep s (.destroy true true) = some t ∧ Transition.run poolStep t joinAndFree = some u ∧
      u.callers false = .freeLock ∧ u.queueFreed = true ∧ Leaked true t u := by
  obtain ⟨s, t, u, hr, hs, hu, hat, hshut, hfree, hfreed⟩ : ∃ s t u : PoolSystem 1 Bool Nat,
      Transition.run poolStep (.start onePool) destroyTwice = some s ∧
      poolStep s (.destroy true true) = some t ∧ Transition.run poolStep t joinAndFree = some u ∧
      s.callers true = .destroyLocked false ∧ s.pool.shutdown = some .immediateShutdown ∧
      u.callers false = .freeLock ∧ u.queueFreed = true :=
    ⟨_, _, _, rfl, rfl, rfl, rfl, rfl, rfl, rfl⟩
  have hbad : Breaks s true true := .inl ⟨false, hat, .inl (by simp [hshut])⟩
  exact ⟨s, t, u, hr, hs, hu, hfree, hfreed, destroy_keeps_lock launched_onePool hr hbad hs hu⟩

end Netepoll
