import Netepoll.Threadpool

/-! What one step of the pool with its threads can do, each way with its guard. The
invariants of the pool are proved from this and never unfold the step function. -/

namespace Netepoll

universe u v

variable {α : Type u} {n : Nat} {κ : Type v}

/-- A worker that finds this leaves the loop. -/
def Leaves (pool : ThreadpoolT α) : Prop :=
  pool.shutdown = some .immediateShutdown ∨
    pool.shutdown = some .gracefulShutdown ∧ pool.count = 0

theorem Leaves.shutdown_ne {pool : ThreadpoolT α} (h : Leaves pool) : pool.shutdown ≠ none := by
  rcases h with h | ⟨h, -⟩ <;> simp [h]

/-- The pool behind `pool->count += 1`. -/
def ThreadpoolT.stored (pool : ThreadpoolT α) (task : α) : ThreadpoolT α :=
  { pool with
    queue := pool.queue.set pool.tail task
    tail := (pool.tail + 1) % pool.queueSize
    count := pool.count + 1 }

/-- The pool behind `pool->count -= 1`. -/
def ThreadpoolT.grabbed (pool : ThreadpoolT α) : ThreadpoolT α :=
  { pool with head := (pool.head + 1) % pool.queueSize, count := pool.count - 1 }

def ThreadpoolT.left (pool : ThreadpoolT α) : ThreadpoolT α :=
  { pool with started := pool.started - 1 }

def shutdownKind (graceful : Bool) : ShutdownKind :=
  if graceful = true then .gracefulShutdown else .immediateShutdown

def ThreadpoolT.shut (pool : ThreadpoolT α) (graceful : Bool) : ThreadpoolT α :=
  { pool with shutdown := some (shutdownKind graceful) }

/-! ## With the lock held -/

theorem remainder_eq_some {a m r : Nat} : remainder a m = some r ↔ m ≠ 0 ∧ r = a % m := by
  unfold remainder
  split
  · simp [*]
  · simp [*, eq_comm]

theorem addLocked_refused {pool : ThreadpoolT α} {task : α} {err : Int}
    (h : threadpoolAddLocked pool task = some (.refused err)) :
    pool.count = pool.queueSize ∧ err = threadpoolQueueFull ∨
      pool.shutdown ≠ none ∧ err = threadpoolShutdown := by
  obtain ⟨next, -, hs⟩ := Option.bind_eq_some_iff.mp h
  split at hs
  · rename_i hfull
    cases hs
    exact .inl ⟨hfull, rfl⟩
  · split at hs
    · rename_i hshut
      cases hs
      exact .inr ⟨Option.isSome_iff_ne_none.mp hshut, rfl⟩
    · split at hs <;> cases hs

theorem addLocked_queued {pool pool' : ThreadpoolT α} {task : α}
    (h : threadpoolAddLocked pool task = some (.queued pool')) :
    pool.count ≠ pool.queueSize ∧ pool.shutdown = none ∧ pool' = pool.stored task := by
  obtain ⟨next, hnext, hs⟩ := Option.bind_eq_some_iff.mp h
  obtain ⟨-, rfl⟩ := remainder_eq_some.mp hnext
  split at hs
  · cases hs
  · rename_i hroom
    split at hs
    · cases hs
    · rename_i hshut
      split at hs
      · cases hs
      · cases hs
        exact ⟨hroom, by simpa using hshut, rfl⟩

theorem threadLocked_wait {pool : ThreadpoolT α} (h : threadpoolThreadLocked pool = some .wait) :
    pool.count = 0 ∧ pool.shutdown = none := by
  unfold threadpoolThreadLocked at h
  split at h
  · assumption
  · split at h
    · cases h
    · obtain ⟨task, -, hs⟩ := Option.bind_eq_some_iff.mp h
      obtain ⟨head, -, hs⟩ := Option.bind_eq_some_iff.mp hs
      cases hs

theorem threadLocked_leave {pool pool' : ThreadpoolT α}
    (h : threadpoolThreadLocked pool = some (.leave pool')) : Leaves pool ∧ pool' = pool.left := by
  unfold threadpoolThreadLocked at h
  split at h
  · cases h
  · split at h
    · rename_i hleave
      cases h
      exact ⟨hleave, rfl⟩
    · obtain ⟨task, -, hs⟩ := Option.bind_eq_some_iff.mp h
      obtain ⟨head, -, hs⟩ := Option.bind_eq_some_iff.mp hs
      cases hs

theorem threadLocked_grab {pool pool' : ThreadpoolT α} {task : α}
    (h : threadpoolThreadLocked pool = some (.grab pool' task)) :
    ¬(pool.count = 0 ∧ pool.shutdown = none) ∧ ¬Leaves pool ∧
      pool.queue[pool.head]? = some task ∧ pool' = pool.grabbed := by
  unfold threadpoolThreadLocked at h
  split at h
  · cases h
  · rename_i hwork
    split at h
    · cases h
    · rename_i hstay
      obtain ⟨task', htask, hs⟩ := Option.bind_eq_some_iff.mp h
      obtain ⟨head, hhead, hs⟩ := Option.bind_eq_some_iff.mp hs
      obtain ⟨-, rfl⟩ := remainder_eq_some.mp hhead
      cases hs
      exact ⟨hwork, hstay, htask, rfl⟩

/-! ## One step -/

/-- What `pthread_cond_signal` can do to the workers. -/
inductive Signalled (workers : Fin n → WorkerPc α) : (Fin n → WorkerPc α) → Prop where
  | woke (i : Fin n) (hi : workers i = .waiting) :
      Signalled workers (Function.update workers i .woken)
  | nobody (h : ∀ i, workers i ≠ .waiting) : Signalled workers workers

theorem isWaiting_iff {pc : WorkerPc α} : pc.isWaiting = true ↔ pc = .waiting := by
  cases pc <;> simp [WorkerPc.isWaiting]

theorem isExited_iff {pc : WorkerPc α} : pc.isExited = true ↔ pc = .exited := by
  cases pc <;> simp [WorkerPc.isExited]

theorem signal_cases {workers workers' : Fin n → WorkerPc α} {wake : Option (Fin n)}
    (h : signal workers wake = some workers') : Signalled workers workers' := by
  cases wake with
  | some i =>
    simp only [signal] at h
    split at h
    · rename_i hi
      cases h
      exact .woke i (isWaiting_iff.mp hi)
    · cases h
  | none =>
    simp only [signal] at h
    split at h
    · rename_i hnone
      cases h
      refine .nobody fun i hi => ?_
      have := hnone i
      rw [hi] at this
      cases this
    · cases h

/-- A caller in front of the `pthread_mutex_lock` of its call. -/
def CallerPc.atLock : CallerPc α → Bool
  | .addLock _ | .destroyLock _ => true
  | _ => false

theorem joined_cases {s : PoolSystem n κ α} {j : Nat} {ok : Bool} (h : joined s j ok = true)
    (hok : ok = true) : ∃ hj : j < n, s.workers ⟨j, hj⟩ = .exited := by
  unfold joined at h
  rw [if_pos hok] at h
  split at h
  · rename_i hj
    exact ⟨hj, isExited_iff.mp h⟩
  · cases h

variable [DecidableEq κ]

inductive PoolMoves (s : PoolSystem n κ α) : PoolAction n κ α → PoolSystem n κ α → Prop where
  | acquires (i : Fin n) (hpc : s.workers i = .lock ∨ s.workers i = .woken)
      (hlock : s.lock = none) :
      PoolMoves s (.worker i) ({ s with lock := some (.worker i) }.setWorker i .check)
  | waits (i : Fin n) (hpc : s.workers i = .check) (hcount : s.pool.count = 0)
      (hshut : s.pool.shutdown = none) :
      PoolMoves s (.worker i) ({ s with lock := none }.setWorker i .waiting)
  | leaves (i : Fin n) (hpc : s.workers i = .check) (hleave : Leaves s.pool) :
      PoolMoves s (.worker i) ({ s with pool := s.pool.left }.setWorker i .leaving)
  | grabs (i : Fin n) (task : α) (hpc : s.workers i = .check)
      (hwork : ¬(s.pool.count = 0 ∧ s.pool.shutdown = none)) (hstay : ¬Leaves s.pool)
      (htask : s.pool.queue[s.pool.head]? = some task) (hqueue : s.queueFreed = false) :
      PoolMoves s (.worker i)
        ({ s with pool := s.pool.grabbed, taken := s.taken ++ [task] }.setWorker i
          (.grabbed task))
  | unlocks (i : Fin n) (task : α) (hpc : s.workers i = .grabbed task) :
      PoolMoves s (.worker i) ({ s with lock := none }.setWorker i (.working task))
  | finishes (i : Fin n) (task : α) (hpc : s.workers i = .working task) :
      PoolMoves s (.worker i) ({ s with finished := s.finished ++ [task] }.setWorker i .lock)
  | exits (i : Fin n) (hpc : s.workers i = .leaving) :
      PoolMoves s (.worker i) ({ s with lock := none }.setWorker i .exited)
  | spurious (i : Fin n) (hpc : s.workers i = .waiting) :
      PoolMoves s (.spurious i) (s.setWorker i .woken)
  | callsAdd (c : κ) (task : α) (ret : Option Int) (hpc : s.callers c = .returned ret) :
      PoolMoves s (.callAdd c task) (s.setCaller c (.addLock task))
  | callsDestroy (c : κ) (graceful : Bool) (ret : Option Int)
      (hpc : s.callers c = .returned ret) :
      PoolMoves s (.callDestroy c graceful) (s.setCaller c (.destroyLock graceful))
  | callsInvalid (c : κ) (ret : Option Int) (hpc : s.callers c = .returned ret) :
      PoolMoves s (.callInvalid c) (s.setCaller c (.returned (some threadpoolInvalid)))
  | lockFailed (c : κ) (hpc : (s.callers c).atLock = true) :
      PoolMoves s (.lockFails c) (s.setCaller c (.returned (some threadpoolLockFailure)))
  | addAcquires (c : κ) (ok : Bool) (wake : Option (Fin n)) (task : α)
      (hpc : s.callers c = .addLock task) (hlock : s.lock = none) :
      PoolMoves s (.add c ok wake)
        ({ s with lock := some (.caller c) }.setCaller c (.addLocked task))
  | addRefused (c : κ) (ok : Bool) (wake : Option (Fin n)) (task : α) (err : Int)
      (hpc : s.callers c = .addLocked task)
      (herr : s.pool.count = s.pool.queueSize ∧ err = threadpoolQueueFull ∨
        s.pool.shutdown ≠ none ∧ err = threadpoolShutdown) :
      PoolMoves s (.add c ok wake) (s.setCaller c (.addUnlock err))
  | addStores (c : κ) (wake : Option (Fin n)) (task : α) (workers : Fin n → WorkerPc α)
      (hpc : s.callers c = .addLocked task) (hroom : s.pool.count ≠ s.pool.queueSize)
      (hshut : s.pool.shutdown = none) (hsignal : Signalled s.workers workers)
      (hqueue : s.queueFreed = false) :
      PoolMoves s (.add c true wake)
        ({ s with
          pool := s.pool.stored task, workers := workers, added := s.added ++ [task]
          }.setCaller c (.addUnlock 0))
  | signalFails (c : κ) (wake : Option (Fin n)) (task : α)
      (hpc : s.callers c = .addLocked task) (hroom : s.pool.count ≠ s.pool.queueSize)
      (hshut : s.pool.shutdown = none) (hqueue : s.queueFreed = false) :
      PoolMoves s (.add c false wake)
        ({ s with pool := s.pool.stored task, added := s.added ++ [task] }.setCaller c
          (.addUnlock threadpoolLockFailure))
  | addReturns (c : κ) (wake : Option (Fin n)) (err : Int)
      (hpc : s.callers c = .addUnlock err) :
      PoolMoves s (.add c true wake)
        ({ s with lock := none }.setCaller c (.returned (some err)))
  /-- the return with the lock held -/
  | addUnlockFails (c : κ) (wake : Option (Fin n)) (err : Int)
      (hpc : s.callers c = .addUnlock err) :
      PoolMoves s (.add c false wake) (s.setCaller c (.returned (some threadpoolLockFailure)))
  | destroyAcquires (c : κ) (ok graceful : Bool) (hpc : s.callers c = .destroyLock graceful)
      (hlock : s.lock = none) :
      PoolMoves s (.destroy c ok)
        ({ s with lock := some (.caller c) }.setCaller c (.destroyLocked graceful))
  /-- the return with the lock held -/
  | destroyRefused (c : κ) (ok graceful : Bool) (hpc : s.callers c = .destroyLocked graceful)
      (hshut : s.pool.shutdown ≠ none) :
      PoolMoves s (.destroy c ok) (s.setCaller c (.returned (some threadpoolShutdown)))
  | destroyShuts (c : κ) (graceful : Bool) (hpc : s.callers c = .destroyLocked graceful)
      (hshut : s.pool.shutdown = none) :
      PoolMoves s (.destroy c true)
        ({ s with pool := s.pool.shut graceful, workers := broadcast s.workers }.setCaller c
          .destroyUnlock)
  /-- the return with the lock held -/
  | broadcastFails (c : κ) (graceful : Bool) (hpc : s.callers c = .destroyLocked graceful)
      (hshut : s.pool.shutdown = none) :
      PoolMoves s (.destroy c false)
        ({ s with pool := s.pool.shut graceful }.setCaller c
          (.returned (some threadpoolLockFailure)))
  | destroyUnlocks (c : κ) (hpc : s.callers c = .destroyUnlock) :
      PoolMoves s (.destroy c true) ({ s with lock := none }.setCaller c (.join 0 0))
  /-- the return with the lock held -/
  | destroyUnlockFails (c : κ) (hpc : s.callers c = .destroyUnlock) :
      PoolMoves s (.destroy c false) (s.setCaller c (.returned (some threadpoolLockFailure)))
  | joins (c : κ) (ok : Bool) (j : Nat) (err : Int) (hpc : s.callers c = .join j err)
      (hlt : j < s.pool.threadCount)
      (hexit : ok = true → ∃ hj : j < n, s.workers ⟨j, hj⟩ = .exited) :
      PoolMoves s (.destroy c ok)
        (s.setCaller c (.join (j + 1) (if ok = true then err else threadpoolThreadFailure)))
  | joinsDone (c : κ) (ok : Bool) (j : Nat) (hpc : s.callers c = .join j 0)
      (hge : s.pool.threadCount ≤ j) :
      PoolMoves s (.destroy c ok) (s.setCaller c .free)
  | joinsFailed (c : κ) (ok : Bool) (j : Nat) (err : Int) (hpc : s.callers c = .join j err)
      (hge : s.pool.threadCount ≤ j) (herr : err ≠ 0) :
      PoolMoves s (.destroy c ok) (s.setCaller c (.returned (some err)))
  | freeGivesUp (c : κ) (ok : Bool) (hpc : s.callers c = .free) (hstarted : 0 < s.pool.started) :
      PoolMoves s (.destroy c ok) (s.setCaller c (.returned (some 0)))
  | freesQueue (c : κ) (ok : Bool) (hpc : s.callers c = .free) (hstarted : s.pool.started ≤ 0) :
      PoolMoves s (.destroy c ok) ({ s with queueFreed := true }.setCaller c .freeLock)
  | frees (c : κ) (ok : Bool) (hpc : s.callers c = .freeLock) (hlock : s.lock = none) :
      PoolMoves s (.destroy c ok) ({ s with freed := true }.setCaller c (.returned (some 0)))

theorem threadpoolThread_cases {s t : PoolSystem n κ α} {i : Fin n}
    (h : threadpoolThread s i = some t) : PoolMoves s (.worker i) t := by
  unfold threadpoolThread at h
  split at h
  · rename_i hpc
    split at h
    · rename_i hlock
      cases h
      exact .acquires i (.inl hpc) (Option.isNone_iff_eq_none.mp hlock)
    · cases h
  · rename_i hpc
    split at h
    · rename_i hlock
      cases h
      exact .acquires i (.inr hpc) (Option.isNone_iff_eq_none.mp hlock)
    · cases h
  · rename_i hpc
    split at h
    · cases h
    · rename_i hwait
      cases h
      obtain ⟨hcount, hshut⟩ := threadLocked_wait hwait
      exact .waits i hpc hcount hshut
    · rename_i hleave
      cases h
      obtain ⟨hwhy, rfl⟩ := threadLocked_leave hleave
      exact .leaves i hpc hwhy
    · rename_i hgrab
      obtain ⟨hwork, hstay, htask, rfl⟩ := threadLocked_grab hgrab
      split at h
      · cases h
      · rename_i hqueue
        cases h
        exact .grabs i _ hpc hwork hstay htask (Bool.eq_false_of_not_eq_true hqueue)
  · cases h
  · rename_i task hpc
    cases h
    exact .unlocks i task hpc
  · rename_i task hpc
    cases h
    exact .finishes i task hpc
  · rename_i hpc
    cases h
    exact .exits i hpc
  · cases h

theorem threadpoolAdd_cases {s t : PoolSystem n κ α} {c : κ} {ok : Bool}
    {wake : Option (Fin n)} (h : threadpoolAdd s c ok wake = some t) :
    PoolMoves s (.add c ok wake) t := by
  unfold threadpoolAdd at h
  split at h
  · rename_i task hpc
    split at h
    · rename_i hlock
      cases h
      exact .addAcquires c ok wake task hpc (Option.isNone_iff_eq_none.mp hlock)
    · cases h
  · rename_i task hpc
    split at h
    · cases h
    · rename_i err hadd
      cases h
      exact .addRefused c ok wake task err hpc (addLocked_refused hadd)
    · rename_i pool hadd
      obtain ⟨hroom, hshut, rfl⟩ := addLocked_queued hadd
      split at h
      · cases h
      · rename_i hfreed
        have hqueue := Bool.eq_false_of_not_eq_true hfreed
        split at h
        · rename_i hok
          subst hok
          obtain ⟨workers, hsignal, rfl⟩ := Option.map_eq_some_iff.mp h
          exact .addStores c wake task workers hpc hroom hshut (signal_cases hsignal) hqueue
        · rename_i hok
          cases Bool.eq_false_of_not_eq_true hok
          cases h
          exact .signalFails c wake task hpc hroom hshut hqueue
  · rename_i err hpc
    cases ok with
    | true =>
      cases h
      exact .addReturns c wake err hpc
    | false =>
      cases h
      exact .addUnlockFails c wake err hpc
  · cases h

theorem threadpoolDestroy_cases {s t : PoolSystem n κ α} {c : κ} {ok : Bool}
    (h : threadpoolDestroy s c ok = some t) : PoolMoves s (.destroy c ok) t := by
  unfold threadpoolDestroy at h
  split at h
  · rename_i graceful hpc
    split at h
    · rename_i hlock
      cases h
      exact .destroyAcquires c ok graceful hpc (Option.isNone_iff_eq_none.mp hlock)
    · cases h
  · rename_i graceful hpc
    cases hshut : s.pool.shutdown with
    | some kind =>
      simp only [threadpoolDestroyLocked, hshut, Option.isSome_some, if_true,
        Option.some.injEq] at h
      subst h
      exact .destroyRefused c ok graceful hpc (by simp [hshut])
    | none =>
      simp only [threadpoolDestroyLocked, hshut, Option.isSome_none, Bool.false_eq_true,
        if_false] at h
      split at h
      · rename_i hok
        subst hok
        cases h
        exact .destroyShuts c graceful hpc hshut
      · rename_i hok
        cases Bool.eq_false_of_not_eq_true hok
        cases h
        exact .broadcastFails c graceful hpc hshut
  · rename_i hpc
    cases ok with
    | true =>
      cases h
      exact .destroyUnlocks c hpc
    | false =>
      cases h
      exact .destroyUnlockFails c hpc
  · rename_i j err hpc
    split at h
    · rename_i hlt
      split at h
      · rename_i hjoined
        cases h
        exact .joins c ok j err hpc hlt (joined_cases hjoined)
      · cases h
    · rename_i hge
      split at h
      · rename_i herr
        subst herr
        cases h
        exact .joinsDone c ok j hpc (Nat.le_of_not_lt hge)
      · rename_i herr
        cases h
        exact .joinsFailed c ok j err hpc (Nat.le_of_not_lt hge) herr
  · rename_i hpc
    split at h
    · rename_i hstarted
      cases h
      exact .freeGivesUp c ok hpc hstarted
    · rename_i hstarted
      cases h
      exact .freesQueue c ok hpc (Int.not_lt.mp hstarted)
  · rename_i hpc
    split at h
    · rename_i hlock
      cases h
      exact .frees c ok hpc (Option.isNone_iff_eq_none.mp hlock)
    · cases h
  · cases h

theorem startCall_cases {s t : PoolSystem n κ α} {c : κ} {pc : CallerPc α}
    (h : startCall s c pc = some t) :
    (∃ ret, s.callers c = .returned ret) ∧ t = s.setCaller c pc := by
  unfold startCall at h
  split at h
  · rename_i ret hpc
    exact ⟨⟨ret, hpc⟩, (Option.some.inj h).symm⟩
  · cases h

theorem lockFails_cases {s t : PoolSystem n κ α} {c : κ} (h : lockFails s c = some t) :
    PoolMoves s (.lockFails c) t := by
  unfold lockFails at h
  split at h
  · rename_i task hpc
    cases h
    exact .lockFailed c (by rw [hpc]; rfl)
  · rename_i graceful hpc
    cases h
    exact .lockFailed c (by rw [hpc]; rfl)
  · cases h

/-- A step of a pool that is not freed is one of the moves. -/
theorem poolStep_cases {s t : PoolSystem n κ α} {a : PoolAction n κ α}
    (h : poolStep s a = some t) : s.freed = false ∧ PoolMoves s a t := by
  unfold poolStep at h
  split at h
  · cases h
  · rename_i hfreed
    refine ⟨Bool.eq_false_of_not_eq_true hfreed, ?_⟩
    cases a with
    | worker i => exact threadpoolThread_cases h
    | spurious i =>
      simp only at h
      split at h
      · rename_i hi
        cases h
        exact .spurious i (isWaiting_iff.mp hi)
      · cases h
    | callAdd c task =>
      obtain ⟨⟨ret, hpc⟩, rfl⟩ := startCall_cases h
      exact .callsAdd c task ret hpc
    | callDestroy c graceful =>
      obtain ⟨⟨ret, hpc⟩, rfl⟩ := startCall_cases h
      exact .callsDestroy c graceful ret hpc
    | callInvalid c =>
      obtain ⟨⟨ret, hpc⟩, rfl⟩ := startCall_cases h
      exact .callsInvalid c ret hpc
    | lockFails c => exact lockFails_cases h
    | add c ok wake => exact threadpoolAdd_cases h
    | destroy c ok => exact threadpoolDestroy_cases h

end Netepoll
