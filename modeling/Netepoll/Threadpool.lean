import Netepoll.Lib.Ring
import Netepoll.Lib.Tally
import Netepoll.Lib.Transition
import Mathlib.Data.Fintype.Card

/-! threadpool.c: the pool, what a thread does with it while it holds the lock, and the worker
threads and the callers of the pool as one step function. Every choice of the scheduler and
every result of a pthread call is part of the label. What a thread does between taking and
giving back the lock is one step: no other thread looks at the pool in between. -/

namespace Netepoll

universe u v

def MAX_THREADS : Nat := 64

def MAX_QUEUE : Nat := 65536

/-! ## The error codes of threadpool.h -/

def threadpoolInvalid : Int := -1

def threadpoolLockFailure : Int := -2

def threadpoolQueueFull : Int := -3

/-- `threadpool_shutdown` -/
def threadpoolShutdown : Int := -4

def threadpoolThreadFailure : Int := -5

/-- `threadpool_shutdown_t`; a pool that is not shutting down has the flag 0. -/
inductive ShutdownKind where
  | immediateShutdown
  | gracefulShutdown
  deriving DecidableEq, Repr

/-- `struct threadpool_t`. A task of type `α` is a function pointer with its argument. -/
structure ThreadpoolT (α : Type u) where
  queue : List α
  threadCount : Nat
  queueSize : Nat
  head : Nat
  tail : Nat
  count : Nat
  shutdown : Option ShutdownKind
  started : Int

variable {α : Type u}

/-- `a % n`; a division by zero has no result. -/
def remainder (a n : Nat) : Option Nat := if n = 0 then none else some (a % n)

/-! ## threadpool_create -/

/-- What `malloc` answers for the three blocks, what the block for the queue holds then, and
what the `init` calls and `pthread_create` for thread `i` answer. -/
structure CreateOutcome (α : Type u) where
  pool : Bool
  threads : Bool
  queue : Bool
  contents : Nat → α
  mutexInit : Bool
  condInit : Bool
  created : Nat → Bool

/-- A block that `threadpool_create` allocates. -/
inductive PoolBlock where
  | pool
  | threads
  | queue
  deriving DecidableEq

/-- How `threadpool_create` ends: with a null pointer and the blocks that nothing points to
any more, with a pool, or with `threadpool_destroy(pool, 0)` and a null pointer; or with the use
of a lock or condition variable that has not been initialized, whose behaviour is undefined. -/
inductive Created (α : Type u) where
  | undefined
  | null (lost : List PoolBlock)
  | pool (pool : ThreadpoolT α)
  | destroy (pool : ThreadpoolT α)

/-- The loop over `pthread_create` for `k` more values from `i` on, and whether it came to its
end. -/
def createThreads (created : Nat → Bool) : Nat → Nat → ThreadpoolT α → ThreadpoolT α × Bool
  | 0, _, pool => (pool, true)
  | k + 1, i, pool =>
    if created i = true then
      createThreads created k (i + 1)
        { pool with threadCount := pool.threadCount + 1, started := pool.started + 1 }
    else (pool, false)

/-- `threadpool_free` of a pool whose threads were never started. Only together with
`pool->threads` it frees the queue, and locks and destroys what should have been initialized. -/
def threadpoolFree (o : CreateOutcome α) : Created α :=
  if o.threads = true then
    if o.mutexInit = false ∨ o.condInit = false then .undefined else .null []
  else .null (if o.queue = true then [.queue] else [])

/-- The pool behind its initialization. -/
def initPool (queueSize : Nat) (o : CreateOutcome α) : ThreadpoolT α where
  queue := (List.range queueSize).map o.contents
  threadCount := 0
  queueSize := queueSize
  head := 0
  tail := 0
  count := 0
  shutdown := none
  started := 0

def threadpoolCreate (threadCount queueSize : Int) (o : CreateOutcome α) : Created α :=
  if threadCount ≤ 0 ∨ (MAX_THREADS : Int) < threadCount ∨ queueSize ≤ 0 ∨
      (MAX_QUEUE : Int) < queueSize then .null []
  else if o.pool = false then .null []
  else if o.mutexInit = false ∨ o.condInit = false ∨ o.threads = false ∨ o.queue = false then
    threadpoolFree o
  else
    let r := createThreads o.created threadCount.toNat 0 (initPool queueSize.toNat o)
    if r.2 = true then .pool r.1 else .destroy r.1

/-! ## With the lock held -/

/-- Out of the `do` block of `threadpool_add`: refused with a code, or stored. -/
inductive AddNext (α : Type u) where
  | refused (err : Int)
  | queued (pool : ThreadpoolT α)

def threadpoolAddLocked (pool : ThreadpoolT α) (task : α) : Option (AddNext α) :=
  (remainder (pool.tail + 1) pool.queueSize).bind fun next =>
    if pool.count = pool.queueSize then some (.refused threadpoolQueueFull)
    else if pool.shutdown.isSome then some (.refused threadpoolShutdown)
    -- `pool->queue[pool->tail]` outside the array
    else if pool.queue.length ≤ pool.tail then none
    else
      some (.queued { pool with
        queue := pool.queue.set pool.tail task
        tail := next
        count := pool.count + 1 })

/-- The pool with its shutdown flag set; `none` when it is shutting down already. -/
def threadpoolDestroyLocked (pool : ThreadpoolT α) (graceful : Bool) : Option (ThreadpoolT α) :=
  if pool.shutdown.isSome then none
  else
    some { pool with
      shutdown := some (if graceful = true then .gracefulShutdown else .immediateShutdown) }

/-- What `threadpool_thread` does at its `while`: waits, leaves, or takes a task. -/
inductive ThreadNext (α : Type u) where
  | wait
  | leave (pool : ThreadpoolT α)
  | grab (pool : ThreadpoolT α) (task : α)

def threadpoolThreadLocked (pool : ThreadpoolT α) : Option (ThreadNext α) :=
  if pool.count = 0 ∧ pool.shutdown = none then some .wait
  else if pool.shutdown = some .immediateShutdown ∨
      pool.shutdown = some .gracefulShutdown ∧ pool.count = 0 then
    some (.leave { pool with started := pool.started - 1 })
  else
    pool.queue[pool.head]?.bind fun task =>
      (remainder (pool.head + 1) pool.queueSize).bind fun head =>
        some (.grab { pool with head := head, count := pool.count - 1 } task)

/-! ## The threads -/

/-- Where a worker stands in `threadpool_thread`. -/
inductive WorkerPc (α : Type u) where
  /-- at the `pthread_mutex_lock` of the loop -/
  | lock
  /-- holds the lock, at the `while` -/
  | check
  /-- in `pthread_cond_wait` -/
  | waiting
  /-- in `pthread_cond_wait`, woken, without the lock -/
  | woken
  /-- holds the lock and a task -/
  | grabbed (task : α)
  /-- in `(*(task.function))(task.argument)` -/
  | working (task : α)
  /-- holds the lock behind `pool->started--` -/
  | leaving
  | exited
  deriving DecidableEq

/-- Where a thread stands that uses the pool. -/
inductive CallerPc (α : Type u) where
  /-- in no call; the result of the last one -/
  | returned (ret : Option Int)
  | addLock (task : α)
  | addLocked (task : α)
  | addUnlock (err : Int)
  | destroyLock (graceful : Bool)
  | destroyLocked (graceful : Bool)
  | destroyUnlock
  /-- at `i` in the loop over `pthread_join` -/
  | join (i : Nat) (err : Int)
  /-- at `threadpool_free` -/
  | free
  /-- at the `pthread_mutex_lock` of `threadpool_free`, behind `free(pool->queue)` -/
  | freeLock
  deriving DecidableEq

def WorkerPc.holds : WorkerPc α → Bool
  | .check | .grabbed _ | .leaving => true
  | _ => false

def CallerPc.holds : CallerPc α → Bool
  | .addLocked _ | .addUnlock _ | .destroyLocked _ | .destroyUnlock => true
  | _ => false

def WorkerPc.isWaiting : WorkerPc α → Bool
  | .waiting => true
  | _ => false

def WorkerPc.isExited : WorkerPc α → Bool
  | .exited => true
  | _ => false

/-- A thread: a worker of a pool of `n`, or one of the callers `κ`. -/
inductive Tid (n : Nat) (κ : Type v) where
  | worker (i : Fin n)
  | caller (c : κ)
  deriving DecidableEq

/-- The pool with its threads. `queueFreed` and `freed` say that `threadpool_free` has freed the
queue and the pool. The last three fields are history: the tasks stored in the queue, taken out
of it and executed, oldest first. -/
structure PoolSystem (n : Nat) (κ : Type v) (α : Type u) where
  pool : ThreadpoolT α
  queueFreed : Bool
  freed : Bool
  lock : Option (Tid n κ)
  workers : Fin n → WorkerPc α
  callers : κ → CallerPc α
  added : List α
  taken : List α
  finished : List α

variable {n : Nat} {κ : Type v}

def PoolSystem.setWorker (s : PoolSystem n κ α) (i : Fin n) (pc : WorkerPc α) :
    PoolSystem n κ α :=
  { s with workers := Function.update s.workers i pc }

def PoolSystem.setCaller [DecidableEq κ] (s : PoolSystem n κ α) (c : κ) (pc : CallerPc α) :
    PoolSystem n κ α :=
  { s with callers := Function.update s.callers c pc }

/-- A pool whose workers have just been started, and which nobody has called. -/
def PoolSystem.start (pool : ThreadpoolT α) : PoolSystem n κ α where
  pool := pool
  queueFreed := false
  freed := false
  lock := none
  workers := fun _ => .lock
  callers := fun _ => .returned none
  added := []
  taken := []
  finished := []

/-- The next step of worker `i`. Outside the array and in a queue that has been freed there is
none. -/
def threadpoolThread (s : PoolSystem n κ α) (i : Fin n) : Option (PoolSystem n κ α) :=
  match s.workers i with
  | .lock | .woken =>
    if s.lock.isNone = true then some ({ s with lock := some (.worker i) }.setWorker i .check)
    else none
  | .check =>
    match threadpoolThreadLocked s.pool with
    | none => none
    | some .wait => some ({ s with lock := none }.setWorker i .waiting)
    | some (.leave pool) => some ({ s with pool := pool }.setWorker i .leaving)
    | some (.grab pool task) =>
      if s.queueFreed = true then none
      else some ({ s with pool := pool, taken := s.taken ++ [task] }.setWorker i (.grabbed task))
  | .waiting => none
  | .grabbed task => some ({ s with lock := none }.setWorker i (.working task))
  | .working task => some ({ s with finished := s.finished ++ [task] }.setWorker i .lock)
  | .leaving => some ({ s with lock := none }.setWorker i .exited)
  | .exited => none

/-- `pthread_cond_signal`: one of the waiting workers wakes up, if there is one. -/
def signal (workers : Fin n → WorkerPc α) (wake : Option (Fin n)) :
    Option (Fin n → WorkerPc α) :=
  match wake with
  | some i =>
    if (workers i).isWaiting = true then some (Function.update workers i .woken) else none
  | none => if ∀ i, (workers i).isWaiting = false then some workers else none

/-- `pthread_cond_broadcast` -/
def broadcast (workers : Fin n → WorkerPc α) : Fin n → WorkerPc α :=
  fun i => if (workers i).isWaiting = true then .woken else workers i

section Callers

variable [DecidableEq κ]

/-- The next step of caller `c` inside `threadpool_add`. `ok` is the result of its
`pthread_cond_signal` or `pthread_mutex_unlock`. -/
def threadpoolAdd (s : PoolSystem n κ α) (c : κ) (ok : Bool) (wake : Option (Fin n)) :
    Option (PoolSystem n κ α) :=
  match s.callers c with
  | .addLock task =>
    if s.lock.isNone = true then
      some ({ s with lock := some (.caller c) }.setCaller c (.addLocked task))
    else none
  | .addLocked task =>
    match threadpoolAddLocked s.pool task with
    | none => none
    | some (.refused err) => some (s.setCaller c (.addUnlock err))
    | some (.queued pool) =>
      if s.queueFreed = true then none
      else if ok = true then
        (signal s.workers wake).map fun workers =>
          { s with pool := pool, workers := workers, added := s.added ++ [task] }.setCaller c
            (.addUnlock 0)
      else
        some ({ s with pool := pool, added := s.added ++ [task] }.setCaller c
          (.addUnlock threadpoolLockFailure))
  | .addUnlock err =>
    if ok = true then some ({ s with lock := none }.setCaller c (.returned (some err)))
    else some (s.setCaller c (.returned (some threadpoolLockFailure)))
  | _ => none

/-- `pthread_join(pool->threads[i], NULL)` returns when the thread has ended, or fails. -/
def joined (s : PoolSystem n κ α) (i : Nat) (ok : Bool) : Bool :=
  if ok = true then
    if hi : i < n then (s.workers ⟨i, hi⟩).isExited else false
  else true

/-- The next step of caller `c` inside `threadpool_destroy`. Out of its `do` block by a `break`
it returns without unlocking. -/
def threadpoolDestroy (s : PoolSystem n κ α) (c : κ) (ok : Bool) : Option (PoolSystem n κ α) :=
  match s.callers c with
  | .destroyLock graceful =>
    if s.lock.isNone = true then
      some ({ s with lock := some (.caller c) }.setCaller c (.destroyLocked graceful))
    else none
  | .destroyLocked graceful =>
    match threadpoolDestroyLocked s.pool graceful with
    | none => some (s.setCaller c (.returned (some threadpoolShutdown)))
    | some pool =>
      if ok = true then
        some ({ s with pool := pool, workers := broadcast s.workers }.setCaller c .destroyUnlock)
      else some ({ s with pool := pool }.setCaller c (.returned (some threadpoolLockFailure)))
  | .destroyUnlock =>
    if ok = true then some ({ s with lock := none }.setCaller c (.join 0 0))
    else some (s.setCaller c (.returned (some threadpoolLockFailure)))
  | .join i err =>
    if i < s.pool.threadCount then
      if joined s i ok = true then
        some (s.setCaller c (.join (i + 1) (if ok = true then err else threadpoolThreadFailure)))
      else none
    else if err = 0 then some (s.setCaller c .free)
    else some (s.setCaller c (.returned (some err)))
  | .free =>
    -- `threadpool_free` gives up, and its result is not looked at
    if 0 < s.pool.started then some (s.setCaller c (.returned (some 0)))
    else some ({ s with queueFreed := true }.setCaller c .freeLock)
  | .freeLock =>
    if s.lock.isNone = true then
      some ({ s with freed := true }.setCaller c (.returned (some 0)))
    else none
  | _ => none

/-- The call of a thread that is in none. -/
def startCall (s : PoolSystem n κ α) (c : κ) (pc : CallerPc α) : Option (PoolSystem n κ α) :=
  match s.callers c with
  | .returned _ => some (s.setCaller c pc)
  | _ => none

/-- `pthread_mutex_lock` at the start of a call returns an error. -/
def lockFails (s : PoolSystem n κ α) (c : κ) : Option (PoolSystem n κ α) :=
  match s.callers c with
  | .addLock _ | .destroyLock _ =>
    some (s.setCaller c (.returned (some threadpoolLockFailure)))
  | _ => none

inductive PoolAction (n : Nat) (κ : Type v) (α : Type u) where
  | worker (i : Fin n)
  /-- `pthread_cond_wait` returns without a signal -/
  | spurious (i : Fin n)
  | callAdd (c : κ) (task : α)
  | callDestroy (c : κ) (graceful : Bool)
  /-- a call with a null pointer for the pool or the function -/
  | callInvalid (c : κ)
  | lockFails (c : κ)
  /-- `wake` is the worker that `pthread_cond_signal` wakes -/
  | add (c : κ) (ok : Bool) (wake : Option (Fin n))
  /-- `ok` is the result of `pthread_cond_broadcast`, `pthread_mutex_unlock` or `pthread_join` -/
  | destroy (c : κ) (ok : Bool)

/-- Nothing happens to a pool that has been freed. -/
def poolStep (s : PoolSystem n κ α) (a : PoolAction n κ α) : Option (PoolSystem n κ α) :=
  if s.freed = true then none
  else
    match a with
    | .worker i => threadpoolThread s i
    | .spurious i => if (s.workers i).isWaiting = true then some (s.setWorker i .woken) else none
    | .callAdd c task => startCall s c (.addLock task)
    | .callDestroy c graceful => startCall s c (.destroyLock graceful)
    | .callInvalid c => startCall s c (.returned (some threadpoolInvalid))
    | .lockFails c => lockFails s c
    | .add c ok wake => threadpoolAdd s c ok wake
    | .destroy c ok => threadpoolDestroy s c ok

end Callers

end Netepoll
