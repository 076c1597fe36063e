import Netepoll.PoolProgress
import Netepoll.Statements

/-! The server on its real thread pool: the event loop calls `threadpool_add`, 32 workers take
the slots from the queue of 256 and run `mytask` statement by statement. -/

namespace Netepoll

def THREAD : Nat := 32

def QUEUE : Nat := 256

/-- Where `main` stands. -/
inductive MainPc where
  /-- in the event loop or in a statement of `recvdata` -/
  | loop (pc : LoopPc)
  /-- in `threadpool_add(TaskPool, &mytask, (void*)ev, 0)` for slot `i` -/
  | adding (i : SlotIx)
  /-- behind the event loop, in `threadpool_destroy(TaskPool, 0)` -/
  | exiting
  deriving DecidableEq

/-- The next statement of `mytask`. -/
inductive TaskPc where
  | send
  | clearLen
  | clearHead
  deriving DecidableEq

/-- A task of the pool is the argument of `mytask`. The list of tasks in `server` is not used.
`stage` is the next statement of `mytask` for a worker that runs it. -/
structure PooledServer where
  server : Server
  pool : PoolSystem THREAD Unit SlotIx
  pc : MainPc
  stage : Fin THREAD → TaskPc

inductive PooledAction where
  | acceptconnect (o : AcceptOutcome)
  | recv (i : SlotIx) (r : RecvResult)
  /-- the next statement of `recvdata` -/
  | next
  /-- the next statement of `threadpool_add`; `wake` is the worker that the signal wakes -/
  | add (wake : Option (Fin THREAD))
  /-- `pthread_mutex_lock` fails -/
  | lockFails
  /-- `epoll_wait` fails -/
  | epollFails
  /-- the next statement of `threadpool_destroy` -/
  | destroy
  /-- the next statement of a worker or of its task -/
  | worker (i : Fin THREAD)
  | spurious (i : Fin THREAD)

/-- A step of the pool, and nothing else. -/
def PooledServer.poolStep (p : PooledServer) (a : PoolAction THREAD Unit SlotIx) :
    Option PooledServer :=
  (Netepoll.poolStep p.pool a).map fun pool => { p with pool := pool }

/-- The next statement of `recvdata` or of `main` around `threadpool_add`. -/
def mainStep (p : PooledServer) : Option PooledServer :=
  match p.pc with
  | .loop (.tested i .dataComplete) =>
    { p with pc := .adding i }.poolStep (.callAdd () i)
  | .loop pc =>
    (loopStatement p.server false pc).map fun x =>
      { p with server := x.server, pc := .loop x.pc }
  | .adding i =>
    match p.pool.callers () with
    | .returned (some err) =>
      if err < 0 then some { p with server := closeAndDel p.server i, pc := .loop .idle }
      else some { p with pc := .loop .idle }
    | _ => none
  | .exiting => none

/-- The next statement of worker `i`. A worker begins `mytask` at its `send`. -/
def workerStep (p : PooledServer) (i : Fin THREAD) : Option PooledServer :=
  match p.pool.workers i with
  | .working arg =>
    match p.stage i with
    | .send => some { p with stage := Function.update p.stage i .clearLen }
    | .clearLen =>
      some { p with
        server := p.server.setSlot arg (clearLen (p.server.epEvents arg))
        stage := Function.update p.stage i .clearHead }
    | .clearHead =>
      { p with server := p.server.setSlot arg (clearHead (p.server.epEvents arg)) }.poolStep
        (.worker i)
  | _ => { p with stage := Function.update p.stage i .send }.poolStep (.worker i)

def pooledStep (b : Boot) (p : PooledServer) : PooledAction → Option PooledServer
  | .acceptconnect o =>
    match p.pc with
    | .loop .idle => (acceptconnect p.server b.listenFd o).map fun s => { p with server := s }
    | _ => none
  | .recv i r =>
    match p.pc with
    | .loop .idle =>
      if (p.server.epEvents i).mStatus = 1 ∧
          (p.server.epEvents i).callBack = some .recvdata then
        (recvStatement p.server i r).map fun x => { p with server := x.server, pc := .loop x.pc }
      else none
    | _ => none
  | .next => mainStep p
  | .add wake => p.poolStep (.add () true wake)
  | .lockFails => p.poolStep (.lockFails ())
  | .epollFails =>
    match p.pc with
    | .loop .idle => { p with pc := .exiting }.poolStep (.callDestroy () false)
    | _ => none
  | .destroy => p.poolStep (.destroy () true)
  | .worker i => workerStep p i
  | .spurious i => p.poolStep (.spurious i)

/-- `main` in front of its loop, with `pool` the pool that `threadpool_create` has returned. -/
def PooledServer.start (b : Boot) (pool : ThreadpoolT SlotIx) : PooledServer where
  server := b.start
  pool := .start pool
  pc := .loop .idle
  stage := fun _ => .send

/-! ## One case for each way through a step -/

theorem poolStep_of_pooled {p q : PooledServer} {a : PoolAction THREAD Unit SlotIx}
    (h : p.poolStep a = some q) :
    ∃ pool, Netepoll.poolStep p.pool a = some pool ∧ q = { p with pool := pool } := by
  obtain ⟨pool, hpool, rfl⟩ := Option.map_eq_some_iff.mp h
  exact ⟨pool, hpool, rfl⟩

/-- The step of the pool that is passed on as it is. -/
def PooledAction.toPool : PooledAction → Option (PoolAction THREAD Unit SlotIx)
  | .add wake => some (.add () true wake)
  | .lockFails => some (.lockFails ())
  | .destroy => some (.destroy () true)
  | .spurious i => some (.spurious i)
  | _ => none

/-- No call of `main` fails in it but `pthread_mutex_lock`, and no worker makes it. -/
def PoolAction.passed : PoolAction THREAD Unit SlotIx → Bool
  | .add _ ok _ => ok
  | .destroy _ ok => ok
  | .lockFails _ | .spurious _ => true
  | _ => false

theorem passed_of_toPool {act : PooledAction} {a : PoolAction THREAD Unit SlotIx}
    (h : act.toPool = some a) : a.passed = true := by
  cases act <;> cases h <;> rfl

inductive PooledMoves (b : Boot) (p : PooledServer) : PooledAction → PooledServer → Prop where
  | accepts (o : AcceptOutcome) (s : Server) (hpc : p.pc = .loop .idle)
      (hs : acceptconnect p.server b.listenFd o = some s) :
      PooledMoves b p (.acceptconnect o) { p with server := s }
  | receives (i : SlotIx) (r : RecvResult) (x : Fine) (hpc : p.pc = .loop .idle)
      (hi : (p.server.epEvents i).mStatus = 1 ∧ (p.server.epEvents i).callBack = some .recvdata)
      (hs : recvStatement p.server i r = some x) :
      PooledMoves b p (.recv i r) { p with server := x.server, pc := .loop x.pc }
  | states (pc : LoopPc) (x : Fine) (hpc : p.pc = .loop pc)
      (hnot : ∀ i, pc ≠ .tested i .dataComplete)
      (hs : loopStatement p.server false pc = some x) :
      PooledMoves b p .next { p with server := x.server, pc := .loop x.pc }
  | asks (i : SlotIx) (pool : PoolSystem THREAD Unit SlotIx)
      (hpc : p.pc = .loop (.tested i .dataComplete))
      (hs : Netepoll.poolStep p.pool (.callAdd () i) = some pool) :
      PooledMoves b p .next { p with pool := pool, pc := .adding i }
  | refused (i : SlotIx) (err : Int) (hpc : p.pc = .adding i)
      (hret : p.pool.callers () = .returned (some err)) (herr : err < 0) :
      PooledMoves b p .next { p with server := closeAndDel p.server i, pc := .loop .idle }
  | told (i : SlotIx) (err : Int) (hpc : p.pc = .adding i)
      (hret : p.pool.callers () = .returned (some err)) (herr : ¬err < 0) :
      PooledMoves b p .next { p with pc := .loop .idle }
  | leaves (pool : PoolSystem THREAD Unit SlotIx) (hpc : p.pc = .loop .idle)
      (hs : Netepoll.poolStep p.pool (.callDestroy () false) = some pool) :
      PooledMoves b p .epollFails { p with pool := pool, pc := .exiting }
  | passes (act : PooledAction) (a : PoolAction THREAD Unit SlotIx)
      (pool : PoolSystem THREAD Unit SlotIx) (hact : act.toPool = some a)
      (hs : Netepoll.poolStep p.pool a = some pool) :
      PooledMoves b p act { p with pool := pool }
  | sends (i : Fin THREAD) (arg : SlotIx) (hpc : p.pool.workers i = .working arg)
      (hstage : p.stage i = .send) :
      PooledMoves b p (.worker i) { p with stage := Function.update p.stage i .clearLen }
  | clearsLen (i : Fin THREAD) (arg : SlotIx) (hpc : p.pool.workers i = .working arg)
      (hstage : p.stage i = .clearLen) :
      PooledMoves b p (.worker i) { p with
        server := p.server.setSlot arg (clearLen (p.server.epEvents arg))
        stage := Function.update p.stage i .clearHead }
  | clearsHead (i : Fin THREAD) (arg : SlotIx) (pool : PoolSystem THREAD Unit SlotIx)
      (hpc : p.pool.workers i = .working arg) (hstage : p.stage i = .clearHead)
      (hs : Netepoll.poolStep p.pool (.worker i) = some pool) :
      PooledMoves b p (.worker i) { p with
        server := p.server.setSlot arg (clearHead (p.server.epEvents arg))
        pool := pool }
  | works (i : Fin THREAD) (pool : PoolSystem THREAD Unit SlotIx)
      (hpc : ∀ arg, p.pool.workers i ≠ .working arg)
      (hs : Netepoll.poolStep p.pool (.worker i) = some pool) :
      PooledMoves b p (.worker i) { p with pool := pool, stage := Function.update p.stage i .send }

theorem mainStep_cases {b : Boot} {p q : PooledServer} (h : mainStep p = some q) :
    PooledMoves b p .next q := by
  unfold mainStep at h
  split at h
  · rename_i i hpc
    obtain ⟨pool, hs, rfl⟩ := poolStep_of_pooled h
    exact .asks i pool hpc hs
  · rename_i pc hnot hpc
    obtain ⟨x, hs, rfl⟩ := Option.map_eq_some_iff.mp h
    exact .states pc x hpc (fun i hi => hnot i hi) hs
  · rename_i i hpc
    split at h
    · rename_i err hret
      split at h
      · rename_i herr
        cases h
        exact .refused i err hpc hret herr
      · rename_i herr
        cases h
        exact .told i err hpc hret herr
    · cases h
  · cases h

theorem workerStep_cases {b : Boot} {p q : PooledServer} {i : Fin THREAD}
    (h : workerStep p i = some q) : PooledMoves b p (.worker i) q := by
  unfold workerStep at h
  split at h
  · rename_i arg hpc
    split at h
    · rename_i hstage
      cases h
      exact .sends i arg hpc hstage
    · rename_i hstage
      cases h
      exact .clearsLen i arg hpc hstage
    · rename_i hstage
      obtain ⟨pool, hs, rfl⟩ := poolStep_of_pooled h
      exact .clearsHead i arg pool hpc hstage hs
  · rename_i hpc
    obtain ⟨pool, hs, rfl⟩ := poolStep_of_pooled h
    exact .works i pool (fun arg harg => hpc arg harg) hs

theorem pooledStep_cases {b : Boot} {p q : PooledServer} {a : PooledAction}
    (h : pooledStep b p a = some q) : PooledMoves b p a q := by
  have hpass {c : PoolAction THREAD Unit SlotIx} (hc : a.toPool = some c)
      (hs : p.poolStep c = some q) : PooledMoves b p a q := by
    obtain ⟨pool, hpool, rfl⟩ := poolStep_of_pooled hs
    exact .passes a c pool hc hpool
  cases a with
  | acceptconnect o =>
    simp only [pooledStep] at h
    split at h
    · rename_i hpc
      obtain ⟨s, hs, rfl⟩ := Option.map_eq_some_iff.mp h
      exact .accepts o s hpc hs
    · cases h
  | recv i r =>
    simp only [pooledStep] at h
    split at h
    · rename_i hpc
      split at h
      · rename_i hi
        obtain ⟨x, hs, rfl⟩ := Option.map_eq_some_iff.mp h
        exact .receives i r x hpc hi hs
      · cases h
    · cases h
  | next => exact mainStep_cases h
  | add wake => exact hpass rfl h
  | lockFails => exact hpass rfl h
  | epollFails =>
    simp only [pooledStep] at h
    split at h
    · rename_i hpc
      obtain ⟨pool, hs, rfl⟩ := poolStep_of_pooled h
      exact .leaves pool hpc hs
    · cases h
  | destroy => exact hpass rfl h
  | worker i => exact workerStep_cases h
  | spurious i => exact hpass rfl h

end Netepoll
