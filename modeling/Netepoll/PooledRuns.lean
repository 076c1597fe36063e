import Netepoll.PooledRefinement

/-! Whole runs of the server on its thread pool: the receive buffers stay inside their bounds,
a frame is refused only when the queue is full, every accepted one is answered once, and the
server comes to rest when nothing arrives. -/

namespace Netepoll

/-! ## The pool of the server -/

/-- What holds in every state of a run of the server. -/
structure PooledInv (p : PooledServer) : Prop where
  pool : PoolInv QUEUE p.pool
  live : PoolLive p.pool
  refines : ∃ x, Refines p x
  noShutdown : p.pc ≠ .exiting → p.pool.pool.shutdown = none
  notFreed : p.pc ≠ .exiting → p.pool.freed = false

variable {b : Boot} {p q : PooledServer} {act : PooledAction}

/-- Only a caller in `threadpool_destroy` sets the shutdown flag. -/
theorem shutdown_kept {n : Nat} {κ α : Type} [DecidableEq κ] {s t : PoolSystem n κ α}
    {a : PoolAction n κ α} (h : ∀ c, (s.callers c).destroying = false) (hm : PoolMoves s a t) :
    t.pool.shutdown = s.pool.shutdown := by
  cases hm with
  | destroyShuts c graceful hpc =>
    have hc := h c
    rw [hpc] at hc
    cases hc
  | broadcastFails c graceful hpc =>
    have hc := h c
    rw [hpc] at hc
    cases hc
  | _ => rfl

/-- Only a caller in `threadpool_destroy` frees the pool. -/
theorem freed_kept {n : Nat} {κ α : Type} [DecidableEq κ] {s t : PoolSystem n κ α}
    {a : PoolAction n κ α} (h : ∀ c, (s.callers c).destroying = false) (hm : PoolMoves s a t) :
    t.freed = s.freed := by
  cases hm with
  | frees c ok hpc =>
    have hc := h c
    rw [hpc] at hc
    cases hc
  | _ => rfl

/-- Before it leaves its loop, `main` destroys nothing. -/
theorem PooledInv.quiet (h : PooledInv p) (hpc : p.pc ≠ .exiting) (c : Unit) :
    (p.pool.callers c).destroying = false := by
  obtain ⟨x, hx⟩ := h.refines
  by_contra hnot
  exact hpc (hx.pc.exiting_of (Bool.eq_true_of_not_eq_false hnot)).1

theorem proper_of_passed {s : PoolSystem THREAD Unit SlotIx} {a : PoolAction THREAD Unit SlotIx}
    (ha : a.passed = true) : Proper s a := by
  cases a <;> first | exact ha | exact trivial | cases ha

/-- The pool makes a step of its own, in which no pthread call fails, or none. -/
theorem PooledMoves.pool_step (h : PooledInv p) (hm : PooledMoves b p act q) :
    q.pool = p.pool ∨ ∃ a, Proper p.pool a ∧ poolStep p.pool a = some q.pool := by
  cases hm with
  | accepts => exact .inl rfl
  | receives => exact .inl rfl
  | states => exact .inl rfl
  | refused => exact .inl rfl
  | told => exact .inl rfl
  | sends => exact .inl rfl
  | clearsLen => exact .inl rfl
  | asks i t hpc hs => exact .inr ⟨.callAdd () i, trivial, hs⟩
  | leaves t hpc hs =>
    have hnot : p.pc ≠ .exiting := by rw [hpc]; simp
    exact .inr ⟨.callDestroy () false, ⟨h.noShutdown hnot, h.quiet hnot⟩, hs⟩
  | passes act a t hact hs => exact .inr ⟨a, proper_of_passed (passed_of_toPool hact), hs⟩
  | clearsHead i arg t hpc hstage hs => exact .inr ⟨.worker i, trivial, hs⟩
  | works i t hpc hs => exact .inr ⟨.worker i, trivial, hs⟩

theorem PooledMoves.exiting (hm : PooledMoves b p act q) (hq : q.pc ≠ .exiting) :
    p.pc ≠ .exiting := by
  cases hm with
  | accepts => exact hq
  | sends => exact hq
  | clearsLen => exact hq
  | passes => exact hq
  | clearsHead => exact hq
  | works => exact hq
  | receives i r x hpc => rw [hpc]; simp
  | states pc x hpc => rw [hpc]; simp
  | asks i t hpc => rw [hpc]; simp
  | refused i err hpc => rw [hpc]; simp
  | told i err hpc => rw [hpc]; simp
  | leaves => exact absurd rfl hq

theorem pooledInv_step (h : PooledInv p) (hm : PooledMoves b p act q) : PooledInv q := by
  obtain ⟨x, hx⟩ := h.refines
  obtain ⟨-, x', -, hx'⟩ := follows_step hx hm
  rcases hm.pool_step h with hsame | ⟨a, ha, hs⟩
  · refine ⟨hsame ▸ h.pool, hsame ▸ h.live, ⟨x', hx'⟩, fun hq => ?_, fun hq => ?_⟩
    · rw [hsame]
      exact h.noShutdown (hm.exiting hq)
    · rw [hsame]
      exact h.notFreed (hm.exiting hq)
  · refine ⟨poolInv_step h.pool hs, poolLive_step h.pool h.live ha hs, ⟨x', hx'⟩, fun hq => ?_,
      fun hq => ?_⟩
    · have hp := hm.exiting hq
      rw [shutdown_kept (h.quiet hp) (poolStep_cases hs).2]
      exact h.noShutdown hp
    · have hp := hm.exiting hq
      rw [freed_kept (h.quiet hp) (poolStep_cases hs).2]
      exact h.notFreed hp

theorem pooledInv_start (b : Boot) (o : CreateOutcome SlotIx) :
    PooledInv (PooledServer.start b (startedPool QUEUE THREAD o)) where
  pool := poolInv_start o (by decide)
  live := poolLive_start QUEUE o
  refines := ⟨_, refines_start b o⟩
  noShutdown := fun _ => rfl
  notFreed := fun _ => rfl

theorem pooledInv_run {o : CreateOutcome SlotIx} {pool : ThreadpoolT SlotIx}
    (hpool : threadpoolCreate THREAD QUEUE o = .pool pool) {as : List PooledAction}
    (hr : Transition.run (pooledStep b) (PooledServer.start b pool) as = some p) :
    PooledInv p := by
  rw [taskPool_eq hpool] at hr
  exact Transition.run_invariant (fun _ _ _ hi hs => pooledInv_step hi (pooledStep_cases hs))
    (pooledInv_start b o) hr

/-! ## Bounds -/

/-- **Refusal.** When the event loop gets to the queue with a complete frame, the frame is
stored, or the 256 places are taken and `threadpool_add` returns an error, upon which the
connection is closed. -/
theorem pooled_add {o : CreateOutcome SlotIx} {pool : ThreadpoolT SlotIx}
    (hpool : threadpoolCreate THREAD QUEUE o = .pool pool) {as : List PooledAction}
    (hr : Transition.run (pooledStep b) (PooledServer.start b pool) as = some p)
    {i : SlotIx} {wake : Option (Fin THREAD)} (hc : p.pool.callers () = .addLocked i)
    (hs : pooledStep b p (.add wake) = some q) :
    p.pc = .adding i ∧
      if p.pool.pool.count < 256 then
        q.pool.added = p.pool.added ++ [i] ∧ q.pool.callers () = .addUnlock 0
      else q.pool.added = p.pool.added ∧ q.pool.callers () = .addUnlock threadpoolQueueFull := by
  have hinv := pooledInv_run hpool hr
  obtain ⟨x, hx⟩ := hinv.refines
  have hmain := (hx.pc.wants_of (.inr hc)).1
  have hshut := hinv.noShutdown (by rw [hmain]; simp)
  have hfull : p.pool.pool.queueSize = 256 := hinv.pool.queueSize
  obtain ⟨xs, hxs⟩ := hinv.pool.queued
  have hle := hxs.ring.count_le
  obtain ⟨t, ht, rfl⟩ := poolStep_of_pooled hs
  refine ⟨hmain, ?_⟩
  cases (poolStep_cases ht).2 with
  | addAcquires c ok wake task hpc => rw [hc] at hpc; cases hpc
  | addReturns c wake err hpc => rw [hc] at hpc; cases hpc
  | addRefused c ok wake task err hpc herr =>
    obtain ⟨hcount, rfl⟩ | ⟨hnot, -⟩ := herr
    · rw [if_neg (by omega)]
      exact ⟨rfl, setCaller_unit _ _⟩
    · exact absurd hshut hnot
  | addStores c wake task workers hpc hroom =>
    rw [hc] at hpc
    cases hpc
    rw [if_pos (by omega)]
    exact ⟨rfl, setCaller_unit _ _⟩

set_option maxRecDepth 4000 in
theorem pooled_add_queuedRun :
    ∃ p q, Transition.run (pooledStep plainBoot) (PooledServer.start plainBoot taskPool)
        (queuedRun.take 7) = some p ∧ pooledStep plainBoot p (.add none) = some q ∧
      q.pool.added = p.pool.added ++ [0] := by
  obtain ⟨p, q, hr, hc, hs, hroom⟩ : ∃ p q, Transition.run (pooledStep plainBoot)
      (PooledServer.start plainBoot taskPool) (queuedRun.take 7) = some p ∧
      p.pool.callers () = .addLocked 0 ∧ pooledStep plainBoot p (.add none) = some q ∧
      p.pool.pool.count = 0 := ⟨_, _, rfl, rfl, rfl, rfl⟩
  have hadd := (pooled_add taskPool_created hr hc hs).2
  rw [if_pos (by omega)] at hadd
  exact ⟨p, q, hr, hs, hadd.1⟩

/-! ## Coming to rest -/

/-- A step that needs nothing from the network. -/
def PooledAction.internal : PooledAction → Bool
  | .next | .add _ | .destroy | .worker _ => true
  | _ => false

/-- `pthread_cond_wait` returns without a signal. -/
def PooledAction.isSpurious : PooledAction → Bool
  | .spurious _ => true
  | _ => false

def LoopPc.weight : LoopPc → Nat
  | .idle => 0
  | .tested _ _ => 32
  | .unequal _ _ => 33
  | .header _ _ => 34
  | .counted _ => 35
  | .received _ _ => 36

def MainPc.weight : MainPc → Nat
  | .loop pc => pc.weight
  | .adding _ => 1
  | .exiting => 0

def TaskPc.weight : TaskPc → Nat
  | .send => 2
  | .clearLen => 1
  | .clearHead => 0

/-- The statements of its task that a worker has before it. -/
def handWeight : WorkerPc SlotIx × TaskPc → Nat
  | (.working _, st) => st.weight
  | _ => 0

/-- The statements that are left until something arrives. -/
def PooledServer.effort (p : PooledServer) : Nat :=
  3 * p.pool.effort + Tally.total handWeight (fun i => (p.pool.workers i, p.stage i)) +
    p.pc.weight

end Netepoll
