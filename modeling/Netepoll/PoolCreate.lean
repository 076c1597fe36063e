import Netepoll.Threadpool

/-! The pools that `threadpool_create` hands out, and what it leaves behind when it fails. -/

namespace Netepoll

universe u

variable {α : Type u}

/-- What `threadpool_create` asks of its arguments. -/
def CreateRange (threadCount queueSize : Int) : Prop :=
  0 < threadCount ∧ threadCount ≤ MAX_THREADS ∧ 0 < queueSize ∧ queueSize ≤ MAX_QUEUE

instance CreateRange.decidable (threadCount queueSize : Int) :
    Decidable (CreateRange threadCount queueSize) :=
  inferInstanceAs (Decidable (_ ∧ _))

/-- Threads of `pool` run: it is returned, or given to `threadpool_destroy` since one of them
could not be started. -/
def Launched (threadCount queueSize : Int) (o : CreateOutcome α) (pool : ThreadpoolT α) : Prop :=
  threadpoolCreate threadCount queueSize o = .pool pool ∨
    threadpoolCreate threadCount queueSize o = .destroy pool

/-- The loop over `pthread_create` comes to `m`. -/
theorem createThreads_eq (created : Nat → Bool) (k i : Nat) (pool : ThreadpoolT α) :
    ∃ m, m ≤ k ∧ (∀ j < m, created (i + j) = true) ∧
      (createThreads created k i pool).1 =
        { pool with threadCount := pool.threadCount + m, started := pool.started + m } ∧
      ((createThreads created k i pool).2 = true ∧ m = k ∨
        (createThreads created k i pool).2 = false ∧ m < k ∧ created (i + m) = false) := by
  induction k generalizing i pool with
  | zero =>
    refine ⟨0, Nat.le_refl 0, fun j hj => absurd hj (Nat.not_lt_zero j), ?_, .inl ⟨rfl, rfl⟩⟩
    simp [createThreads]
  | succ k ih =>
    by_cases hi : created i = true
    · simp only [createThreads, if_pos hi]
      obtain ⟨m, hm, hall, hpool, hend⟩ := ih (i + 1)
        { pool with threadCount := pool.threadCount + 1, started := pool.started + 1 }
      refine ⟨m + 1, by omega, fun j hj => ?_, ?_, ?_⟩
      · cases j with
        | zero => exact hi
        | succ j => rw [← Nat.add_assoc, Nat.add_right_comm]; exact hall j (by omega)
      · rw [hpool]
        simp only [ThreadpoolT.mk.injEq, true_and]
        omega
      · rcases hend with ⟨hend, rfl⟩ | ⟨hend, hlt, hfail⟩
        · exact .inl ⟨hend, rfl⟩
        · refine .inr ⟨hend, by omega, ?_⟩
          rw [← Nat.add_assoc, Nat.add_right_comm]
          exact hfail
    · simp only [createThreads, if_neg hi]
      refine ⟨0, by omega, fun j hj => absurd hj (Nat.not_lt_zero j), by simp, .inr ?_⟩
      exact ⟨trivial, by omega, by simpa using hi⟩

/-- A pool of `m` started threads and an empty queue. -/
def startedPool (queueSize m : Nat) (o : CreateOutcome α) : ThreadpoolT α :=
  { initPool queueSize o with threadCount := m, started := m }

/-- All that `threadpool_create` needs before it starts threads. -/
def CreateOutcome.complete (o : CreateOutcome α) : Prop :=
  o.pool = true ∧ o.mutexInit = true ∧ o.condInit = true ∧ o.threads = true ∧ o.queue = true

theorem threadpoolCreate_eq {threadCount queueSize : Int} {o : CreateOutcome α}
    (hrange : CreateRange threadCount queueSize) (ho : o.complete) :
    ∃ m ≤ threadCount.toNat, (∀ j < m, o.created j = true) ∧
      (threadpoolCreate threadCount queueSize o = .pool (startedPool queueSize.toNat m o) ∧
          m = threadCount.toNat ∨
        threadpoolCreate threadCount queueSize o = .destroy (startedPool queueSize.toNat m o) ∧
          m < threadCount.toNat ∧ o.created m = false) := by
  obtain ⟨hcount, hcountle, hsize, hsizele⟩ := hrange
  obtain ⟨hpool, hmutex, hcond, hthreads, hqueue⟩ := ho
  have hin : ¬(threadCount ≤ 0 ∨ (MAX_THREADS : Int) < threadCount ∨ queueSize ≤ 0 ∨
      (MAX_QUEUE : Int) < queueSize) := by omega
  obtain ⟨m, hm, hall, heq, hend⟩ :=
    createThreads_eq o.created threadCount.toNat 0 (initPool queueSize.toNat o)
  have hinit : (createThreads o.created threadCount.toNat 0 (initPool queueSize.toNat o)).1 =
      startedPool queueSize.toNat m o := by
    rw [heq]
    simp [startedPool, initPool]
  simp only [Nat.zero_add] at hall hend
  refine ⟨m, hm, hall, ?_⟩
  unfold threadpoolCreate
  rw [if_neg hin, if_neg (by simp [hpool]), if_neg (by simp [*])]
  rcases hend with ⟨htrue, rfl⟩ | ⟨hfalse, hlt, hfail⟩
  · exact .inl ⟨by simp only [if_pos htrue, hinit], rfl⟩
  · refine .inr ⟨?_, hlt, hfail⟩
    simp only [hfalse, Bool.false_eq_true, if_false, hinit]

/-- Where it does not get to start threads, it frees what it has. -/
theorem threadpoolCreate_failed {threadCount queueSize : Int} {o : CreateOutcome α}
    (h : ¬(CreateRange threadCount queueSize ∧ o.complete)) :
    threadpoolCreate threadCount queueSize o =
      if CreateRange threadCount queueSize ∧ o.pool = true then threadpoolFree o
      else .null [] := by
  unfold threadpoolCreate
  by_cases hrange : CreateRange threadCount queueSize
  · have hin : ¬(threadCount ≤ 0 ∨ (MAX_THREADS : Int) < threadCount ∨ queueSize ≤ 0 ∨
        (MAX_QUEUE : Int) < queueSize) := by
      unfold CreateRange at hrange
      omega
    rw [if_neg hin]
    by_cases hpool : o.pool = true
    · have hfail : o.mutexInit = false ∨ o.condInit = false ∨ o.threads = false ∨
          o.queue = false := by
        by_contra hall
        simp only [not_or, Bool.not_eq_false] at hall
        exact h ⟨hrange, hpool, hall⟩
      rw [if_neg (by simp [hpool]), if_pos hfail, if_pos ⟨hrange, hpool⟩]
    · rw [if_pos (by simpa using hpool), if_neg fun hand => hpool hand.2]
  · have hout : threadCount ≤ 0 ∨ (MAX_THREADS : Int) < threadCount ∨ queueSize ≤ 0 ∨
        (MAX_QUEUE : Int) < queueSize := by
      unfold CreateRange at hrange
      omega
    rw [if_pos hout, if_neg fun hand => hrange hand.1]

theorem threadpoolFree_ne (o : CreateOutcome α) :
    (∀ pool, threadpoolFree o ≠ .pool pool) ∧ ∀ pool, threadpoolFree o ≠ .destroy pool := by
  unfold threadpoolFree
  cases o.threads with
  | true => cases o.mutexInit <;> cases o.condInit <;> exact ⟨nofun, nofun⟩
  | false => exact ⟨nofun, nofun⟩

/-- A call that fails before it starts threads gives none to anybody. -/
theorem failed_ne (o : CreateOutcome α) (c : Prop) [Decidable c] :
    (∀ pool, (if c then threadpoolFree o else .null []) ≠ .pool pool) ∧
      ∀ pool, (if c then threadpoolFree o else .null []) ≠ .destroy pool := by
  by_cases hc : c
  · simpa only [if_pos hc] using threadpoolFree_ne o
  · simp only [if_neg hc]
    exact ⟨nofun, nofun⟩

theorem launched_eq {threadCount queueSize : Int} {o : CreateOutcome α} {pool : ThreadpoolT α}
    (h : Launched threadCount queueSize o pool) :
    CreateRange threadCount queueSize ∧ ∃ m, pool = startedPool queueSize.toNat m o ∧
      (threadpoolCreate threadCount queueSize o = .pool pool → m = threadCount.toNat) := by
  by_cases hgood : CreateRange threadCount queueSize ∧ o.complete
  · obtain ⟨m, -, -, hcreate⟩ := threadpoolCreate_eq hgood.1 hgood.2
    refine ⟨hgood.1, m, ?_⟩
    rcases hcreate with ⟨hcreate, hm⟩ | ⟨hcreate, -, -⟩ <;>
      simp only [Launched, hcreate, Created.pool.injEq, Created.destroy.injEq, reduceCtorEq,
        or_false, false_or] at h ⊢
    · exact ⟨h.symm, fun _ => hm⟩
    · exact ⟨h.symm, fun hne => hne.elim⟩
  · rw [Launched, threadpoolCreate_failed hgood] at h
    exact (h.elim ((failed_ne o _).1 pool) ((failed_ne o _).2 pool)).elim

theorem threadpoolFree_eq_undefined_iff (o : CreateOutcome α) :
    threadpoolFree o = .undefined ↔
      o.threads = true ∧ (o.mutexInit = false ∨ o.condInit = false) := by
  unfold threadpoolFree
  cases o.threads with
  | true => cases o.mutexInit <;> cases o.condInit <;> simp
  | false => simp

theorem threadpoolFree_lost_iff (o : CreateOutcome α) :
    (∃ lost, threadpoolFree o = .null lost ∧ lost ≠ []) ↔ o.threads = false ∧ o.queue = true := by
  unfold threadpoolFree
  cases o.threads with
  | true => cases o.mutexInit <;> cases o.condInit <;> simp
  | false => cases o.queue <;> simp

/-- `threadpool_create` returns a pool exactly when its arguments are in range, nothing it
needs is missing and all threads start; it gives the threads started so far to
`threadpool_destroy` exactly when one does not start; it uses a lock or a condition variable that
has not been initialized exactly when an `init` call fails and the block for the threads is there;
and of all ways to fail only a missing block for the threads loses memory, the block of the
queue. -/
theorem threadpoolCreate_spec (threadCount queueSize : Int) (o : CreateOutcome α) :
    (∀ pool, threadpoolCreate threadCount queueSize o = .pool pool ↔
      CreateRange threadCount queueSize ∧ o.complete ∧
        (∀ i < threadCount.toNat, o.created i = true) ∧
        pool = startedPool queueSize.toNat threadCount.toNat o) ∧
    (∀ pool, threadpoolCreate threadCount queueSize o = .destroy pool ↔
      CreateRange threadCount queueSize ∧ o.complete ∧
        ∃ m < threadCount.toNat, (∀ i < m, o.created i = true) ∧ o.created m = false ∧
          pool = startedPool queueSize.toNat m o) ∧
    (threadpoolCreate threadCount queueSize o = .undefined ↔
      CreateRange threadCount queueSize ∧ o.pool = true ∧ o.threads = true ∧
        (o.mutexInit = false ∨ o.condInit = false)) ∧
    ((∃ lost, threadpoolCreate threadCount queueSize o = .null lost ∧ lost ≠ []) ↔
      CreateRange threadCount queueSize ∧ o.pool = true ∧ o.threads = false ∧ o.queue = true) := by
  by_cases hgood : CreateRange threadCount queueSize ∧ o.complete
  · obtain ⟨m, hm, hall, hcreate⟩ := threadpoolCreate_eq hgood.1 hgood.2
    obtain ⟨-, hmutex, hcond, hthreads, -⟩ := hgood.2
    rcases hcreate with ⟨hcreate, rfl⟩ | ⟨hcreate, hlt, hfail⟩
    · refine ⟨fun pool => ?_, fun pool => ?_, ?_, ?_⟩
      · rw [hcreate, Created.pool.injEq]
        exact ⟨fun e => ⟨hgood.1, hgood.2, hall, e.symm⟩, fun h => h.2.2.2.symm⟩
      · simp only [hcreate, reduceCtorEq, false_iff]
        rintro ⟨-, -, k, hk, -, hnot, -⟩
        rw [hall k hk] at hnot
        cases hnot
      · simp [hcreate, hmutex, hcond]
      · simp [hcreate, hthreads]
    · refine ⟨fun pool => ?_, fun pool => ?_, ?_, ?_⟩
      · simp only [hcreate, reduceCtorEq, false_iff]
        rintro ⟨-, -, hevery, -⟩
        rw [hevery m hlt] at hfail
        cases hfail
      · rw [hcreate, Created.destroy.injEq]
        refine ⟨fun e => ⟨hgood.1, hgood.2, m, hlt, hall, hfail, e.symm⟩, ?_⟩
        rintro ⟨-, -, k, hk, hbefore, hnot, rfl⟩
        rcases Nat.lt_trichotomy m k with hmk | rfl | hkm
        · rw [hbefore m hmk] at hfail
          cases hfail
        · rfl
        · rw [hall k hkm] at hnot
          cases hnot
      · simp [hcreate, hmutex, hcond]
      · simp [hcreate, hthreads]
  · rw [threadpoolCreate_failed hgood]
    refine ⟨fun pool => ?_, fun pool => ?_, ?_, ?_⟩
    · refine iff_of_false ?_ fun h => hgood ⟨h.1, h.2.1⟩
      exact (failed_ne o _).1 pool
    · refine iff_of_false ?_ fun h => hgood ⟨h.1, h.2.1⟩
      exact (failed_ne o _).2 pool
    · by_cases hin : CreateRange threadCount queueSize ∧ o.pool = true
      · rw [if_pos hin, threadpoolFree_eq_undefined_iff]
        exact ⟨fun h => ⟨hin.1, hin.2, h⟩, fun h => h.2.2⟩
      · rw [if_neg hin]
        exact iff_of_false nofun fun h => hin ⟨h.1, h.2.1⟩
    · by_cases hin : CreateRange threadCount queueSize ∧ o.pool = true
      · rw [if_pos hin, threadpoolFree_lost_iff]
        exact ⟨fun h => ⟨hin.1, hin.2, h⟩, fun h => h.2.2⟩
      · rw [if_neg hin]
        refine iff_of_false ?_ fun h => hin ⟨h.1, h.2.1⟩
        rintro ⟨lost, hlost, hne⟩
        cases hlost
        exact hne rfl

end Netepoll
