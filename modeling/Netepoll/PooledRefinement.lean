import Netepoll.PooledServer

/-! The server on its thread pool is simulated by the server of Statements.lean, whose pool is
a list of unfinished tasks, so that what holds there of slots and descriptors holds here too. -/

namespace Netepoll

/-! ## The unfinished tasks -/

/-- The phase of a task in the list, told by the statement that comes next. -/
def TaskPc.phase : TaskPc → Phase
  | .send => .taken
  | .clearLen => .sent
  | .clearHead => .lenCleared

/-- The task that a worker has in hand, and how far it is. -/
def handOf : WorkerPc SlotIx × TaskPc → Option (SlotIx × Phase)
  | (.grabbed arg, _) => some (arg, .queued)
  | (.working arg, stage) => some (arg, stage.phase)
  | _ => none

def inHand (workers : Fin THREAD → WorkerPc SlotIx) (stage : Fin THREAD → TaskPc) :
    List (SlotIx × Phase) :=
  Tally.collect handOf fun i => (workers i, stage i)

/-- The tasks in the hands of the workers and those in the queue. -/
def Unfinished (s : PoolSystem THREAD Unit SlotIx) (stage : Fin THREAD → TaskPc)
    (l : List (SlotIx × Phase)) : Prop :=
  ∃ xs, Queued s.pool s.added s.taken xs ∧
    l.Perm (inHand s.workers stage ++ xs.map fun arg => (arg, .queued))

variable {s t : PoolSystem THREAD Unit SlotIx} {stage : Fin THREAD → TaskPc}
  {l : List (SlotIx × Phase)}

/-- A signal puts nothing into a hand. -/
theorem inHand_wake {workers : Fin THREAD → WorkerPc SlotIx}
    (hw : ∀ i st, handOf (workers i, st) = handOf (s.workers i, st)) :
    inHand workers stage = inHand s.workers stage :=
  Tally.collect_congr fun i => hw i (stage i)

theorem update_pair (workers : Fin THREAD → WorkerPc SlotIx) (stage : Fin THREAD → TaskPc)
    (i : Fin THREAD) (pc : WorkerPc SlotIx) (st : TaskPc) :
    (fun j => (Function.update workers i pc j, Function.update stage i st j)) =
      Function.update (fun j => (workers j, stage j)) i (pc, st) := by
  funext j
  by_cases hji : j = i
  · subst hji
    simp
  · simp [Function.update_of_ne hji]

/-- One worker moves: what the others have in hand stays. -/
theorem inHand_update (workers : Fin THREAD → WorkerPc SlotIx) (stage : Fin THREAD → TaskPc)
    (i : Fin THREAD) (pc : WorkerPc SlotIx) (st : TaskPc) :
    ∃ rest, (inHand workers stage).Perm ((handOf (workers i, stage i)).toList ++ rest) ∧
      (inHand (Function.update workers i pc) (Function.update stage i st)).Perm
        ((handOf (pc, st)).toList ++ rest) := by
  obtain ⟨rest, hold, hnew⟩ :=
    Tally.collect_update handOf (fun j => (workers j, stage j)) i (pc, st)
  refine ⟨rest, hold, ?_⟩
  rw [inHand, update_pair]
  exact hnew

/-- A worker moves whose hand stays empty. -/
theorem Unfinished.idle (h : Unfinished s stage l) {i : Fin THREAD} {pc : WorkerPc SlotIx}
    {st : TaskPc} (hold : handOf (s.workers i, stage i) = none) (hnew : handOf (pc, st) = none)
    (hworkers : t.workers = Function.update s.workers i pc)
    (hqueue : ∀ xs, Queued s.pool s.added s.taken xs → Queued t.pool t.added t.taken xs) :
    Unfinished t (Function.update stage i st) l := by
  obtain ⟨xs, hxs, hperm⟩ := h
  obtain ⟨rest, hbefore, hafter⟩ := inHand_update s.workers stage i pc st
  rw [hold] at hbefore
  rw [hnew] at hafter
  refine ⟨xs, hqueue xs hxs, ?_⟩
  rw [hworkers]
  exact hperm.trans ((hbefore.trans hafter.symm).append_right _)

/-- The task that a worker has in hand is one of the unfinished, and the others stay. -/
theorem Unfinished.hand (h : Unfinished s stage l) {i : Fin THREAD} {c : SlotIx × Phase}
    (hold : handOf (s.workers i, stage i) = some c) (pc : WorkerPc SlotIx) (st : TaskPc) :
    ∃ rest, l.Perm (c :: rest) ∧ ∀ t : PoolSystem THREAD Unit SlotIx,
      t.workers = Function.update s.workers i pc →
      (∀ xs, Queued s.pool s.added s.taken xs → Queued t.pool t.added t.taken xs) →
      Unfinished t (Function.update stage i st) ((handOf (pc, st)).toList ++ rest) := by
  obtain ⟨xs, hxs, hperm⟩ := h
  obtain ⟨others, hbefore, hafter⟩ := inHand_update s.workers stage i pc st
  rw [hold] at hbefore
  refine ⟨others ++ xs.map fun arg => (arg, .queued), ?_, fun t hworkers hqueue => ?_⟩
  · exact hperm.trans (hbefore.append_right _)
  · refine ⟨xs, hqueue xs hxs, ?_⟩
    rw [hworkers, ← List.append_assoc]
    exact (hafter.append_right _).symm

/-- A worker takes the oldest task out of the queue. -/
theorem Unfinished.grab (h : Unfinished s stage l) {i : Fin THREAD} {task : SlotIx} {st : TaskPc}
    (hold : handOf (s.workers i, stage i) = none) (hne : s.pool.count ≠ 0)
    (htask : s.pool.queue[s.pool.head]? = some task) :
    Unfinished ({ s with pool := s.pool.grabbed, taken := s.taken ++ [task] }.setWorker i
      (.grabbed task)) (Function.update stage i st) l := by
  obtain ⟨xs, hxs, hperm⟩ := h
  obtain ⟨ys, rfl, hys⟩ := hxs.grab hne htask
  obtain ⟨rest, hbefore, hafter⟩ := inHand_update s.workers stage i (.grabbed task) st
  rw [hold] at hbefore
  refine ⟨ys, hys, hperm.trans ?_⟩
  calc List.Perm (inHand s.workers stage ++ (task :: ys).map fun arg => (arg, Phase.queued))
        (rest ++ (task, .queued) :: ys.map fun arg => (arg, Phase.queued)) :=
        hbefore.append_right _
    List.Perm _ ((task, .queued) :: (rest ++ ys.map fun arg => (arg, Phase.queued))) :=
        List.perm_middle
    List.Perm _ (inHand (Function.update s.workers i (.grabbed task)) (Function.update stage i st)
        ++ ys.map fun arg => (arg, Phase.queued)) := hafter.symm.append_right _

/-- The event loop puts a task into the queue. -/
theorem Unfinished.store (h : Unfinished s stage l) {task : SlotIx}
    {workers : Fin THREAD → WorkerPc SlotIx} (hroom : s.pool.count ≠ s.pool.queueSize)
    (hsignal : Signalled s.workers workers) (hadded : t.added = s.added ++ [task])
    (htaken : t.taken = s.taken) (hpool : t.pool = s.pool.stored task)
    (hworkers : t.workers = workers) : Unfinished t stage (l ++ [(task, .queued)]) := by
  obtain ⟨xs, hxs, hperm⟩ := h
  refine ⟨xs ++ [task], ?_, ?_⟩
  · rw [hpool, hadded, htaken]
    exact hxs.store hroom task
  · have hsame : inHand workers stage = inHand s.workers stage :=
      inHand_wake fun i st => hsignal.map_eq (fun pc => handOf (pc, st)) rfl i
    rw [hworkers, hsame, List.map_append, ← List.append_assoc]
    exact hperm.append_right _

/-! ## The event loop does not look at the tasks -/

theorem eventadd_tasks (s : Server) (event : UInt32) (i : SlotIx) (ctlOk : Bool) (l : List Task) :
    eventadd { s with tasks := l } event i ctlOk =
      { eventadd s event i ctlOk with tasks := l } := by
  have hupdate (ev : MyEvents) : ({ s with tasks := l } : Server).setSlot i ev =
      { s.setSlot i ev with tasks := l } := rfl
  by_cases hi : (s.epEvents i).mStatus = 0
  · rw [eventadd_eq hi, eventadd_eq (s := { s with tasks := l }) hi]
    cases s.kernel.epollAdd (s.epEvents i).mFd ⟨i, event⟩ ctlOk <;> rfl
  · simp only [eventadd, hupdate, Server.setSlot_epEvents, Function.update_self, if_neg hi]

theorem closeAndDel_tasks_eq (s : Server) (i : SlotIx) (l : List Task) :
    closeAndDel { s with tasks := l } i = { closeAndDel s i with tasks := l } := by
  unfold closeAndDel eventdel Server.close
  split <;> rfl

theorem acceptconnect_tasks {s s' : Server} {fd : Nat} {o : AcceptOutcome} (l : List Task)
    (h : acceptconnect s fd o = some s') :
    acceptconnect { s with tasks := l } fd o = some { s' with tasks := l } := by
  unfold acceptconnect at h ⊢
  cases ho : o.connectFd with
  | none =>
    rw [ho] at h
    cases h
    rfl
  | some connectFd =>
    simp only [ho] at h ⊢
    cases hk : s.kernel.accept fd connectFd with
    | none => simp [hk] at h
    | some k =>
      simp only [hk] at h ⊢
      have hindex : getEventIndex { epEvents := s.epEvents, kernel := k, tasks := l } =
          getEventIndex { epEvents := s.epEvents, kernel := k, tasks := s.tasks } := rfl
      rw [hindex]
      cases hi : getEventIndex { epEvents := s.epEvents, kernel := k, tasks := s.tasks } with
      | none =>
        simp only [hi] at h ⊢
        cases h
        rfl
      | some i =>
        simp only [hi] at h ⊢
        split at h <;> rename_i hc <;> cases h
        · rw [if_pos hc]
          rfl
        · rw [if_neg hc]
          have hadd := eventadd_tasks
            (Server.setSlot ⟨s.epEvents, k, s.tasks⟩ i (acceptedSlot i connectFd)) EPOLLIN i
            o.ctlOk l
          exact congrArg some hadd

theorem recvStatement_tasks {s : Server} {i : SlotIx} {r : RecvResult} {x : Fine} (l : List Task)
    (h : recvStatement s i r = some x) :
    recvStatement { s with tasks := l } i r = some ⟨{ x.server with tasks := l }, x.pc⟩ := by
  cases r with
  | data bs =>
    simp only [recvStatement] at h ⊢
    split at h
    · cases h
    · rename_i hb
      cases h
      rw [if_neg hb]
      rfl
  | peerClosed =>
    cases h
    rw [recvStatement, closeAndDel_tasks_eq]
  | error =>
    cases h
    rw [recvStatement, closeAndDel_tasks_eq]

/-- All statements of `recvdata` but the branch with `threadpool_add`. -/
theorem loopStatement_tasks {s : Server} {pc : LoopPc} {x : Fine} (l : List Task)
    (hnot : ∀ i, pc ≠ .tested i .dataComplete) (h : loopStatement s false pc = some x) :
    loopStatement { s with tasks := l } false pc = some ⟨{ x.server with tasks := l }, x.pc⟩ := by
  cases pc with
  | idle => cases h
  | received i len => cases h; rfl
  | counted i => cases h; rfl
  | header i len =>
    simp only [loopStatement] at h ⊢
    split at h <;> rename_i hlen <;> cases h
    · rw [if_pos hlen]
    · rw [if_neg hlen]
  | unequal i len =>
    simp only [loopStatement] at h ⊢
    split at h <;> rename_i hlen <;> cases h
    · rw [if_pos hlen]
    · rw [if_neg hlen]
  | tested i ret =>
    cases ret with
    | dataComplete => exact absurd rfl (hnot i)
    | dataError =>
      cases h
      simp only [loopStatement, recvdataBranch, closeAndDel_tasks_eq]
    | dataContinue => cases h; rfl

/-! ## The simulation -/

def Task.place (t : Task) : SlotIx × Phase := (t.arg, t.phase)

def CallerPc.asks : CallerPc SlotIx → Bool
  | .addLock _ | .addLocked _ | .addUnlock _ => true
  | _ => false

/-- Where the server of Statements.lean stands: `threadpool_add` takes effect with its store,
or, when it refuses, with the branch behind it. -/
inductive PcMatches : MainPc → CallerPc SlotIx → LoopPc → Prop where
  | loop (pc : LoopPc) (ret : Option Int) : PcMatches (.loop pc) (.returned ret) pc
  | wants (i : SlotIx) (pc : CallerPc SlotIx) (h : pc = .addLock i ∨ pc = .addLocked i) :
      PcMatches (.adding i) pc (.tested i .dataComplete)
  | refused (i : SlotIx) (pc : CallerPc SlotIx) (err : Int) (herr : err < 0)
      (h : pc = .addUnlock err ∨ pc = .returned (some err)) :
      PcMatches (.adding i) pc (.tested i .dataComplete)
  | stored (i : SlotIx) (pc : CallerPc SlotIx)
      (h : pc = .addUnlock 0 ∨ pc = .returned (some 0)) : PcMatches (.adding i) pc .idle
  | exiting (pc : CallerPc SlotIx) (h : pc.asks = false) : PcMatches .exiting pc .idle

structure Refines (p : PooledServer) (x : Fine) : Prop where
  slots : x.server.epEvents = p.server.epEvents
  kernel : x.server.kernel = p.server.kernel
  pc : PcMatches p.pc (p.pool.callers ()) x.pc
  tasks : Unfinished p.pool p.stage (x.server.tasks.map Task.place)

theorem Refines.server {p : PooledServer} {x : Fine} (h : Refines p x) :
    x.server = { p.server with tasks := x.server.tasks } := by
  show x.server = ⟨p.server.epEvents, p.server.kernel, x.server.tasks⟩
  rw [← h.slots, ← h.kernel]

theorem Unfinished.perm {l' : List (SlotIx × Phase)} (h : Unfinished s stage l)
    (hperm : l'.Perm l) : Unfinished s stage l' := by
  obtain ⟨xs, hxs, hl⟩ := h
  exact ⟨xs, hxs, hperm.trans hl⟩

theorem run_mytask (b : Boot) {x : Fine} {k : Nat} {s : Server}
    (h : mytaskStep x.server k = some s) :
    Transition.run (fineStep b) x [.mytask k] = some { x with server := s } := by
  simp [Transition.run, fineStep, h]

/-- `x` stands for `p`, and for the state that the next step of `p` leads to it needs no step
or some. -/
def Follows (b : Boot) (x : Fine) (q : PooledServer) : Prop :=
  ∃ cs x', Transition.run (fineStep b) x cs = some x' ∧ Refines q x'

variable {b : Boot} {p : PooledServer} {x : Fine}

/-- The next statement of a task in the hands of worker `i`, against the same statement of the
entry for it in the list of tasks. -/
theorem Refines.task (h : Refines p x) {i : Fin THREAD} {c : SlotIx × Phase}
    (hold : handOf (p.pool.workers i, p.stage i) = some c) (pc : WorkerPc SlotIx) (st : TaskPc) :
    ∃ k a, x.server.tasks[k]? = some a ∧ a.arg = c.1 ∧ a.phase = c.2 ∧
      ∀ t : PoolSystem THREAD Unit SlotIx, t.workers = Function.update p.pool.workers i pc →
        (∀ xs, Queued p.pool.pool p.pool.added p.pool.taken xs →
          Queued t.pool t.added t.taken xs) →
        (∀ ph', handOf (pc, st) = some (c.1, ph') →
          Unfinished t (Function.update p.stage i st)
            ((x.server.tasks.set k { a with phase := ph' }).map Task.place)) ∧
        (handOf (pc, st) = none →
          Unfinished t (Function.update p.stage i st)
            ((x.server.tasks.eraseIdx k).map Task.place)) := by
  obtain ⟨rest, hperm, hnew⟩ := h.tasks.hand hold pc st
  obtain ⟨k, a, hk, hplace, hset, herase⟩ := Tally.exists_of_map_perm hperm
  have harg : a.arg = c.1 := congrArg Prod.fst hplace
  refine ⟨k, a, hk, harg, congrArg Prod.snd hplace, fun t hworkers hqueue => ⟨?_, ?_⟩⟩
  · intro ph' hhand
    have hbase := hnew t hworkers hqueue
    rw [hhand, ← harg] at hbase
    exact hbase.perm (hset { a with phase := ph' })
  · intro hnone
    have hbase := hnew t hworkers hqueue
    rw [hnone] at hbase
    exact hbase.perm herase

theorem Follows.stays {q : PooledServer} (h : Refines q x) : Follows b x q := ⟨[], x, rfl, h⟩

theorem follows_works (h : Refines p x) {i : Fin THREAD} {t : PoolSystem THREAD Unit SlotIx}
    (hpc : ∀ arg, p.pool.workers i ≠ .working arg) (hm : PoolMoves p.pool (.worker i) t) :
    Follows b x { p with pool := t, stage := Function.update p.stage i .send } := by
  cases hm with
  | acquires i hat =>
    have hnone : handOf (p.pool.workers i, p.stage i) = none := by
      rcases hat with hat | hat <;> rw [hat] <;> rfl
    exact .stays ⟨h.slots, h.kernel, h.pc, h.tasks.idle hnone rfl rfl fun _ hxs => hxs⟩
  | waits i hat =>
    have hnone : handOf (p.pool.workers i, p.stage i) = none := by rw [hat]; rfl
    exact .stays ⟨h.slots, h.kernel, h.pc, h.tasks.idle hnone rfl rfl fun _ hxs => hxs⟩
  | leaves i hat =>
    have hnone : handOf (p.pool.workers i, p.stage i) = none := by rw [hat]; rfl
    exact .stays ⟨h.slots, h.kernel, h.pc,
      h.tasks.idle hnone rfl rfl fun _ hxs => ⟨hxs.ring, hxs.added_eq⟩⟩
  | exits i hat =>
    have hnone : handOf (p.pool.workers i, p.stage i) = none := by rw [hat]; rfl
    exact .stays ⟨h.slots, h.kernel, h.pc, h.tasks.idle hnone rfl rfl fun _ hxs => hxs⟩
  | grabs i task hat hwork hstay htask =>
    have hnone : handOf (p.pool.workers i, p.stage i) = none := by rw [hat]; rfl
    exact .stays ⟨h.slots, h.kernel, h.pc,
      h.tasks.grab hnone (count_ne_zero_of_stays hwork hstay) htask⟩
  | unlocks i task hat =>
    have hhand : handOf (p.pool.workers i, p.stage i) = some (task, .queued) := by rw [hat]; rfl
    obtain ⟨k, a, hk, -, hphase, hnext⟩ := h.task hhand (.working task) .send
    have hstep : mytaskStep x.server k =
        some { x.server with tasks := x.server.tasks.set k { a with phase := .taken } } := by
      simp [mytaskStep, hk, hphase]
    refine ⟨_, _, run_mytask b hstep, h.slots, h.kernel, h.pc, ?_⟩
    let t := { p.pool with lock := none }.setWorker i (.working task)
    exact (hnext t rfl fun _ hxs => hxs).1 .taken rfl
  | finishes i task hat => exact absurd hat (hpc task)

theorem follows_sends (h : Refines p x) {i : Fin THREAD} {arg : SlotIx}
    (hat : p.pool.workers i = .working arg) (hstage : p.stage i = .send) :
    Follows b x { p with stage := Function.update p.stage i .clearLen } := by
  have hhand : handOf (p.pool.workers i, p.stage i) = some (arg, .taken) := by
    rw [hat, hstage]
    rfl
  obtain ⟨k, a, hk, -, hphase, hnext⟩ := h.task hhand (.working arg) .clearLen
  have hstep : mytaskStep x.server k =
      some { x.server with tasks := x.server.tasks.set k { a with phase := .sent } } := by
    simp [mytaskStep, hk, hphase]
  refine ⟨_, _, run_mytask b hstep, h.slots, h.kernel, h.pc, ?_⟩
  have hsame : p.pool.workers = Function.update p.pool.workers i (.working arg) := by
    rw [← hat, Function.update_eq_self]
  exact (hnext p.pool hsame fun _ hxs => hxs).1 .sent rfl

theorem follows_clearsLen (h : Refines p x) {i : Fin THREAD} {arg : SlotIx}
    (hat : p.pool.workers i = .working arg) (hstage : p.stage i = .clearLen) :
    Follows b x { p with
      server := p.server.setSlot arg (clearLen (p.server.epEvents arg))
      stage := Function.update p.stage i .clearHead } := by
  have hhand : handOf (p.pool.workers i, p.stage i) = some (arg, .sent) := by
    rw [hat, hstage]
    rfl
  obtain ⟨k, a, hk, harg, hphase, hnext⟩ := h.task hhand (.working arg) .clearHead
  have hstep : mytaskStep x.server k =
      some { x.server.setSlot arg (clearLen (x.server.epEvents arg)) with
        tasks := x.server.tasks.set k { a with phase := .lenCleared } } := by
    simp [mytaskStep, hk, hphase, harg]
  have hsame : p.pool.workers = Function.update p.pool.workers i (.working arg) := by
    rw [← hat, Function.update_eq_self]
  refine ⟨_, _, run_mytask b hstep, ?_, h.kernel, h.pc, ?_⟩
  · simp [h.slots]
  · exact (hnext p.pool hsame fun _ hxs => hxs).1 .lenCleared rfl

theorem follows_clearsHead (h : Refines p x) {i : Fin THREAD} {arg : SlotIx}
    {t : PoolSystem THREAD Unit SlotIx} (hat : p.pool.workers i = .working arg)
    (hstage : p.stage i = .clearHead) (hm : PoolMoves p.pool (.worker i) t) :
    Follows b x { p with
      server := p.server.setSlot arg (clearHead (p.server.epEvents arg))
      pool := t } := by
  have hhand : handOf (p.pool.workers i, p.stage i) = some (arg, .lenCleared) := by
    rw [hat, hstage]
    rfl
  obtain ⟨k, a, hk, harg, hphase, hnext⟩ := h.task hhand .lock (p.stage i)
  have hstep : mytaskStep x.server k =
      some { x.server.setSlot arg (clearHead (x.server.epEvents arg)) with
        tasks := x.server.tasks.eraseIdx k } := by
    simp [mytaskStep, hk, hphase, harg]
  rw [Function.update_eq_self] at hnext
  cases hm with
  | finishes i task =>
    refine ⟨_, _, run_mytask b hstep, ?_, h.kernel, h.pc, ?_⟩
    · simp [h.slots]
    · let t := { p.pool with finished := p.pool.finished ++ [task] }.setWorker i .lock
      exact (hnext t rfl fun _ hxs => hxs).2 rfl
  | acquires i hpc => rcases hpc with hpc | hpc <;> rw [hat] at hpc <;> cases hpc
  | waits i hpc => rw [hat] at hpc; cases hpc
  | leaves i hpc => rw [hat] at hpc; cases hpc
  | grabs i task hpc => rw [hat] at hpc; cases hpc
  | unlocks i task hpc => rw [hat] at hpc; cases hpc
  | exits i hpc => rw [hat] at hpc; cases hpc

/-! ### The steps of main -/

theorem PcMatches.exiting_of {m : MainPc} {c : CallerPc SlotIx} {pc : LoopPc}
    (h : PcMatches m c pc) (hc : c.destroying = true) : m = .exiting ∧ pc = .idle := by
  cases h with
  | loop => cases hc
  | wants i c h => rcases h with rfl | rfl <;> cases hc
  | refused i c err herr h => rcases h with rfl | rfl <;> cases hc
  | stored i c h => rcases h with rfl | rfl <;> cases hc
  | exiting => exact ⟨rfl, rfl⟩

/-- In front of the store of `threadpool_add`. -/
theorem PcMatches.wants_of {m : MainPc} {c : CallerPc SlotIx} {pc : LoopPc} {i : SlotIx}
    (h : PcMatches m c pc) (hc : c = .addLock i ∨ c = .addLocked i) :
    m = .adding i ∧ pc = .tested i .dataComplete := by
  cases h with
  | loop => rcases hc with hc | hc <;> cases hc
  | wants j c h =>
    rcases hc with rfl | rfl <;> rcases h with h | h <;> cases h <;> exact ⟨rfl, rfl⟩
  | refused j c err herr h =>
    rcases hc with rfl | rfl <;> rcases h with h | h <;> cases h
  | stored j c h => rcases hc with rfl | rfl <;> rcases h with h | h <;> cases h
  | exiting c h => rcases hc with rfl | rfl <;> cases h

/-- `threadpool_add` hands its result over. -/
theorem PcMatches.returns {m : MainPc} {c : CallerPc SlotIx} {pc : LoopPc} {err : Int}
    (h : PcMatches m c pc) (hc : c = .addUnlock err) : PcMatches m (.returned (some err)) pc := by
  subst hc
  cases h with
  | wants i _ h => rcases h with h | h <;> cases h
  | refused i _ err' herr h =>
    rcases h with h | h <;> cases h
    exact .refused i _ err herr (.inr rfl)
  | stored i _ h =>
    rcases h with h | h <;> cases h
    exact .stored i _ (.inr rfl)
  | exiting _ h => cases h

theorem setCaller_unit (s : PoolSystem THREAD Unit SlotIx) (pc : CallerPc SlotIx) :
    (s.setCaller () pc).callers () = pc := by
  simp [PoolSystem.setCaller]

/-- A step of `threadpool_destroy` that does not touch the queue. -/
theorem follows_exiting (h : Refines p x) {t : PoolSystem THREAD Unit SlotIx}
    (hc : (p.pool.callers ()).destroying = true) (hcall : (t.callers ()).asks = false)
    (htasks : Unfinished t p.stage (x.server.tasks.map Task.place)) :
    Follows b x { p with pool := t } := by
  obtain ⟨hmain, hidle⟩ := h.pc.exiting_of hc
  refine .stays ⟨h.slots, h.kernel, ?_, htasks⟩
  rw [hmain, hidle]
  exact .exiting _ hcall

theorem Unfinished.wake (h : Unfinished s stage l) {workers : Fin THREAD → WorkerPc SlotIx}
    (hworkers : t.workers = workers)
    (hw : ∀ i st, handOf (workers i, st) = handOf (s.workers i, st))
    (hqueue : ∀ xs, Queued s.pool s.added s.taken xs → Queued t.pool t.added t.taken xs) :
    Unfinished t stage l := by
  obtain ⟨xs, hxs, hperm⟩ := h
  refine ⟨xs, hqueue xs hxs, ?_⟩
  rw [hworkers, inHand_wake hw]
  exact hperm

/-- A step of `threadpool_destroy` that touches neither the queue nor the workers. -/
theorem follows_destroys (h : Refines p x) {c : Unit} {pc pc' : CallerPc SlotIx}
    {t : PoolSystem THREAD Unit SlotIx} (hc : p.pool.callers c = pc) (hpc : pc.destroying = true)
    (hpc' : pc'.asks = false) (hworkers : t.workers = p.pool.workers)
    (hqueue : ∀ xs, Queued p.pool.pool p.pool.added p.pool.taken xs →
      Queued t.pool t.added t.taken xs) :
    Follows b x { p with pool := t.setCaller c pc' } := by
  refine follows_exiting h (by rw [hc]; exact hpc) ?_
    (h.tasks.wake hworkers (fun _ _ => rfl) hqueue)
  rw [setCaller_unit]
  exact hpc'

theorem follows_passes (h : Refines p x) {a : PoolAction THREAD Unit SlotIx}
    {t : PoolSystem THREAD Unit SlotIx} (ha : a.passed = true) (hm : PoolMoves p.pool a t) :
    Follows b x { p with pool := t } := by
  have hquiet (t : PoolSystem THREAD Unit SlotIx) (hworkers : t.workers = p.pool.workers)
      (hqueue : ∀ xs, Queued p.pool.pool p.pool.added p.pool.taken xs →
        Queued t.pool t.added t.taken xs) :
      Unfinished t p.stage (x.server.tasks.map Task.place) :=
    h.tasks.wake hworkers (fun _ _ => rfl) hqueue
  cases hm with
  | acquires => cases ha
  | waits => cases ha
  | leaves => cases ha
  | grabs => cases ha
  | unlocks => cases ha
  | finishes => cases ha
  | exits => cases ha
  | callsAdd => cases ha
  | callsDestroy => cases ha
  | callsInvalid => cases ha
  | addUnlockFails => cases ha
  | destroyUnlockFails => cases ha
  | signalFails => cases ha
  | broadcastFails => cases ha
  | spurious i hpc =>
    have hnone : handOf (p.pool.workers i, p.stage i) = none := by rw [hpc]; rfl
    have htasks : Unfinished (p.pool.setWorker i .woken) (Function.update p.stage i (p.stage i))
        (x.server.tasks.map Task.place) := h.tasks.idle hnone rfl rfl fun _ hxs => hxs
    rw [Function.update_eq_self] at htasks
    exact .stays ⟨h.slots, h.kernel, h.pc, htasks⟩
  | lockFailed c hpc =>
    have htasks := hquiet (p.pool.setCaller c (.returned (some threadpoolLockFailure))) rfl
      fun _ hxs => hxs
    cases hc : p.pool.callers c with
    | addLock task =>
      obtain ⟨hmain, hx⟩ := h.pc.wants_of (.inl hc)
      refine .stays ⟨h.slots, h.kernel, ?_, htasks⟩
      rw [hmain, hx, setCaller_unit]
      exact .refused task _ threadpoolLockFailure (by decide) (.inr rfl)
    | destroyLock graceful =>
      exact follows_destroys h hc rfl rfl rfl fun _ hxs => hxs
    | returned ret => rw [hc] at hpc; cases hpc
    | addLocked task => rw [hc] at hpc; cases hpc
    | addUnlock err => rw [hc] at hpc; cases hpc
    | destroyLocked graceful => rw [hc] at hpc; cases hpc
    | destroyUnlock => rw [hc] at hpc; cases hpc
    | join j err => rw [hc] at hpc; cases hpc
    | free => rw [hc] at hpc; cases hpc
    | freeLock => rw [hc] at hpc; cases hpc
  | addAcquires c ok wake task hpc hlock =>
    obtain ⟨hmain, hx⟩ := h.pc.wants_of (.inl hpc)
    refine .stays ⟨h.slots, h.kernel, ?_, hquiet _ rfl fun _ hxs => hxs⟩
    rw [hmain, hx, setCaller_unit]
    exact .wants task _ (.inr rfl)
  | addRefused c ok wake task err hpc herr =>
    obtain ⟨hmain, hx⟩ := h.pc.wants_of (.inr hpc)
    have hneg : err < 0 := by
      rcases herr with ⟨-, rfl⟩ | ⟨-, rfl⟩ <;> decide
    refine .stays ⟨h.slots, h.kernel, ?_, hquiet _ rfl fun _ hxs => hxs⟩
    rw [hmain, hx, setCaller_unit]
    exact .refused task _ err hneg (.inl rfl)
  | addStores c wake task workers hpc hroom hshut hsignal =>
    obtain ⟨hmain, hx⟩ := h.pc.wants_of (.inr hpc)
    let fd := (x.server.epEvents task).mFd
    have hstep : fineStep b x (.loop true) =
        some ⟨{ x.server with tasks := x.server.tasks ++ [newTask x.server fd task] }, .idle⟩ := by
      simp [fineStep, hx, loopStatement, recvdataBranch, fd]
    refine ⟨[.loop true], _, Transition.run_cons_eq_some.mpr ⟨_, hstep, rfl⟩, h.slots, h.kernel,
      ?_, ?_⟩
    · rw [hmain, setCaller_unit]
      exact .stored task _ (.inl rfl)
    · rw [List.map_append]
      exact h.tasks.store hroom hsignal rfl rfl rfl rfl
  | addReturns c wake err hpc =>
    refine .stays ⟨h.slots, h.kernel, ?_, hquiet _ rfl fun _ hxs => hxs⟩
    rw [setCaller_unit]
    exact h.pc.returns hpc
  | destroyAcquires c ok graceful hpc =>
    exact follows_destroys h hpc rfl rfl rfl fun _ hxs => hxs
  | destroyRefused c ok graceful hpc =>
    exact follows_destroys h hpc rfl rfl rfl fun _ hxs => hxs
  | destroyShuts c graceful hpc =>
    refine follows_exiting h (by rw [hpc]; rfl) ?_ ?_
    · rw [setCaller_unit]
      rfl
    · exact h.tasks.wake rfl
        (fun i st => broadcast_map_eq p.pool.workers (fun pc => handOf (pc, st)) rfl i)
        fun _ hxs => ⟨hxs.ring, hxs.added_eq⟩
  | destroyUnlocks c hpc =>
    exact follows_destroys h hpc rfl rfl rfl fun _ hxs => hxs
  | joins c ok j err hpc =>
    exact follows_destroys h hpc rfl rfl rfl fun _ hxs => hxs
  | joinsDone c ok j hpc =>
    exact follows_destroys h hpc rfl rfl rfl fun _ hxs => hxs
  | joinsFailed c ok j err hpc =>
    exact follows_destroys h hpc rfl rfl rfl fun _ hxs => hxs
  | freeGivesUp c ok hpc =>
    exact follows_destroys h hpc rfl rfl rfl fun _ hxs => hxs
  | freesQueue c ok hpc =>
    exact follows_destroys h hpc rfl rfl rfl fun _ hxs => hxs
  | frees c ok hpc =>
    exact follows_destroys h hpc rfl rfl rfl fun _ hxs => hxs

theorem PcMatches.of_loop {c : CallerPc SlotIx} {pc q : LoopPc} (h : PcMatches (.loop pc) c q) :
    q = pc ∧ ∃ ret, c = .returned ret := by
  cases h with
  | loop pc ret => exact ⟨rfl, ret, rfl⟩

/-- The result of `threadpool_add` is below 0 exactly when nothing was stored. -/
theorem PcMatches.of_returned {i : SlotIx} {err : Int} {q : LoopPc}
    (h : PcMatches (.adding i) (.returned (some err)) q) :
    err < 0 ∧ q = .tested i .dataComplete ∨ err = 0 ∧ q = .idle := by
  cases h with
  | wants _ _ h => rcases h with h | h <;> cases h
  | refused _ _ err' herr h =>
    rcases h with h | h <;> cases h
    exact .inl ⟨herr, rfl⟩
  | stored _ _ h =>
    rcases h with h | h <;> cases h
    exact .inr ⟨rfl, rfl⟩

/-- Every step of the server on its pool is followed by some steps of the server of
Statements.lean, or by none. -/
theorem follows_step {q : PooledServer} {a : PooledAction} (h : Refines p x)
    (hm : PooledMoves b p a q) :
    Follows b x q := by
  have htake {a : FineAction} {x' : Fine} (hs : fineStep b x a = some x')
      (hq : Refines q x') : Follows b x q :=
    ⟨[a], x', Transition.run_cons_eq_some.mpr ⟨x', hs, rfl⟩, hq⟩
  have hpcs := h.pc
  cases hm with
  | accepts o s hpc hs =>
    rw [hpc] at hpcs
    obtain ⟨hx, ret, hret⟩ := hpcs.of_loop
    have hacc := acceptconnect_tasks x.server.tasks hs
    rw [← h.server] at hacc
    have hstep : fineStep b x (.acceptconnect o) =
        some ⟨{ s with tasks := x.server.tasks }, .idle⟩ := by
      simp [fineStep, hx, hacc]
    refine htake hstep ⟨rfl, rfl, ?_, h.tasks⟩
    rw [hpc, hret]
    exact .loop _ ret
  | receives i r y hpc hi hs =>
    rw [hpc] at hpcs
    obtain ⟨hx, ret, hret⟩ := hpcs.of_loop
    have hrecv := recvStatement_tasks x.server.tasks hs
    rw [← h.server] at hrecv
    rw [← h.slots] at hi
    have hstep : fineStep b x (.recv i r) =
        some ⟨{ y.server with tasks := x.server.tasks }, y.pc⟩ := by
      simp [fineStep, hx, hi, hrecv]
    refine htake hstep ⟨rfl, rfl, ?_, h.tasks⟩
    rw [hret]
    exact .loop _ ret
  | states pc y hpc hnot hs =>
    rw [hpc] at hpcs
    obtain ⟨hx, ret, hret⟩ := hpcs.of_loop
    have hloop := loopStatement_tasks x.server.tasks hnot hs
    rw [← h.server] at hloop
    have hstep : fineStep b x (.loop false) =
        some ⟨{ y.server with tasks := x.server.tasks }, y.pc⟩ := by
      simp [fineStep, hx, hloop]
    refine htake hstep ⟨rfl, rfl, ?_, h.tasks⟩
    rw [hret]
    exact .loop _ ret
  | asks i t hpc hs =>
    rw [hpc] at hpcs
    obtain ⟨hx, ret, hret⟩ := hpcs.of_loop
    have htasks := h.tasks
    cases (poolStep_cases hs).2 with
    | callsAdd =>
      refine .stays ⟨h.slots, h.kernel, ?_, htasks⟩
      rw [hx, setCaller_unit]
      exact .wants i _ (.inl rfl)
  | refused i err hpc hret herr =>
    rw [hpc, hret] at hpcs
    obtain ⟨-, hx⟩ | ⟨hzero, -⟩ := hpcs.of_returned
    · have hclose := closeAndDel_tasks_eq p.server i x.server.tasks
      rw [← h.server] at hclose
      have hstep : fineStep b x (.loop false) =
          some ⟨{ closeAndDel p.server i with tasks := x.server.tasks }, .idle⟩ := by
        simp [fineStep, hx, loopStatement, recvdataBranch, hclose]
      refine htake hstep ⟨rfl, rfl, ?_, h.tasks⟩
      rw [hret]
      exact .loop _ _
    · omega
  | told i err hpc hret herr =>
    rw [hpc, hret] at hpcs
    obtain ⟨hneg, -⟩ | ⟨-, hx⟩ := hpcs.of_returned
    · exact absurd hneg herr
    · refine .stays ⟨h.slots, h.kernel, ?_, h.tasks⟩
      rw [hret, hx]
      exact .loop _ _
  | leaves t hpc hs =>
    rw [hpc] at hpcs
    obtain ⟨hx, ret, hret⟩ := hpcs.of_loop
    have htasks := h.tasks
    cases (poolStep_cases hs).2 with
    | callsDestroy =>
      refine .stays ⟨h.slots, h.kernel, ?_, htasks⟩
      rw [hx, setCaller_unit]
      exact .exiting _ rfl
  | passes act a t hact hs =>
    exact follows_passes h (passed_of_toPool hact) (poolStep_cases hs).2
  | sends i arg hpc hstage => exact follows_sends h hpc hstage
  | clearsLen i arg hpc hstage => exact follows_clearsLen h hpc hstage
  | clearsHead i arg t hpc hstage hs =>
    exact follows_clearsHead h hpc hstage (poolStep_cases hs).2
  | works i t hpc hs => exact follows_works h hpc (poolStep_cases hs).2

/-! ### Runs -/

theorem tasks_start (b : Boot) : b.start.tasks = [] := by
  rw [start_eq]
  split <;> rfl

theorem refines_start (b : Boot) (o : CreateOutcome SlotIx) :
    Refines (PooledServer.start b (startedPool QUEUE THREAD o)) (Fine.start b) := by
  have hsize : 0 < QUEUE := by decide
  refine ⟨rfl, rfl, .loop _ _, [], ?_, ?_⟩
  · exact ⟨Ring.represents_nil hsize (startedPool_queue_length QUEUE THREAD o), rfl⟩
  · have hnone : inHand (fun _ => .lock) (fun _ => TaskPc.send) = [] :=
      Tally.collect_eq_nil fun _ => rfl
    simp [Fine.start, PooledServer.start, PoolSystem.start, tasks_start, hnone]

theorem taskPool_eq {o : CreateOutcome SlotIx} {pool : ThreadpoolT SlotIx}
    (h : threadpoolCreate THREAD QUEUE o = .pool pool) : pool = startedPool QUEUE THREAD o := by
  obtain ⟨-, m, rfl, hm⟩ := launched_eq (.inl h)
  rw [hm h]
  rfl

/-- **Refinement.** Every run of the server on its thread pool, in any order of the statements
of `main`, of the pool and of the tasks, is a run of the server whose pool is a list of
unfinished tasks, with the same slots and descriptors, and with a task in the list for each
one that a worker has in hand or that the circular array holds. -/
theorem pooled_refines_statements {b : Boot} {o : CreateOutcome SlotIx}
    {pool : ThreadpoolT SlotIx} (hpool : threadpoolCreate THREAD QUEUE o = .pool pool)
    {p : PooledServer} {as : List PooledAction}
    (hr : Transition.run (pooledStep b) (PooledServer.start b pool) as = some p) :
    ∃ cs x, Transition.run (fineStep b) (Fine.start b) cs = some x ∧ Refines p x := by
  rw [taskPool_eq hpool] at hr
  refine Transition.run_simulation (fun p a q x hR hs => ?_) (refines_start b o) hr
  exact follows_step hR (pooledStep_cases hs)

/-- A pool of 32 threads, and a run in which a client sends a frame that is put into the queue. -/
def taskPool : ThreadpoolT SlotIx := startedPool QUEUE THREAD (allWell 0)

theorem taskPool_created : threadpoolCreate THREAD QUEUE (allWell 0) = .pool taskPool := rfl

def queuedRun : List PooledAction :=
  [.acceptconnect ⟨some 5, true, true⟩, .recv 0 (.data [0, 1, 65]), .next, .next, .next, .next,
   .add none, .add none]

set_option maxRecDepth 4000 in
theorem pooled_refines_statements_queuedRun :
    ∃ p, Transition.run (pooledStep plainBoot) (PooledServer.start plainBoot taskPool) queuedRun =
        some p ∧
      ∃ cs x, Transition.run (fineStep plainBoot) (Fine.start plainBoot) cs = some x ∧
        Refines p x := by
  obtain ⟨p, hr⟩ : ∃ p, Transition.run (pooledStep plainBoot)
    (PooledServer.start plainBoot taskPool) queuedRun = some p := ⟨_, rfl⟩
  exact ⟨p, hr, pooled_refines_statements taskPool_created hr⟩

end Netepoll
