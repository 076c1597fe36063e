import Netepoll.Lib.Transition
import Netepoll.Tcptool

/-! `read_t` and `accept_t` statement by statement, one call after another in one process,
with the delivery of SIGALRM as a step that may come between any two statements and while a
system call blocks. The functions of `Tcptool.lean` are runs of these steps. -/

namespace Netepoll

open Memory

/-- The alarm of the current call: not set or cancelled, pending, or delivered. -/
inductive AlarmState where
  | off
  | pending
  | delivered
  deriving DecidableEq

inductive CallPc where
  | idle
  /-- `alarm(Timeout)` is done, `_Exp_flag = 0` is not -/
  | alarmSet
  /-- at the test of the loop -/
  | loop
  /-- at the call of `read` -/
  | issue
  /-- in `read` -/
  | reading
  /-- `read` has returned `i > 0` -/
  | advance (i : Nat)
  | eof
  /-- `read` has returned -1 -/
  | failed (errno : Nat)
  /-- behind `alarm(0)`, at `if( _Exp_flag )` -/
  | report (errno : Nat)
  /-- behind the loop -/
  | full
  | acceptAlarmSet
  /-- at the call of `accept` -/
  | acceptIssue
  /-- in `accept` -/
  | accepting
  | acceptFailed (errno : Nat)
  | acceptReport (errno : Nat)
  | accepted (fd : Nat)
  deriving DecidableEq

/-- What a call has come to. -/
inductive Cause where
  | nullBuf
  | full
  | eof
  | readError (errno : Nat)
  | acceptError (errno : Nat)
  | accepted (fd : Nat)
  deriving DecidableEq

/-- The return code, for a value of `_Exp_flag`. -/
def Cause.code (expFlag : Bool) : Cause → Int
  | .nullBuf => -43
  | .full => 0
  | .eof => -1
  | .readError errno => if expFlag then -2 else if errno = ECONNRESET then -1 else -90
  | .acceptError _ => if expFlag then -2 else -208
  | .accepted fd => fd

/-- A call that has returned: its code, and how it came to it. -/
structure Returned where
  code : Int
  cause : Cause
  timeout : Nat
  delivered : Bool
  ownFlag : Bool
  deriving DecidableEq

structure Process where
  pc : CallPc
  timeout : Nat
  readLen : Int
  len : Nat
  expFlag : Bool
  alarm : AlarmState
  /-- What `_Exp_flag` would be had it been clear at the start of the call. -/
  ownFlag : Bool
  /-- the latest call that has returned -/
  returned : Option Returned
  deriving DecidableEq

def Process.start : Process := ⟨.idle, 0, 0, 0, false, .off, false, none⟩

inductive CallAction where
  /-- `read_t`, with `buf` false for a `Buf` that is `NULL` -/
  | readT (buf : Bool) (readLen timeout : Int)
  | acceptT (timeout : Int)
  /-- the next statement -/
  | next
  | data (n : Nat)
  | eof
  | error (errno : Nat)
  | conn (fd : Nat)
  | sigalrm
  deriving DecidableEq

/-- `if( Timeout>0 ) alarm(0)`. -/
def Process.cancel (s : Process) : Process :=
  { s with alarm := if 0 < s.timeout ∧ s.alarm = .pending then .off else s.alarm }

def Process.ret (s : Process) (cause : Cause) : Process :=
  { s with
    pc := .idle
    returned := some ⟨cause.code s.expFlag, cause, s.timeout, s.alarm = .delivered, s.ownFlag⟩ }

/-- A call begins: a `Timeout` below 0 is set to 0, and the alarm is set for a positive one. -/
def Process.begin (s : Process) (timeout : Int) (timed untimed : CallPc) : Process :=
  { s with
    pc := if 0 < timeout then timed else untimed
    timeout := timeout.toNat
    alarm := if 0 < timeout then .pending else .off
    ownFlag := false }

def Process.clearFlag (s : Process) (first : CallPc) : Process :=
  { s with pc := first, expFlag := false, ownFlag := false }

def nextStatement (s : Process) : Option Process :=
  match s.pc with
  | .idle => none
  | .alarmSet => some (s.clearFlag .loop)
  | .loop => some { s with pc := if s.len < s.readLen then .issue else .full }
  | .issue => some { s with pc := .reading }
  | .reading => none
  | .advance i => some { s with pc := .loop, len := s.len + i }
  | .eof => some (s.cancel.ret .eof)
  | .failed errno => some { s.cancel with pc := .report errno }
  | .report errno => some (s.ret (.readError errno))
  | .full => some (s.cancel.ret .full)
  | .acceptAlarmSet => some (s.clearFlag .acceptIssue)
  | .acceptIssue => some { s with pc := .accepting }
  | .accepting => none
  | .acceptFailed errno => some { s.cancel with pc := .acceptReport errno }
  | .acceptReport errno => some (s.ret (.acceptError errno))
  | .accepted fd => some (s.cancel.ret (.accepted fd))

/-- Where a system call that is interrupted returns to. -/
def CallPc.interrupted : CallPc → CallPc
  | .reading => .failed EINTR
  | .accepting => .acceptFailed EINTR
  | pc => pc

/-- `_timeout_proc` runs. A system call that blocks is not restarted. -/
def Process.deliver (s : Process) : Process :=
  { s with pc := s.pc.interrupted, expFlag := true, alarm := .delivered, ownFlag := true }

/-- A system call returns -1. -/
def CallPc.erring (errno : Nat) : CallPc → Option CallPc
  | .reading => some (.failed errno)
  | .accepting => some (.acceptFailed errno)
  | _ => none

def callStep (s : Process) : CallAction → Option Process
  | .readT buf readLen timeout =>
    if s.pc ≠ .idle then none
    else if buf then
      some { s.begin timeout .alarmSet .loop with readLen := readLen, len := 0 }
    else some ({ s with timeout := timeout.toNat, alarm := .off, ownFlag := false }.ret .nullBuf)
  | .acceptT timeout =>
    if s.pc ≠ .idle then none else some (s.begin timeout .acceptAlarmSet .acceptIssue)
  | .next => nextStatement s
  | .data n =>
    if s.pc = .reading ∧ 0 < n ∧ s.len + n ≤ s.readLen then some { s with pc := .advance n }
    else none
  | .eof => if s.pc = .reading then some { s with pc := .eof } else none
  | .error errno => (s.pc.erring errno).map fun pc => { s with pc := pc }
  | .conn fd => if s.pc = .accepting then some { s with pc := .accepted fd } else none
  | .sigalrm => if s.alarm = .pending then some s.deliver else none

/-- What a statement makes of the state, one case for each kind of statement. -/
inductive CallStatement (s : Process) : Process → Prop where
  | clearFlag {first : CallPc} (hpc : s.pc = .alarmSet ∧ first = .loop ∨
      s.pc = .acceptAlarmSet ∧ first = .acceptIssue) : CallStatement s (s.clearFlag first)
  | test (hpc : s.pc = .loop) :
      CallStatement s { s with pc := if s.len < s.readLen then .issue else .full }
  | enter {pc : CallPc} (hpc : s.pc = .issue ∧ pc = .reading ∨
      s.pc = .acceptIssue ∧ pc = .accepting) : CallStatement s { s with pc := pc }
  | advance {i : Nat} (hpc : s.pc = .advance i) :
      CallStatement s { s with pc := .loop, len := s.len + i }
  | finish {cause : Cause} (hpc : s.pc = .eof ∧ cause = .eof ∨ s.pc = .full ∧ cause = .full ∨
      ∃ fd, s.pc = .accepted fd ∧ cause = .accepted fd) : CallStatement s (s.cancel.ret cause)
  | cancel {pc : CallPc} {errno : Nat} (hpc : s.pc = .failed errno ∧ pc = .report errno ∨
      s.pc = .acceptFailed errno ∧ pc = .acceptReport errno) :
      CallStatement s { s.cancel with pc := pc }
  | report {cause : Cause} {errno : Nat} (hpc : s.pc = .report errno ∧ cause = .readError errno ∨
      s.pc = .acceptReport errno ∧ cause = .acceptError errno) : CallStatement s (s.ret cause)

theorem nextStatement_cases {s t : Process} (hs : nextStatement s = some t) :
    CallStatement s t := by
  unfold nextStatement at hs
  split at hs
  case h_1 => cases hs
  case h_2 hpc => exact Option.some.inj hs ▸ .clearFlag (.inl ⟨hpc, rfl⟩)
  case h_3 hpc => exact Option.some.inj hs ▸ .test hpc
  case h_4 hpc => exact Option.some.inj hs ▸ .enter (.inl ⟨hpc, rfl⟩)
  case h_5 => cases hs
  case h_6 i hpc => exact Option.some.inj hs ▸ .advance hpc
  case h_7 hpc => exact Option.some.inj hs ▸ .finish (.inl ⟨hpc, rfl⟩)
  case h_8 errno hpc => exact Option.some.inj hs ▸ .cancel (.inl ⟨hpc, rfl⟩)
  case h_9 errno hpc => exact Option.some.inj hs ▸ .report (.inl ⟨hpc, rfl⟩)
  case h_10 hpc => exact Option.some.inj hs ▸ .finish (.inr (.inl ⟨hpc, rfl⟩))
  case h_11 hpc => exact Option.some.inj hs ▸ .clearFlag (.inr ⟨hpc, rfl⟩)
  case h_12 hpc => exact Option.some.inj hs ▸ .enter (.inr ⟨hpc, rfl⟩)
  case h_13 => cases hs
  case h_14 errno hpc => exact Option.some.inj hs ▸ .cancel (.inr ⟨hpc, rfl⟩)
  case h_15 errno hpc => exact Option.some.inj hs ▸ .report (.inr ⟨hpc, rfl⟩)
  case h_16 fd hpc => exact Option.some.inj hs ▸ .finish (.inr (.inr ⟨fd, hpc, rfl⟩))

/-! ## The functions are runs of statements -/

section Runs

open Transition

variable {κ : Type} {sys : Syscalls κ}

/-- What `read` promises: at most the bytes it was asked for, and a signal only when it was
interrupted by it. -/
structure Syscalls.Honest (sys : Syscalls κ) : Prop where
  room : ∀ n k bs expired k', sys.read n k = (.data bs, expired, k') → bs.length ≤ n
  signal : ∀ n k r k', sys.read n k = (r, true, k') → r = .error EINTR

/-- The process is at the end of a call, or in the system call that blocks. -/
def Process.EndsAs (s : Process) (blocked : CallPc) : Outcome → Prop
  | .ret code => s.pc = .idle ∧ s.returned.map Returned.code = some code
  | .waiting => s.pc = blocked

/-- From the head of the loop into `read`. -/
theorem run_issue {s : Process} (hpc : s.pc = .loop) (hlt : (s.len : Int) < s.readLen)
    (as : List CallAction) :
    run callStep s (.next :: .next :: as) = run callStep { s with pc := .reading } as := by
  rw [run, callStep, nextStatement, hpc]
  simp only [Option.bind_some, if_pos hlt]
  rfl

/-- From a `read` that has failed to the end of the call. -/
theorem run_failed {s : Process} {errno : Nat} (hpc : s.pc = .failed errno) :
    ∃ t, run callStep s [.next, .next] = some t ∧ t.pc = .idle ∧
      t.returned.map Returned.code = some ((Cause.readError errno).code s.expFlag) := by
  refine ⟨({ s.cancel with pc := .report errno }).ret (.readError errno), ?_, rfl, rfl⟩
  rw [run, callStep, nextStatement, hpc]
  rfl

/-- From the head of the loop to the end of a call that needs no more bytes. -/
theorem run_full {s : Process} (hpc : s.pc = .loop) (hge : ¬ (s.len : Int) < s.readLen) :
    ∃ t, run callStep s [.next, .next] = some t ∧ t.pc = .idle ∧
      t.returned.map Returned.code = some 0 := by
  refine ⟨({ s with pc := .full }).cancel.ret .full, ?_, rfl, rfl⟩
  rw [run, callStep, nextStatement, hpc]
  simp only [Option.bind_some, if_neg hge]
  rfl

/-- From the head of the loop, in a process that agrees with the function on the flag and
on whether the alarm may still go off. -/
theorem run_readTLoop (hsys : sys.Honest) {readLen timeout fuel : Nat} {f : Bool}
    {buf : Nat → UInt8} {len : Nat} {k : κ} {s : Process} (hfuel : readLen ≤ len + fuel)
    (hpc : s.pc = .loop) (hlen : s.len = len) (hread : s.readLen.toNat = readLen)
    (hf : s.expFlag = f)
    (halarm : s.alarm = .pending ∨ ∀ n k, (sys.read n k).2.1 = false) :
    ∃ as t, run callStep s as = some t ∧
      t.EndsAs .reading (readTLoop sys readLen timeout fuel f buf len k).outcome := by
  induction fuel generalizing f buf len k s with
  | zero =>
    obtain ⟨t, hrun, hend⟩ := run_full hpc (by omega)
    refine ⟨[.next, .next], t, hrun, ?_⟩
    rw [readTLoop_done (by omega)]
    exact hend
  | succ fuel ih =>
    by_cases hle : readLen ≤ len
    · obtain ⟨t, hrun, hend⟩ := run_full hpc (by omega)
      refine ⟨[.next, .next], t, hrun, ?_⟩
      rw [readTLoop_done hle]
      exact hend
    have hlt : (s.len : Int) < s.readLen := by omega
    rcases hr : sys.read (readLen - len) k with ⟨r, expired, k'⟩
    cases expired with
    | true =>
      obtain rfl := hsys.signal _ _ _ _ hr
      have hpending : s.alarm = .pending := halarm.resolve_right fun hnever => by
        have := hnever (readLen - len) k
        rw [hr] at this
        cases this
      have hfailed : ({ s with pc := .reading } : Process).deliver.pc = .failed EINTR := rfl
      obtain ⟨t, hrun, hend⟩ := run_failed hfailed
      refine ⟨.next :: .next :: .sigalrm :: [.next, .next], t, ?_, ?_⟩
      · rw [run_issue hpc hlt, run, callStep, if_pos hpending]
        exact hrun
      · rw [readTLoop_error hle hr, Bool.or_true]
        exact hend
    | false =>
      cases r with
      | blocked =>
        refine ⟨.next :: .next :: [], { s with pc := .reading }, run_issue hpc hlt [], ?_⟩
        rw [readTLoop_blocked hle hr]
        rfl
      | error errno =>
        have hfailed : ({ s with pc := .failed errno } : Process).pc = .failed errno := rfl
        obtain ⟨t, hrun, hend⟩ := run_failed hfailed
        refine ⟨.next :: .next :: .error errno :: [.next, .next], t, ?_, ?_⟩
        · rw [run_issue hpc hlt]
          exact hrun
        · rw [readTLoop_error hle hr, Bool.or_false, ← hf]
          exact hend
      | data bs =>
      cases bs with
      | nil =>
        refine ⟨.next :: .next :: [.eof, .next], ({ s with pc := .eof }).cancel.ret .eof,
          run_issue hpc hlt _, ?_⟩
        rw [readTLoop_eof hle hr]
        exact ⟨rfl, rfl⟩
      | cons b bs =>
        have hroom := hsys.room _ _ _ _ _ hr
        rw [List.length_cons] at hroom
        have hlen' : ({ s with pc := .loop, len := s.len + (bs.length + 1) } : Process).len =
            len + (bs.length + 1) := by simp only [hlen]
        obtain ⟨as, t, hrun, hmatch⟩ := ih (by omega) rfl hlen' hread hf halarm
        refine ⟨.next :: .next :: .data (bs.length + 1) :: .next :: as, t, ?_, ?_⟩
        · rw [run_issue hpc hlt, run, callStep, if_pos ⟨rfl, by omega, by simp only; omega⟩]
          exact hrun
        · rw [readTLoop_data hle hr, Bool.or_false]
          exact hmatch

/-- A call of `read_t` is a run of its statements. -/
theorem run_readT (hsys : sys.Honest) {s : Process} (hpc : s.pc = .idle)
    (buf : Option (Nat → UInt8)) (readLen timeout : Int) (k : κ)
    (halarm : 0 < timeout ∨ ∀ n k, (sys.read n k).2.1 = false) :
    ∃ as t, run callStep s (.readT buf.isSome readLen timeout :: as) = some t ∧
      t.EndsAs .reading (readT sys buf readLen timeout s.expFlag k).outcome := by
  have hidle : ¬ s.pc ≠ .idle := fun h => h hpc
  cases buf with
  | none =>
    refine ⟨[], ({ s with timeout := timeout.toNat, alarm := .off, ownFlag := false }).ret
      .nullBuf, ?_, rfl, rfl⟩
    rw [run, callStep, if_neg hidle]
    rfl
  | some buf =>
    obtain ⟨u, hu⟩ : ∃ u : Process,
        u = { s.begin timeout .alarmSet .loop with readLen := readLen, len := 0 } := ⟨_, rfl⟩
    have hfirst : callStep s (.readT true readLen timeout) = some u := by
      rw [callStep, if_neg hidle, if_pos rfl, hu]
    have hfuel : readLen.toNat ≤ 0 + readLen.toNat := by omega
    by_cases hT : 0 < timeout
    · have hT' : 0 < timeout.toNat := by omega
      have hset : u.pc = .alarmSet ∧ u.alarm = .pending := by
        rw [hu, Process.begin, if_pos hT, if_pos hT]
        exact ⟨rfl, rfl⟩
      have hlen : (u.clearFlag .loop).len = 0 := by rw [hu]; rfl
      have hread : (u.clearFlag .loop).readLen.toNat = readLen.toNat := by rw [hu]; rfl
      obtain ⟨as, t, hrun, hend⟩ :=
        run_readTLoop hsys hfuel rfl hlen hread rfl (.inl hset.2)
      refine ⟨.next :: as, t, ?_, ?_⟩
      · rw [run, Option.isSome_some, hfirst, Option.bind_some, run, callStep, nextStatement,
          hset.1]
        exact hrun
      · rw [readT]
        simp only [if_pos hT']
        exact hend
    · have hT' : ¬ 0 < timeout.toNat := by omega
      have hpcu : u.pc = .loop := by rw [hu, Process.begin, if_neg hT]
      have hlen : u.len = 0 := by rw [hu]
      have hread : u.readLen.toNat = readLen.toNat := by rw [hu]
      have hflag : u.expFlag = s.expFlag := by rw [hu]; rfl
      obtain ⟨as, t, hrun, hend⟩ :=
        run_readTLoop hsys hfuel hpcu hlen hread hflag (.inr (halarm.resolve_left hT))
      refine ⟨as, t, ?_, ?_⟩
      · rw [run, Option.isSome_some, hfirst]
        exact hrun
      · rw [readT]
        simp only [if_neg hT']
        exact hend

/-- From an `accept` that has failed to the end of the call. -/
theorem run_acceptFailed {s : Process} {errno : Nat} (hpc : s.pc = .acceptFailed errno) :
    ∃ t, run callStep s [.next, .next] = some t ∧ t.pc = .idle ∧
      t.returned.map Returned.code = some ((Cause.acceptError errno).code s.expFlag) := by
  refine ⟨({ s.cancel with pc := .acceptReport errno }).ret (.acceptError errno), ?_, rfl, rfl⟩
  rw [run, callStep, nextStatement, hpc]
  rfl

/-- What `accept_t` makes of the result of `accept`. -/
def acceptOutcome (expFlag : Bool) : AcceptReturn → Outcome
  | .blocked => .waiting
  | .error _ => .ret (if expFlag then -2 else -208)
  | .conn fd => .ret fd

theorem acceptT_outcome (calls : AcceptCalls κ) (timeout : Int) (f : Bool) (k : κ) :
    (acceptT calls timeout f k).outcome =
      acceptOutcome ((if 0 < timeout then false else f) ||
          (calls.accept (if 0 < timeout then calls.alarm timeout.toNat k else k)).2.1)
        (calls.accept (if 0 < timeout then calls.alarm timeout.toNat k else k)).1 := by
  rw [acceptT]
  rcases calls.accept (if 0 < timeout then calls.alarm timeout.toNat k else k) with
    ⟨r, expired, k'⟩
  cases r with
  | conn fd => rfl
  | error errno => rfl
  | blocked => rfl

theorem run_accept {s : Process} {r : AcceptReturn} {expired : Bool}
    (hpc : s.pc = .acceptIssue)
    (hexp : expired = true → r = .error EINTR ∧ s.alarm = .pending) :
    ∃ as t, run callStep s as = some t ∧
      t.EndsAs .accepting (acceptOutcome (s.expFlag || expired) r) := by
  have hissue : ∀ as, run callStep s (.next :: as) =
      run callStep { s with pc := .accepting } as := fun as => by
    rw [run, callStep, nextStatement, hpc]
    rfl
  cases expired with
  | true =>
    obtain ⟨rfl, hpending⟩ := hexp rfl
    have hfailed : ({ s with pc := .accepting } : Process).deliver.pc = .acceptFailed EINTR := rfl
    obtain ⟨t, hrun, hend⟩ := run_acceptFailed hfailed
    refine ⟨.next :: .sigalrm :: [.next, .next], t, ?_, ?_⟩
    · rw [hissue, run, callStep, if_pos hpending]
      exact hrun
    · rw [Bool.or_true]
      exact hend
  | false =>
    rw [Bool.or_false]
    cases r with
    | blocked => exact ⟨[.next], { s with pc := .accepting }, hissue [], rfl⟩
    | error errno =>
      have hfailed : ({ s with pc := .acceptFailed errno } : Process).pc =
          .acceptFailed errno := rfl
      obtain ⟨t, hrun, hend⟩ := run_acceptFailed hfailed
      refine ⟨.next :: .error errno :: [.next, .next], t, ?_, hend⟩
      rw [hissue]
      exact hrun
    | conn fd =>
      exact ⟨.next :: [.conn fd, .next],
        ({ s with pc := .accepted fd }).cancel.ret (.accepted fd), hissue _, rfl, rfl⟩

/-- A call of `accept_t` is a run of its statements. -/
theorem run_acceptT {calls : AcceptCalls κ}
    (hsignal : ∀ k r k', calls.accept k = (r, true, k') → r = .error EINTR) {s : Process}
    (hpc : s.pc = .idle) (timeout : Int) (k : κ)
    (halarm : 0 < timeout ∨ ∀ k, (calls.accept k).2.1 = false) :
    ∃ as t, run callStep s (.acceptT timeout :: as) = some t ∧
      t.EndsAs .accepting (acceptT calls timeout s.expFlag k).outcome := by
  have hidle : ¬ s.pc ≠ .idle := fun h => h hpc
  rw [acceptT_outcome]
  obtain ⟨k₁, hk⟩ : ∃ k₁, (if 0 < timeout then calls.alarm timeout.toNat k else k) = k₁ :=
    ⟨_, rfl⟩
  rcases hr : calls.accept k₁ with ⟨r, expired, k'⟩
  rw [hk, hr]
  have hsig : expired = true → r = .error EINTR := fun he => hsignal k₁ r k' (he ▸ hr)
  by_cases hT : 0 < timeout
  · have hset : (s.begin timeout .acceptAlarmSet .acceptIssue).pc = .acceptAlarmSet ∧
        (s.begin timeout .acceptAlarmSet .acceptIssue).alarm = .pending := by
      rw [Process.begin, if_pos hT, if_pos hT]
      exact ⟨rfl, rfl⟩
    have hissue : ((s.begin timeout .acceptAlarmSet .acceptIssue).clearFlag .acceptIssue).pc =
        .acceptIssue := rfl
    obtain ⟨as, t, hrun, hend⟩ := run_accept hissue fun he => ⟨hsig he, hset.2⟩
    refine ⟨.next :: as, t, ?_, ?_⟩
    · rw [run, callStep, if_neg hidle, Option.bind_some, run, callStep, nextStatement, hset.1]
      exact hrun
    · rw [if_pos hT]
      exact hend
  · have hissue : (s.begin timeout .acceptAlarmSet .acceptIssue).pc = .acceptIssue := by
      rw [Process.begin, if_neg hT]
    have hexp : expired = true → r = .error EINTR ∧
        (s.begin timeout .acceptAlarmSet .acceptIssue).alarm = .pending := fun he => by
      have hnever := halarm.resolve_left hT k₁
      rw [hr, he] at hnever
      cases hnever
    obtain ⟨as, t, hrun, hend⟩ := run_accept hissue hexp
    refine ⟨as, t, ?_, ?_⟩
    · rw [run, callStep, if_neg hidle]
      exact hrun
    · rw [if_neg hT]
      exact hend

end Runs

end Netepoll
