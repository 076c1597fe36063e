import Netepoll.Lib.Memory

/-! `read_t`, `read_t_r`, `accept_t` and `accept_t_r` of lib_s/base/tcptool.c, over any
kernel that answers their system calls. Return codes are the values of `-__LINE__` in that file. -/

namespace Netepoll

open Memory

def EINTR : Nat := 4

def ECONNRESET : Nat := 104

/-- What a `read` does: it returns a number of bytes, none at the end of the stream; or
-1 with an `errno`; or it never returns. -/
inductive ReadReturn where
  | data (bs : List UInt8)
  | error (errno : Nat)
  | blocked
  deriving DecidableEq

inductive SelectReturn where
  | ready
  | timeout
  | error
  deriving DecidableEq

/-- The system calls as functions on the state of a kernel. With its result `read` says
whether `_timeout_proc` has run since the call before. -/
structure Syscalls (κ : Type) where
  alarm : Nat → κ → κ
  read : Nat → κ → ReadReturn × Bool × κ
  select : Nat → κ → SelectReturn × κ

inductive Outcome where
  | ret (code : Int)
  | waiting
  deriving DecidableEq

/-- How a call ends: its result, the bytes behind `Buf`, how many of them it has stored,
the flag `_Exp_flag` and the kernel. -/
structure ReadEnd (κ : Type) where
  outcome : Outcome
  buf : Nat → UInt8
  len : Nat
  expFlag : Bool
  kernel : κ

section Calls

variable {κ : Type} (sys : Syscalls κ)

/-- `if (Timeout > 0) alarm(0)`. -/
def cancelAlarm (timeout : Nat) (k : κ) : κ := if 0 < timeout then sys.alarm 0 k else k

/-- The loop of `read_t` with `len` bytes read so far. Every turn reads at least one
byte, so `Read_len` turns are enough. -/
def readTLoop (readLen timeout : Nat) : Nat → Bool → (Nat → UInt8) → Nat → κ → ReadEnd κ
  | 0, expFlag, buf, len, k => ⟨.ret 0, buf, len, expFlag, cancelAlarm sys timeout k⟩
  | fuel + 1, expFlag, buf, len, k =>
    if readLen ≤ len then ⟨.ret 0, buf, len, expFlag, cancelAlarm sys timeout k⟩
    else
      let (r, expired, k) := sys.read (readLen - len) k
      let expFlag := expFlag || expired
      match r with
      | .blocked => ⟨.waiting, buf, len, expFlag, k⟩
      | .error errno =>
        ⟨.ret (if expFlag then -2 else if errno = ECONNRESET then -1 else -90), buf, len,
          expFlag, cancelAlarm sys timeout k⟩
      | .data [] => ⟨.ret (-1), buf, len, expFlag, cancelAlarm sys timeout k⟩
      | .data (b :: bs) =>
        readTLoop readLen timeout fuel expFlag (store buf len (b :: bs))
          (len + (b :: bs).length) k

/-- `read_t(Read_fd, Buf, Read_len, Timeout)`, with `Buf` `none` for `NULL`. -/
def readT (buf : Option (Nat → UInt8)) (readLen timeout : Int) (expFlag : Bool) (k : κ) :
    ReadEnd κ :=
  match buf with
  | none => ⟨.ret (-43), fun _ => 0, 0, expFlag, k⟩
  | some buf =>
    -- a `Timeout` below 0 is set to 0
    if 0 < timeout.toNat then
      readTLoop sys readLen.toNat timeout.toNat readLen.toNat false buf 0
        (sys.alarm timeout.toNat k)
    else readTLoop sys readLen.toNat timeout.toNat readLen.toNat expFlag buf 0 k

/-- The `read` of `read_t_r` and what follows it, before the next turn. -/
def readTRRead (readLen : Nat) (next : (Nat → UInt8) → Nat → κ → ReadEnd κ) (expFlag : Bool)
    (buf : Nat → UInt8) (len : Nat) (k : κ) : ReadEnd κ :=
  let (r, _, k) := sys.read (readLen - len) k
  match r with
  | .blocked => ⟨.waiting, buf, len, expFlag, k⟩
  | .error errno => ⟨.ret (if errno = ECONNRESET then -1 else -163), buf, len, expFlag, k⟩
  | .data [] => ⟨.ret (-1), buf, len, expFlag, k⟩
  | .data (b :: bs) => next (store buf len (b :: bs)) (len + (b :: bs).length) k

/-- The loop of `read_t_r`. -/
def readTRLoop (readLen timeout : Nat) : Nat → Bool → (Nat → UInt8) → Nat → κ → ReadEnd κ
  | 0, expFlag, buf, len, k => ⟨.ret 0, buf, len, expFlag, k⟩
  | fuel + 1, expFlag, buf, len, k =>
    if readLen ≤ len then ⟨.ret 0, buf, len, expFlag, k⟩
    else if 0 < timeout then
      match sys.select timeout k with
      | (.error, k) => ⟨.ret (-152), buf, len, expFlag, k⟩
      | (.timeout, k) => ⟨.ret (-2), buf, len, expFlag, k⟩
      | (.ready, k) =>
        readTRRead sys readLen (readTRLoop readLen timeout fuel expFlag) expFlag buf len k
    else readTRRead sys readLen (readTRLoop readLen timeout fuel expFlag) expFlag buf len k

/-- `read_t_r(Read_fd, Buf, Read_len, Timeout)`. -/
def readTR (buf : Option (Nat → UInt8)) (readLen timeout : Int) (expFlag : Bool) (k : κ) :
    ReadEnd κ :=
  match buf with
  | none => ⟨.ret (-127), fun _ => 0, 0, expFlag, k⟩
  | some buf => readTRLoop sys readLen.toNat timeout.toNat readLen.toNat expFlag buf 0 k

/-! ## One turn of the loops -/

section Turns

variable {sys} {readLen timeout fuel len errno : Nat} {f expired : Bool} {buf : Nat → UInt8}
  {b : UInt8} {bs : List UInt8} {k k' k'' : κ}

theorem readTLoop_done (h : readLen ≤ len) :
    readTLoop sys readLen timeout fuel f buf len k =
      ⟨.ret 0, buf, len, f, cancelAlarm sys timeout k⟩ := by
  cases fuel with
  | zero => rfl
  | succ fuel => rw [readTLoop, if_pos h]

theorem readTLoop_data (h : ¬ readLen ≤ len)
    (hr : sys.read (readLen - len) k = (.data (b :: bs), expired, k')) :
    readTLoop sys readLen timeout (fuel + 1) f buf len k =
      readTLoop sys readLen timeout fuel (f || expired) (store buf len (b :: bs))
        (len + (b :: bs).length) k' := by
  rw [readTLoop, if_neg h, hr]

theorem readTLoop_eof (h : ¬ readLen ≤ len)
    (hr : sys.read (readLen - len) k = (.data [], expired, k')) :
    readTLoop sys readLen timeout (fuel + 1) f buf len k =
      ⟨.ret (-1), buf, len, f || expired, cancelAlarm sys timeout k'⟩ := by
  rw [readTLoop, if_neg h, hr]

theorem readTLoop_error (h : ¬ readLen ≤ len)
    (hr : sys.read (readLen - len) k = (.error errno, expired, k')) :
    readTLoop sys readLen timeout (fuel + 1) f buf len k =
      ⟨.ret (if (f || expired) = true then -2 else if errno = ECONNRESET then -1 else -90), buf,
        len, f || expired, cancelAlarm sys timeout k'⟩ := by
  rw [readTLoop, if_neg h, hr]

theorem readTLoop_blocked (h : ¬ readLen ≤ len)
    (hr : sys.read (readLen - len) k = (.blocked, expired, k')) :
    readTLoop sys readLen timeout (fuel + 1) f buf len k =
      ⟨.waiting, buf, len, f || expired, k'⟩ := by
  rw [readTLoop, if_neg h, hr]

theorem readTRLoop_done (h : readLen ≤ len) :
    readTRLoop sys readLen timeout fuel f buf len k = ⟨.ret 0, buf, len, f, k⟩ := by
  cases fuel with
  | zero => rfl
  | succ fuel => rw [readTRLoop, if_pos h]

theorem readTRLoop_timeout (h : ¬ readLen ≤ len) (ht : 0 < timeout)
    (hs : sys.select timeout k = (.timeout, k')) :
    readTRLoop sys readLen timeout (fuel + 1) f buf len k = ⟨.ret (-2), buf, len, f, k'⟩ := by
  rw [readTRLoop, if_neg h, if_pos ht, hs]

theorem readTRLoop_data (h : ¬ readLen ≤ len) (ht : 0 < timeout)
    (hs : sys.select timeout k = (.ready, k'))
    (hr : sys.read (readLen - len) k' = (.data (b :: bs), expired, k'')) :
    readTRLoop sys readLen timeout (fuel + 1) f buf len k =
      readTRLoop sys readLen timeout fuel f (store buf len (b :: bs))
        (len + (b :: bs).length) k'' := by
  rw [readTRLoop, if_neg h, if_pos ht, hs]
  simp only [readTRRead, hr]

theorem readTRLoop_eof (h : ¬ readLen ≤ len) (ht : 0 < timeout)
    (hs : sys.select timeout k = (.ready, k'))
    (hr : sys.read (readLen - len) k' = (.data [], expired, k'')) :
    readTRLoop sys readLen timeout (fuel + 1) f buf len k = ⟨.ret (-1), buf, len, f, k''⟩ := by
  rw [readTRLoop, if_neg h, if_pos ht, hs]
  simp only [readTRRead, hr]

end Turns

end Calls

/-! ## Accepting -/

inductive AcceptReturn where
  | conn (fd : Nat)
  | error (errno : Nat)
  | blocked
  deriving DecidableEq

inductive AcceptSelect where
  | ready
  | timeout
  | error (errno : Nat)
  deriving DecidableEq

/-- The system calls of `accept_t` and `accept_t_r`. With its result `accept` says whether
`_timeout_proc` has run since the call before, and `select` what it leaves in its `timeval`. -/
structure AcceptCalls (κ : Type) where
  alarm : Nat → κ → κ
  accept : κ → AcceptReturn × Bool × κ
  select : Nat → κ → AcceptSelect × Nat × κ

structure AcceptEnd (κ : Type) where
  outcome : Outcome
  expFlag : Bool
  kernel : κ

section Accepts

variable {κ : Type} (sys : AcceptCalls κ)

/-- `accept_t(SrvFd, Timeout)`. -/
def acceptT (timeout : Int) (expFlag : Bool) (k : κ) : AcceptEnd κ :=
  let timed := 0 < timeout
  let k := if timed then sys.alarm timeout.toNat k else k
  let expFlag := if timed then false else expFlag
  let (r, expired, k) := sys.accept k
  let expFlag := expFlag || expired
  match r with
  | .blocked => ⟨.waiting, expFlag, k⟩
  | .error _ =>
    ⟨.ret (if expFlag then -2 else -208), expFlag, if timed then sys.alarm 0 k else k⟩
  | .conn fd => ⟨.ret fd, expFlag, if timed then sys.alarm 0 k else k⟩

/-- The loop of `accept_t_r` and the `accept` behind it, for at most `turns` calls of
`select`; it is still waiting when all of them were interrupted. -/
def acceptTRLoop : Nat → Nat → Bool → κ → AcceptEnd κ
  | 0, _, expFlag, k => ⟨.waiting, expFlag, k⟩
  | turns + 1, timeout, expFlag, k =>
    match sys.select timeout k with
    | (.error errno, left, k) =>
      if errno = EINTR then acceptTRLoop turns left expFlag k else ⟨.ret (-250), expFlag, k⟩
    | (.timeout, _, k) => ⟨.ret (-2), expFlag, k⟩
    | (.ready, _, k) =>
      match sys.accept k with
      | (.blocked, _, k) => ⟨.waiting, expFlag, k⟩
      | (.error _, _, k) => ⟨.ret (-262), expFlag, k⟩
      | (.conn fd, _, k) => ⟨.ret fd, expFlag, k⟩

/-- `accept_t_r(SrvFd, Timeout)`. -/
def acceptTR (turns : Nat) (timeout : Int) (expFlag : Bool) (k : κ) : AcceptEnd κ :=
  acceptTRLoop sys turns timeout.toNat expFlag k

end Accepts

end Netepoll
