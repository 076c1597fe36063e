import Mathlib.Algebra.GroupWithZero.Nat
import Netepoll.Lib.Memory
import Netepoll.Lib.Program
import Netepoll.Slot

/-! Translation of `msgtool.c`. The functions are programs of system calls, and the kernel
behind them keeps System V message queues. What the kernel decides by itself is one flag at
each system call: whether it refuses (no permission, no memory, a limit reached, a signal). -/

namespace Netepoll

open Requests (Program)

/-! ## The kernel -/

def IPC_PRIVATE : Int := 0
def IPC_NOWAIT : UInt32 := 0x800
def MSG_NOERROR : UInt32 := 0x1000
def MSG_EXCEPT : UInt32 := 0x2000
def MSG_COPY : UInt32 := 0x4000

/-- `struct queue` as far as it is filled: what `msgsnd` sends and `msgrcv` stores. -/
structure Message where
  msgtype : Int
  text : List UInt8
  deriving DecidableEq, Repr

/-- What `IPC_STAT` reports. -/
structure MsqidDs where
  msgQnum : Nat
  msgCbytes : Nat
  msgQbytes : Nat
  deriving DecidableEq, Repr

/-- The message queues by identifier. An identifier is given out once. The last three fields
are history: the key that an identifier was made for, what was sent to the queue and what
was taken out of it, oldest first. -/
structure Msgques where
  queue : Nat → Option (List Message)
  /-- the queue that a key names -/
  named : Int → Option Nat
  next : Nat
  keyOf : Nat → Int
  sent : Nat → List Message
  received : Nat → List Message

/-- `/proc/sys/kernel/msgmax`, and `msg_qbytes` of every queue -/
structure MsgLimits where
  msgmax : Nat
  msgQbytes : Nat

inductive Syscall where
  | msgget (key : Int) (create : Bool)
  | msgsnd (qid : Nat) (msg : Message) (flag : UInt32)
  | msgrcv (qid : Nat) (size : Nat) (msgtype : Int) (flag : UInt32)
  | rmid (qid : Nat)
  | stat (qid : Nat)

/-- What a system call gives back; `none` and a negative number are errors. -/
def Syscall.Answer : Syscall → Type
  | .msgget _ _ => Option Nat
  | .msgsnd _ _ _ => Int
  | .msgrcv _ _ _ _ => Option Message
  | .rmid _ => Int
  | .stat _ => Option MsqidDs

def Msgques.start : Msgques where
  queue := fun _ => none
  named := fun _ => none
  next := 0
  keyOf := fun _ => 0
  sent := fun _ => []
  received := fun _ => []

/-- A new empty queue. Under `IPC_PRIVATE` no key names it. -/
def Msgques.create (k : Msgques) (key : Int) : Msgques :=
  { k with
    queue := Function.update k.queue k.next (some [])
    named := if key = IPC_PRIVATE then k.named else Function.update k.named key (some k.next)
    next := k.next + 1
    keyOf := Function.update k.keyOf k.next key }

/-- The queue that a key names. -/
def Msgques.lookup (k : Msgques) (key : Int) : Option Nat :=
  if key = IPC_PRIVATE then none else k.named key

def Msgques.msgget (k : Msgques) (key : Int) (create refused : Bool) : Option Nat × Msgques :=
  if refused = true then (none, k)
  else
    match k.lookup key with
    | some qid => (some qid, k)
    | none =>
      if create = true ∨ key = IPC_PRIVATE then (some k.next, k.create key) else (none, k)

def cbytes (messages : List Message) : Nat := (messages.map fun m => m.text.length).sum

/-- `none` when the sender has to wait. -/
def Msgques.msgsnd (lim : MsgLimits) (k : Msgques) (qid : Nat) (msg : Message) (flag : UInt32)
    (refused : Bool) : Option (Int × Msgques) :=
  if lim.msgmax < msg.text.length ∨ msg.msgtype < 1 ∨ refused = true then some (-1, k)
  else
    match k.queue qid with
    | none => some (-1, k)
    | some messages =>
      if cbytes messages + msg.text.length ≤ lim.msgQbytes ∧
          messages.length + 1 ≤ lim.msgQbytes then
        some (0, { k with
          queue := Function.update k.queue qid (some (messages ++ [msg]))
          sent := Function.update k.sent qid (k.sent qid ++ [msg]) })
      else if flag &&& IPC_NOWAIT ≠ 0 then some (-1, k)
      else none

/-- The messages that `msgrcv` chooses from, the first of them is taken. -/
def wanted (messages : List Message) (msgtype : Int) (flag : UInt32) (m : Message) : Bool :=
  if msgtype = 0 then true
  else if 0 < msgtype then
    if flag &&& MSG_EXCEPT = 0 then decide (m.msgtype = msgtype)
    else decide (m.msgtype ≠ msgtype)
  -- the lowest type in the queue, unless it is above `-msgtype`
  else decide (m.msgtype ≤ -msgtype) && messages.all fun m' => decide (m.msgtype ≤ m'.msgtype)

/-- `msgrcv` under `MSG_COPY`, where `msgtype` is a place in the queue. -/
def copied (messages : List Message) (size : Nat) (msgtype : Int) (flag : UInt32) :
    Option Message :=
  if flag &&& IPC_NOWAIT = 0 ∨ flag &&& MSG_EXCEPT ≠ 0 ∨ msgtype < 0 then none
  else messages[msgtype.toNat]?.filter fun m => decide (m.text.length ≤ size)

/-- `none` when the receiver has to wait. -/
def Msgques.msgrcv (k : Msgques) (qid size : Nat) (msgtype : Int) (flag : UInt32)
    (refused : Bool) : Option (Option Message × Msgques) :=
  if refused = true then some (none, k)
  else
    match k.queue qid with
    | none => some (none, k)
    | some messages =>
      -- the message stays in the queue
      if flag &&& MSG_COPY ≠ 0 then some (copied messages size msgtype flag, k)
      else
        match messages.find? (wanted messages msgtype flag) with
        | none => if flag &&& IPC_NOWAIT ≠ 0 then some (none, k) else none
        | some m =>
          if size < m.text.length ∧ flag &&& MSG_NOERROR = 0 then some (none, k)
          else
            let got : Message := { m with text := m.text.take size }
            some (some got, { k with
              queue := Function.update k.queue qid
                (some (messages.eraseP (wanted messages msgtype flag)))
              received := Function.update k.received qid (k.received qid ++ [got]) })

/-- The queue goes with all its messages, and its key is free again. -/
def Msgques.remove (k : Msgques) (qid : Nat) : Msgques :=
  { k with
    queue := Function.update k.queue qid none
    named := fun key => if k.named key = some qid then none else k.named key }

/-- `msgctl(qid, IPC_RMID, NULL)` -/
def Msgques.rmid (k : Msgques) (qid : Nat) (refused : Bool) : Int × Msgques :=
  if refused = true ∨ k.queue qid = none then (-1, k) else (0, k.remove qid)

/-- `msgctl(qid, IPC_STAT, Info)` -/
def Msgques.stat (lim : MsgLimits) (k : Msgques) (qid : Nat) (refused : Bool) :
    Option MsqidDs :=
  if refused = true then none
  else (k.queue qid).map fun messages =>
    { msgQnum := messages.length, msgCbytes := cbytes messages, msgQbytes := lim.msgQbytes }

def serveMsg (lim : MsgLimits) (k : Msgques) (c : Syscall) (refused : Bool) :
    Option (c.Answer × Msgques) :=
  match c with
  | .msgget key create => some (k.msgget key create refused)
  | .msgsnd qid msg flag => k.msgsnd lim qid msg flag refused
  | .msgrcv qid size msgtype flag => k.msgrcv qid size msgtype flag refused
  | .rmid qid => some (k.rmid qid refused)
  | .stat qid => some (k.stat lim qid refused, k)

/-! ## The functions -/

def MSGSIZE : Nat := 8192

/-- What a call returns, and what it has stored for the caller: the bytes at `Buf` and
`*Msgtype`, or `*Info`. -/
structure MsgReturn where
  ret : Int
  message : Option Message
  info : Option MsqidDs
  deriving DecidableEq, Repr

/-- `return(ret)` with nothing stored. -/
def msgRet (ret : Int) : Program Syscall Syscall.Answer MsgReturn :=
  .done { ret := ret, message := none, info := none }

def clrQue (key : Int) : Program Syscall Syscall.Answer MsgReturn :=
  .ask (.msgget key false) fun (qid : Option Nat) =>
    match qid with
    | none => msgRet 0
    | some qid => .ask (.rmid qid) fun (ret : Int) => msgRet ret

def getQinfo (key : Int) : Program Syscall Syscall.Answer MsgReturn :=
  .ask (.msgget key true) fun (qid : Option Nat) =>
    match qid with
    | none => msgRet (-1)
    | some qid => .ask (.stat qid) fun (info : Option MsqidDs) =>
      match info with
      | none => msgRet (-1)
      | some info => .done { ret := 0, message := none, info := some info }

/-- `recv_qmsg` behind its `msgrcv`. -/
def recvReturn : Option Message → Program Syscall Syscall.Answer MsgReturn
  | none => msgRet (-1)
  | some m => .done { ret := m.text.length, message := some m, info := none }

def recvQmsg (key msgtype : Int) (flag : UInt32) : Program Syscall Syscall.Answer MsgReturn :=
  .ask (.msgget key true) fun (qid : Option Nat) =>
    match qid with
    | none => msgRet (-1)
    | some qid => .ask (.msgrcv qid MSGSIZE msgtype flag) recvReturn

/-- `len` is an `int`, and compared with `sizeof(msgbuf.text)` as a `size_t`. -/
def sendQmsg (key msgtype : Int) (buf : Nat → UInt8) (len : Int) (flag : UInt32) :
    Program Syscall Syscall.Answer MsgReturn :=
  .ask (.msgget key true) fun (qid : Option Nat) =>
    match qid with
    | none => msgRet (-1)
    | some qid =>
      if MSGSIZE < toSize len then msgRet (-1)
      else
        .ask (.msgsnd qid { msgtype := msgtype, text := Memory.load buf 0 (toSize len) } flag)
          fun (ret : Int) => msgRet ret

inductive MsgCall where
  | clrQue (key : Int)
  | getQinfo (key : Int)
  | recvQmsg (key msgtype : Int) (flag : UInt32)
  | sendQmsg (key msgtype : Int) (buf : Nat → UInt8) (len : Int) (flag : UInt32)

def MsgCall.body : MsgCall → Program Syscall Syscall.Answer MsgReturn
  | .clrQue key => Netepoll.clrQue key
  | .getQinfo key => Netepoll.getQinfo key
  | .recvQmsg key msgtype flag => Netepoll.recvQmsg key msgtype flag
  | .sendQmsg key msgtype buf len flag => Netepoll.sendQmsg key msgtype buf len flag

def MsgCall.key : MsgCall → Int
  | .clrQue key => key
  | .getQinfo key => key
  | .recvQmsg key _ _ => key
  | .sendQmsg key _ _ _ _ => key

end Netepoll
