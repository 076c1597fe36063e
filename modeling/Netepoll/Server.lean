import Netepoll.Kernel

/-! The callbacks of sock.c, the registration helpers of eventctl.c and the task of
task.c, over the slot table, the kernel and the tasks handed to the thread pool. Every
choice of the environment (the number `accept` returns, what `recv` delivers, whether
`epoll_ctl` and `threadpool_add` succeed) is an argument. The log lines are left out. -/

namespace Netepoll

/-- Where a task stands: in the queue of the pool, in a worker that is about to `send`,
after the `send`, after `m_rcv_buf_len = 0`. -/
inductive Phase where
  | queued
  | taken
  | sent
  | lenCleared
  deriving DecidableEq, Repr

/-- A task of the pool is `mytask` with the pointer `arg`. The last two fields are
history: whose descriptor `recvdata` was called for, and what the slot held. -/
structure Task where
  arg : SlotIx
  phase : Phase
  owner : Option Handle
  frame : List UInt8
  deriving DecidableEq

/-- The task has not executed its `send`. -/
def Task.Unsent (t : Task) : Prop := t.phase = .queued ∨ t.phase = .taken

instance (t : Task) : Decidable t.Unsent := inferInstanceAs (Decidable (_ ∨ _))

structure Server where
  epEvents : SlotIx → MyEvents
  kernel : Kernel
  tasks : List Task

def Server.setSlot (s : Server) (i : SlotIx) (ev : MyEvents) : Server :=
  { s with epEvents := Function.update s.epEvents i ev }

def Server.close (s : Server) (fd : Nat) : Server := { s with kernel := s.kernel.close fd }

/-! ## eventctl.c -/

/-- `eventadd(Ep_fd, event, &Ep_events[i])`. -/
def eventadd (s : Server) (event : UInt32) (i : SlotIx) (ctlOk : Bool) : Server :=
  let s := s.setSlot i { s.epEvents i with mEvent := event }
  if (s.epEvents i).mStatus = 0 then
    match s.kernel.epollAdd (s.epEvents i).mFd ⟨i, event⟩ ctlOk with
    | none => s
    | some k => { s with kernel := k }.setSlot i { s.epEvents i with mStatus := 1 }
  else s

/-- `eventdel(Ep_fd, &Ep_events[i])`. -/
def eventdel (s : Server) (i : SlotIx) : Server :=
  if (s.epEvents i).mStatus ≠ 1 then s
  else
    { s with kernel := s.kernel.epollDel (s.epEvents i).mFd }.setSlot i
      { s.epEvents i with mStatus := 0 }

/-- `close(ev->m_fd); eventdel(Ep_fd, ev)`, the way every failing branch ends. -/
def closeAndDel (s : Server) (i : SlotIx) : Server :=
  eventdel (s.close (s.epEvents i).mFd) i

/-! ## sock.c -/

/-- The loop of `getEventIndex` with `n` slots still to look at. -/
def getEventIndexFrom (t : SlotIx → MyEvents) : (n : Nat) → n ≤ MAX_EVENTS → Option SlotIx
  | 0, _ => none
  | n + 1, h =>
    if (t ⟨MAX_EVENTS - (n + 1), by omega⟩).mStatus = 0 then
      some ⟨MAX_EVENTS - (n + 1), by omega⟩
    else getEventIndexFrom t n (by omega)

def getEventIndex (s : Server) : Option SlotIx :=
  getEventIndexFrom s.epEvents MAX_EVENTS (Nat.le_refl _)

/-- What the kernel answers during one `acceptconnect`: the number `accept` returns,
`none` when it fails, and whether `fcntl` and `epoll_ctl` succeed. -/
structure AcceptOutcome where
  connectFd : Option Nat
  fcntlOk : Bool
  ctlOk : Bool
  deriving DecidableEq

/-- The slot as `memset` and `eventsetinit` leave it in `acceptconnect`. -/
def acceptedSlot (i : SlotIx) (connectFd : Nat) : MyEvents :=
  eventsetinit MyEvents.zero connectFd .recvdata i

/-- `none` is an answer the kernel cannot give: a number that is in use. -/
def acceptconnect (s : Server) (listenFd : Nat) (o : AcceptOutcome) : Option Server :=
  match o.connectFd with
  | none => some s
  | some connectFd =>
    match s.kernel.accept listenFd connectFd with
    | none => none
    | some k =>
      let s := { s with kernel := k }
      match getEventIndex s with
      | none => some (s.close connectFd)
      | some i =>
        if o.fcntlOk = false then some (s.close connectFd)
        else
          some (eventadd (s.setSlot i (acceptedSlot i connectFd)) EPOLLIN i o.ctlOk)

/-- The result of `recv`: some bytes, 0, or -1. -/
inductive RecvResult where
  | data (bs : List UInt8)
  | peerClosed
  | error
  deriving DecidableEq

structure RecvOutcome where
  recv : RecvResult
  addOk : Bool
  deriving DecidableEq

/-- The task `threadpool_add(TaskPool, &mytask, (void*)ev, 0)` queues. -/
def newTask (s : Server) (clientFd : Nat) (i : SlotIx) : Task where
  arg := i
  phase := .queued
  owner := s.kernel.fds clientFd
  frame := rcvBytes (s.epEvents i)

/-- `recvdata` after `ret = testpacket(ev)`. -/
def recvdataBranch (s : Server) (clientFd : Nat) (i : SlotIx) (ret : DataRet)
    (addOk : Bool) : Server :=
  match ret with
  | .dataComplete =>
    if addOk = true then { s with tasks := s.tasks ++ [newTask s clientFd i] }
    else closeAndDel s i
  | .dataError => closeAndDel s i
  | .dataContinue => s

/-- `recvdata(clientFd, event, &Ep_events[i])`. `none` is a count `recv` cannot return:
zero bytes of data, or more than it was given room for. -/
def recvdata (s : Server) (clientFd : Nat) (i : SlotIx) (o : RecvOutcome) : Option Server :=
  match o.recv with
  | .data bs =>
    if bs = [] ∨ recvRoom (s.epEvents i) < bs.length then none
    else
      let s := s.setSlot i (received (s.epEvents i) bs)
      some (recvdataBranch s clientFd i (testpacket (s.epEvents i)) o.addOk)
  | .peerClosed => some (closeAndDel s i)
  | .error => some (closeAndDel s i)

/-- `senddata(clientFd, event, &Ep_events[i])` with `len` the result of its `send`. -/
def senddata (s : Server) (i : SlotIx) (len : Int) : Server :=
  if 0 < len then
    let ev := s.epEvents i
    let s := s.setSlot i { ev with mSntBufLen := ev.mSntBufLen + len }
    if (s.epEvents i).mSntBufLen = (s.epEvents i).mSndBufLen then
      (eventdel s i).close (s.epEvents i).mFd
    else s
  else closeAndDel s i

/-- `&Ep_events[MAX_EVENTS-1]`, the slot of the listener. -/
def listenSlot : SlotIx := ⟨MAX_EVENTS - 1, by decide⟩

/-- `initlistensocket` once `getSrvSocket` has returned `listenFd`. -/
def initlistensocket (s : Server) (listenFd : Nat) (ctlOk : Bool) : Server :=
  let ev := eventsetinit (s.epEvents listenSlot) listenFd .acceptconnect listenSlot
  eventadd (s.setSlot listenSlot ev) EPOLLIN listenSlot ctlOk

/-! ## task.c -/

/-- The next statement of the `n`-th unfinished task, whoever runs it: a worker takes it,
`send`, `m_rcv_buf_len = 0`, `m_rcv_buf[0] = 0`. The `send` only shows outside. -/
def mytaskStep (s : Server) (n : Nat) : Option Server :=
  match s.tasks[n]? with
  | none => none
  | some t =>
    match t.phase with
    | .queued => some { s with tasks := s.tasks.set n { t with phase := .taken } }
    | .taken => some { s with tasks := s.tasks.set n { t with phase := .sent } }
    | .sent =>
      some { s.setSlot t.arg (clearLen (s.epEvents t.arg)) with
        tasks := s.tasks.set n { t with phase := .lenCleared } }
    | .lenCleared =>
      some { s.setSlot t.arg (clearHead (s.epEvents t.arg)) with
        tasks := s.tasks.eraseIdx n }

/-- `mytask` for the `n`-th task, run to its end with nothing in between. -/
def mytask (s : Server) (n : Nat) : Option Server :=
  match s.tasks[n]? with
  | none => none
  | some t =>
    some { s.setSlot t.arg (mytaskResets (s.epEvents t.arg)) with
      tasks := s.tasks.eraseIdx n }

end Netepoll
