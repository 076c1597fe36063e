import Netepoll.Lib.Memory

/-! One entry of the table `Ep_events` (netepoll.h), the framing test of task.c, and
the single statements of `recvdata` and `mytask` that touch the receive buffer. The
buffer is a flat memory: `BUFSIZ` bounds it only where the code makes it. Kept out are
`m_lasttime` and `m_addr`, which no function reads. -/

namespace Netepoll

open Memory

/-- `BUFSIZ` of the C library the makefiles build against. -/
def BUFSIZ : Nat := 8192

def MAX_EVENTS : Nat := 1024

def EPOLLIN : UInt32 := 0x001

def EPOLLOUT : UInt32 := 0x004

/-- A pointer into `Ep_events`. -/
abbrev SlotIx := Fin MAX_EVENTS

instance : @NeZero Nat Zero.ofOfNat0 MAX_EVENTS := ⟨by decide⟩

inductive DataRet where
  | dataComplete
  | dataError
  | dataContinue
  deriving DecidableEq, Repr

/-- The functions the code stores in `call_back`. -/
inductive CallBack where
  | acceptconnect
  | recvdata
  | senddata
  deriving DecidableEq, Repr

/-- `struct my_events`. Byte `k` of `m_rcv_buf` is `mRcvBuf k`. -/
structure MyEvents where
  mFd : Nat
  mEvent : UInt32
  mStatus : Nat
  mArg : Option SlotIx
  callBack : Option CallBack
  mRcvBuf : Nat → UInt8
  mRcvBufLen : Int
  mSndBuf : Nat → UInt8
  mSndBufLen : Int
  mSntBufLen : Int

/-- `memset(ev, 0, sizeof(struct my_events))`. -/
def MyEvents.zero : MyEvents where
  mFd := 0
  mEvent := 0
  mStatus := 0
  mArg := none
  callBack := none
  mRcvBuf := fun _ => 0
  mRcvBufLen := 0
  mSndBuf := fun _ => 0
  mSndBufLen := 0
  mSntBufLen := 0

def eventsetinit (myEv : MyEvents) (fd : Nat) (callBack : CallBack)
    (eventArg : SlotIx) : MyEvents :=
  { myEv with
    mFd := fd
    mEvent := 0
    mStatus := 0
    mArg := some eventArg
    callBack := some callBack }

/-! ## The framing test -/

/-- The value of a byte read as plain `char`, signed on the target. -/
def schar (b : UInt8) : Int := b.toInt8.toInt

def testpacket (ev : MyEvents) : DataRet :=
  let len := schar (ev.mRcvBuf 0) * 256 + schar (ev.mRcvBuf 1)
  if len = ev.mRcvBufLen - 2 then .dataComplete
  else if len < ev.mRcvBufLen - 2 then .dataError
  else .dataContinue

theorem schar_eq (b : UInt8) :
    schar b = if b.toNat < 128 then (b.toNat : Int) else (b.toNat : Int) - 256 := by
  have e : schar b = (b.toNat : Int).bmod 256 := BitVec.toInt_eq_toNat_bmod b.toBitVec
  have hb : b.toNat < 256 := b.toNat_lt
  rw [e, Int.bmod_def]
  split <;> split <;> omega

theorem schar_of_lt {b : UInt8} (h : b.toNat < 128) : schar b = b.toNat := by
  rw [schar_eq, if_pos h]

/-! ## The statements of `recvdata` -/

/-- An integer converted to `size_t`: the remainder modulo 2^64. -/
def toSize (n : Int) : Nat := (n % 18446744073709551616).toNat

/-- The length argument `sizeof(ev->m_rcv_buf) - ev->m_rcv_buf_len`, a `size_t`. -/
def recvRoom (ev : MyEvents) : Nat := toSize (BUFSIZ - ev.mRcvBufLen)

/-- What a `recv` that delivers `bs` stores at `ev->m_rcv_buf + ev->m_rcv_buf_len`. -/
def recvStore (ev : MyEvents) (bs : List UInt8) : MyEvents :=
  { ev with mRcvBuf := store ev.mRcvBuf ev.mRcvBufLen.toNat bs }

/-- `ev->m_rcv_buf_len += len`. -/
def addLen (ev : MyEvents) (len : Nat) : MyEvents :=
  { ev with mRcvBufLen := ev.mRcvBufLen + len }

/-- The two statements one after the other. -/
def received (ev : MyEvents) (bs : List UInt8) : MyEvents :=
  addLen (recvStore ev bs) bs.length

/-! ## The statements of `mytask` -/

/-- The bytes `send(ev->m_fd, ev->m_rcv_buf, ev->m_rcv_buf_len, 0)` reads. -/
def rcvBytes (ev : MyEvents) : List UInt8 := load ev.mRcvBuf 0 ev.mRcvBufLen.toNat

/-- `ev->m_rcv_buf_len = 0`. -/
def clearLen (ev : MyEvents) : MyEvents := { ev with mRcvBufLen := 0 }

/-- `ev->m_rcv_buf[0] = 0`. -/
def clearHead (ev : MyEvents) : MyEvents := { ev with mRcvBuf := store ev.mRcvBuf 0 [0] }

/-- `mytask` after its `send`, run with nothing in between. -/
def mytaskResets (ev : MyEvents) : MyEvents := clearHead (clearLen ev)

section Fields

variable (ev : MyEvents) (bs : List UInt8) (n : Nat)

@[simp] theorem recvStore_mRcvBufLen : (recvStore ev bs).mRcvBufLen = ev.mRcvBufLen := rfl
@[simp] theorem addLen_mRcvBufLen : (addLen ev n).mRcvBufLen = ev.mRcvBufLen + n := rfl
@[simp] theorem addLen_mRcvBuf : (addLen ev n).mRcvBuf = ev.mRcvBuf := rfl
@[simp] theorem received_mRcvBufLen :
    (received ev bs).mRcvBufLen = ev.mRcvBufLen + bs.length := rfl
@[simp] theorem received_mRcvBuf :
    (received ev bs).mRcvBuf = store ev.mRcvBuf ev.mRcvBufLen.toNat bs := rfl
@[simp] theorem clearLen_mRcvBuf : (clearLen ev).mRcvBuf = ev.mRcvBuf := rfl
@[simp] theorem clearLen_mRcvBufLen : (clearLen ev).mRcvBufLen = 0 := rfl
@[simp] theorem clearHead_mRcvBufLen : (clearHead ev).mRcvBufLen = ev.mRcvBufLen := rfl
@[simp] theorem clearHead_mRcvBuf_zero : (clearHead ev).mRcvBuf 0 = 0 := rfl
@[simp] theorem clearHead_mRcvBuf_one : (clearHead ev).mRcvBuf 1 = ev.mRcvBuf 1 := rfl

end Fields

/-- `m_rcv_buf[0] = 0` changes nothing when the byte is 0 already. -/
theorem clearHead_eq_self {ev : MyEvents} (h : ev.mRcvBuf 0 = 0) : clearHead ev = ev := by
  have hs : store ev.mRcvBuf 0 [0] = ev.mRcvBuf := by
    rw [← h, store_self]
  rw [clearHead, hs]

/-- A delivery appends to the received bytes. -/
theorem rcvBytes_received (ev : MyEvents) (bs : List UInt8) (h : 0 ≤ ev.mRcvBufLen) :
    rcvBytes (received ev bs) = rcvBytes ev ++ bs := by
  have e : (ev.mRcvBufLen + bs.length).toNat = ev.mRcvBufLen.toNat + bs.length := by omega
  simp only [rcvBytes, received_mRcvBufLen, received_mRcvBuf, e]
  simpa using load_store_append ev.mRcvBuf 0 ev.mRcvBufLen.toNat bs

/-- A byte below `m_rcv_buf_len` is the received byte of that position. -/
theorem mRcvBuf_of_rcvBytes {ev : MyEvents} {r : List UInt8} (hr : rcvBytes ev = r) {k : Nat}
    (hk : k < r.length) : ev.mRcvBuf k = r[k] := by
  subst hr
  simp [rcvBytes, load]

theorem recvRoom_eq {ev : MyEvents} (h0 : 0 ≤ ev.mRcvBufLen) (h1 : ev.mRcvBufLen ≤ BUFSIZ) :
    (recvRoom ev : Int) = BUFSIZ - ev.mRcvBufLen := by
  simp only [recvRoom, toSize, BUFSIZ] at *
  omega

end Netepoll
