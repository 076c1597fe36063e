import Mathlib.Logic.Function.Basic
import Netepoll.Slot

/-! The kernel objects the event loop works on: the descriptor table and the epoll set.
Connections are numbered in the order `accept` returns them, so that a descriptor number
used twice denotes two different connections. -/

namespace Netepoll

/-- What an open descriptor denotes. -/
inductive Handle where
  | other
  | listener
  | conn (c : Nat)
  deriving DecidableEq, Repr

/-- `struct epoll_event` as `epoll_ctl` registers it. -/
structure EpollItem where
  ptr : SlotIx
  events : UInt32
  deriving DecidableEq

structure Kernel where
  fds : Nat → Option Handle
  epoll : Nat → Option EpollItem
  /-- connections accepted so far -/
  accepted : Nat
  /-- what each `close` call closed, oldest first -/
  closes : List (Option Handle)

/-- Open `fd` for the next connection. -/
def Kernel.addConn (k : Kernel) (fd : Nat) : Kernel :=
  { k with
    fds := Function.update k.fds fd (some (.conn k.accepted))
    accepted := k.accepted + 1 }

/-- `accept(listenFd)` returning `fd`, which must be free. -/
def Kernel.accept (k : Kernel) (listenFd fd : Nat) : Option Kernel :=
  if k.fds listenFd = some .listener ∧ k.fds fd = none then some (k.addConn fd) else none

/-- `close(fd)` frees the number and takes the descriptor out of the epoll set. -/
def Kernel.close (k : Kernel) (fd : Nat) : Kernel :=
  { k with
    fds := Function.update k.fds fd none
    epoll := Function.update k.epoll fd none
    closes := k.closes ++ [k.fds fd] }

/-- `epoll_ctl(EPOLL_CTL_ADD)`; `ok` is false when the kernel has no room. A closed
descriptor and one already in the set are refused. -/
def Kernel.epollAdd (k : Kernel) (fd : Nat) (item : EpollItem) (ok : Bool) : Option Kernel :=
  if ok = true ∧ (k.fds fd).isSome = true ∧ k.epoll fd = none then
    some { k with epoll := Function.update k.epoll fd (some item) }
  else none

/-- `epoll_ctl(EPOLL_CTL_DEL)`, whose result the code ignores. -/
def Kernel.epollDel (k : Kernel) (fd : Nat) : Kernel :=
  { k with epoll := Function.update k.epoll fd none }

theorem Kernel.accept_eq_some {k k' : Kernel} {listenFd fd : Nat} :
    k.accept listenFd fd = some k' ↔
      k.fds listenFd = some .listener ∧ k.fds fd = none ∧ k.addConn fd = k' := by
  unfold Kernel.accept
  split
  · rename_i h; simp [h]
  · rename_i h; simp only [reduceCtorEq, false_iff]; exact fun hc => h ⟨hc.1, hc.2.1⟩

theorem Kernel.epollAdd_eq_some {k k' : Kernel} {fd : Nat} {item : EpollItem} {ok : Bool} :
    k.epollAdd fd item ok = some k' ↔
      (ok = true ∧ (k.fds fd).isSome = true ∧ k.epoll fd = none) ∧
      { k with epoll := Function.update k.epoll fd (some item) } = k' := by
  unfold Kernel.epollAdd
  split
  · rename_i h; simp [h]
  · rename_i h; simp only [reduceCtorEq, false_iff]; exact fun hc => h hc.1

section Fields

variable (k : Kernel) (fd : Nat)

@[simp] theorem Kernel.addConn_epoll : (k.addConn fd).epoll = k.epoll := rfl
@[simp] theorem Kernel.addConn_closes : (k.addConn fd).closes = k.closes := rfl
@[simp] theorem Kernel.addConn_accepted : (k.addConn fd).accepted = k.accepted + 1 := rfl
@[simp] theorem Kernel.addConn_fds :
    (k.addConn fd).fds = Function.update k.fds fd (some (.conn k.accepted)) := rfl
@[simp] theorem Kernel.close_fds : (k.close fd).fds = Function.update k.fds fd none := rfl
@[simp] theorem Kernel.close_epoll :
    (k.close fd).epoll = Function.update k.epoll fd none := rfl
@[simp] theorem Kernel.close_accepted : (k.close fd).accepted = k.accepted := rfl
@[simp] theorem Kernel.close_closes :
    (k.close fd).closes = k.closes ++ [k.fds fd] := rfl

/-- After `close` the `EPOLL_CTL_DEL` that follows it finds nothing to remove. -/
theorem Kernel.epollDel_close : (k.close fd).epollDel fd = k.close fd := by
  simp [Kernel.epollDel, Kernel.close]

end Fields

end Netepoll
