import Netepoll.Registration

/-! What a client gets of a response. The descriptors are non-blocking, so a `send` may
take a part of what it is offered; `mytask` does not look at how much it took. -/

namespace Netepoll

open Memory

/-- The server, and what the kernel has taken for each connection. -/
structure Wire where
  server : Server
  given : Nat → List UInt8

/-- A `send` of `bs`: the number of bytes the kernel takes, `none` for -1. No number is
possible where the descriptor is no connection. -/
def Wire.send (x : Wire) (fd : Nat) (bs : List UInt8) : Option Nat → Option Wire
  | none => some x
  | some n =>
    match x.server.kernel.fds fd with
    | some (.conn c) =>
      if n ≤ bs.length then
        some { x with given := Function.update x.given c (x.given c ++ bs.take n) }
      else none
    | _ => none

/-- `mytask` for the `n`-th task, where its `send` returns `r`. -/
def mytaskSend (x : Wire) (n : Nat) (r : Option Nat) : Option Wire := do
  let t ← x.server.tasks[n]?
  let ev := x.server.epEvents t.arg
  let x ← x.send ev.mFd (rcvBytes ev) r
  let s ← mytask x.server n
  some { x with server := s }

/-- The slot is registered for a write callback that has the bytes `rest` still to send. -/
structure LeftToSenddata (s : Server) (i : SlotIx) (c : Nat) (rest : List UInt8) : Prop where
  callBack : (s.epEvents i).callBack = some .senddata
  status : (s.epEvents i).mStatus = 1
  event : (s.epEvents i).mEvent &&& EPOLLOUT ≠ 0
  conn : s.kernel.fds (s.epEvents i).mFd = some (.conn c)
  rest : load (s.epEvents i).mSndBuf (s.epEvents i).mSntBufLen.toNat
    ((s.epEvents i).mSndBufLen - (s.epEvents i).mSntBufLen).toNat = rest

/-- The connection of slot `i` is closed, or has been given the frame in the slot, or the
part of it that is missing is left to a write callback. -/
def Answered (x x' : Wire) (i : SlotIx) : Prop :=
  ∀ c, x.server.kernel.fds (x.server.epEvents i).mFd = some (.conn c) →
    (∀ fd, x'.server.kernel.fds fd ≠ some (.conn c)) ∨
    ∃ done rest, rcvBytes (x.server.epEvents i) = done ++ rest ∧
      x'.given c = x.given c ++ done ∧ (rest = [] ∨ LeftToSenddata x'.server i c rest)

theorem Wire.send_server {x x' : Wire} {fd : Nat} {bs : List UInt8} {r : Option Nat}
    (h : x.send fd bs r = some x') : x'.server = x.server := by
  unfold Wire.send at h
  split at h
  · cases h
    rfl
  · split at h
    · split at h
      · cases h
        rfl
      · cases h
    · cases h

/-- What a `send` on a connection adds to it. -/
theorem Wire.send_given {x x' : Wire} {fd c : Nat} {bs : List UInt8} {r : Option Nat}
    (hc : x.server.kernel.fds fd = some (.conn c)) (h : x.send fd bs r = some x') :
    r.getD 0 ≤ bs.length ∧ x'.given c = x.given c ++ bs.take (r.getD 0) := by
  cases r with
  | none =>
    cases h
    exact ⟨Nat.zero_le _, by simp⟩
  | some n =>
    simp only [Wire.send, hc] at h
    split at h
    · next hn =>
      cases h
      exact ⟨hn, by simp⟩
    · cases h

/-- No slot of a running server is registered for writing. -/
theorem Wired.not_left {b : Boot} {s : Server} (h : Wired b s) {i : SlotIx} {c : Nat}
    {rest : List UInt8} : ¬ LeftToSenddata s i c rest := by
  intro hl
  rcases h.mask i with h0 | hin
  · exact hl.event (by rw [h0]; decide)
  · exact hl.event (by rw [hin]; decide)

theorem wired_mytask {b : Boot} {s s' : Server} {n : Nat} (h : Wired b s)
    (hs : mytask s n = some s') : Wired b s' ∧ s'.kernel = s.kernel := by
  obtain ⟨t, -, rfl⟩ := mytask_eq_some hs
  have hsame : SameWiring (s.epEvents t.arg) (mytaskResets (s.epEvents t.arg)) :=
    ⟨rfl, rfl, rfl, rfl, rfl⟩
  exact ⟨h.setSlot hsame _, rfl⟩

theorem mytaskSend_eq_some {x x' : Wire} {n : Nat} {r : Option Nat}
    (h : mytaskSend x n r = some x') :
    ∃ t y, x.server.tasks[n]? = some t ∧
      x.send (x.server.epEvents t.arg).mFd (rcvBytes (x.server.epEvents t.arg)) r = some y ∧
      mytask x.server n = some x'.server ∧ x'.given = y.given := by
  obtain ⟨t, ht, h⟩ := Option.bind_eq_some_iff.mp h
  obtain ⟨y, hy, h⟩ := Option.bind_eq_some_iff.mp h
  obtain ⟨s, hs, h⟩ := Option.bind_eq_some_iff.mp h
  cases h
  rw [Wire.send_server hy] at hs
  exact ⟨t, y, ht, hy, hs, rfl⟩

/-- Of an open connection, a response is complete only when `send` took the whole frame. -/
theorem Answered.takes_all {b : Boot} {x x' : Wire} {n c : Nat} {t : Task} {r : Option Nat}
    (hw : Wired b x.server) (ht : x.server.tasks[n]? = some t)
    (hsend : mytaskSend x n r = some x') (h : Answered x x' t.arg)
    (hc : x.server.kernel.fds (x.server.epEvents t.arg).mFd = some (.conn c)) :
    r.getD 0 = (rcvBytes (x.server.epEvents t.arg)).length := by
  obtain ⟨t', y, ht', hy, htask, hgiven⟩ := mytaskSend_eq_some hsend
  obtain rfl : t' = t := Option.some.inj (ht'.symm.trans ht)
  obtain ⟨hw', hk⟩ := wired_mytask hw htask
  obtain ⟨hle, hsent⟩ := Wire.send_given hc hy
  rcases h c hc with hclosed | ⟨done, rest, hframe, hdone, hleft⟩
  · exact absurd (hk ▸ hc) (hclosed _)
  · -- nobody sends the rest, so there is none
    obtain rfl : rest = [] := hleft.resolve_right hw'.not_left
    rw [List.append_nil] at hframe
    subst hframe
    rw [hgiven, hsent] at hdone
    have htake := congrArg List.length (List.append_cancel_left hdone)
    rw [List.length_take] at htake
    omega

/-- Whatever the slot holds when `mytask` runs, the response is complete, or its connection
closed, exactly when the one `send` takes all of it or the connection was closed before. -/
theorem mytaskSend_answered_iff {b : Boot} {as : List Action} {x x' : Wire} {n : Nat} {t : Task}
    {r : Option Nat} (hrun : Transition.run (callbackStep b) b.start as = some x.server)
    (ht : x.server.tasks[n]? = some t) (hsend : mytaskSend x n r = some x') :
    Answered x x' t.arg ↔
      ∀ c, x.server.kernel.fds (x.server.epEvents t.arg).mFd = some (.conn c) →
        r.getD 0 = (rcvBytes (x.server.epEvents t.arg)).length := by
  refine ⟨fun h c hc => h.takes_all (wired_run hrun) ht hsend hc, fun h c hc => ?_⟩
  obtain ⟨t', y, ht', hy, htask, hgiven⟩ := mytaskSend_eq_some hsend
  obtain rfl : t' = t := Option.some.inj (ht'.symm.trans ht)
  obtain ⟨-, hsent⟩ := Wire.send_given hc hy
  refine Or.inr ⟨rcvBytes (x.server.epEvents t'.arg), [], by simp, ?_, Or.inl rfl⟩
  rw [hgiven, hsent, h c hc, List.take_length]

/-- One connection, with a complete frame of three bytes in its slot. -/
def frameRun : List Action :=
  [.acceptconnect ⟨some 5, true, true⟩, .recvdata 0 ⟨.data [0, 1, 65], true⟩]

theorem mytaskSend_answered_iff_whole :
    ∃ s x', Transition.run (callbackStep plainBoot) plainBoot.start frameRun = some s ∧
      mytaskSend ⟨s, fun _ => []⟩ 0 (some 3) = some x' ∧ Answered ⟨s, fun _ => []⟩ x' 0 := by
  have hrun : Transition.run (callbackStep plainBoot) plainBoot.start frameRun = some _ := rfl
  have ht : [(⟨0, .queued, some (.conn 0), [0, 1, 65]⟩ : Task)][0]? = some _ := rfl
  refine ⟨_, _, rfl, rfl, (mytaskSend_answered_iff (x := ⟨_, fun _ => []⟩) (n := 0)
    (r := some 3) hrun ht rfl).mpr ?_⟩
  intro c _
  decide

theorem not_mytaskSend_answered :
    ¬ ∀ (b : Boot) (as : List Action) (x x' : Wire) (n : Nat) (t : Task) (r : Option Nat),
      Transition.run (callbackStep b) b.start as = some x.server →
      x.server.tasks[n]? = some t →
      testpacket (x.server.epEvents t.arg) = .dataComplete →
      0 < (x.server.epEvents t.arg).mRcvBufLen →
      mytaskSend x n r = some x' → Answered x x' t.arg := by
  intro h
  have hrun : Transition.run (callbackStep plainBoot) plainBoot.start frameRun = some _ := rfl
  have hshort := h plainBoot frameRun ⟨_, fun _ => []⟩ _ 0
    ⟨0, .queued, some (.conn 0), [0, 1, 65]⟩ (some 2) hrun rfl (by decide) (by decide) rfl
  have hall := Answered.takes_all (x := ⟨_, fun _ => []⟩) (n := 0) (c := 0) (r := some 2)
    (wired_run hrun) rfl rfl hshort rfl
  revert hall
  decide

end Netepoll
