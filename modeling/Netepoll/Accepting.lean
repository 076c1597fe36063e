import Netepoll.Timing

/-! `accept_t` and `accept_t_r` in discrete virtual time. The first sets an alarm only for a
positive `Timeout`; the second passes every `Timeout` to `select`, where 0 does not wait. -/

namespace Netepoll

/-- The time, the pending alarm, and the next connection: its time and the descriptor that
`accept` returns for it. -/
structure Listener where
  now : Nat
  alarm : Option Nat
  arrival : Option (Nat × Nat)

def Listener.wait (l : Listener) (t : Nat) : Listener := { l with now := max l.now t }

/-- The alarm at time `a` interrupts the call. -/
def Listener.interrupt (l : Listener) (a : Nat) : AcceptReturn × Bool × Listener :=
  (.error EINTR, true, { l.wait a with alarm := none })

def Listener.accept (tie : Bool) (l : Listener) : AcceptReturn × Bool × Listener :=
  match l.arrival, l.alarm with
  | some (t, fd), none => (.conn fd, false, { l.wait t with arrival := none })
  | some (t, fd), some a =>
    if decide (t ≤ l.now) || inTime tie t a then
      (.conn fd, false, { l.wait t with arrival := none })
    else l.interrupt a
  | none, some a => l.interrupt a
  | none, none => (.blocked, false, l)

def Listener.select (tie : Bool) (timeout : Nat) (l : Listener) :
    AcceptSelect × Nat × Listener :=
  match l.arrival with
  | some (t, _) =>
    if decide (t ≤ l.now) || inTime tie t (l.now + timeout) then
      (.ready, l.now + timeout - max l.now t, l.wait t)
    else (.timeout, 0, l.wait (l.now + timeout))
  | none => (.timeout, 0, l.wait (l.now + timeout))

def Listener.setAlarm (n : Nat) (l : Listener) : Listener :=
  { l with alarm := if n = 0 then none else some (l.now + n) }

def listening (tie : Bool) : AcceptCalls Listener where
  alarm := Listener.setAlarm
  accept := Listener.accept tie
  select := Listener.select tie

/-- What a call finds at time `now`. -/
def Listener.start (now : Nat) (arrival : Option (Nat × Nat)) : Listener := ⟨now, none, arrival⟩

/-- A connection in time for a limit at `now + timeout`. -/
def comesInTime (tie : Bool) (timeout now : Nat) : Option (Nat × Nat) → Option Nat
  | some (t, fd) =>
    if decide (t ≤ now) || inTime tie t (now + timeout) then some fd else none
  | none => none

/-- The descriptor of the connection, or the code for none. -/
def descriptorOr (code : Int) (fd : Option Nat) : Outcome := .ret (fd.elim code Int.ofNat)

section Outcomes

variable (tie : Bool) {timeout : Int} (now : Nat) (arrival : Option (Nat × Nat))

theorem acceptT_timed (hT : 0 < timeout) :
    (acceptT (listening tie) timeout false (.start now arrival)).outcome =
      descriptorOr (-2) (comesInTime tie timeout.toNat now arrival) := by
  have hz : timeout.toNat ≠ 0 := by omega
  simp only [acceptT, if_pos hT, listening, Listener.setAlarm, Listener.start, if_neg hz]
  match arrival with
  | none => rfl
  | some (t, fd) =>
    simp only [Listener.accept, comesInTime]
    cases decide (t ≤ now) || inTime tie t (now + timeout.toNat) with
    | true => rfl
    | false => rfl

/-- Without a timeout `accept_t` waits for the connection. -/
theorem acceptT_untimed (hT : ¬ 0 < timeout) :
    (acceptT (listening tie) timeout false (.start now arrival)).outcome =
      arrival.elim .waiting fun p => .ret p.2 := by
  simp only [acceptT, if_neg hT, listening, Listener.start]
  match arrival with
  | none => rfl
  | some (t, fd) => rfl

/-- `accept_t_r` looks for a connection until `Timeout`, also when that is 0. -/
theorem acceptTR_outcome (turns : Nat) :
    (acceptTR (listening tie) (turns + 1) timeout false (.start now arrival)).outcome =
      descriptorOr (-2) (comesInTime tie timeout.toNat now arrival) := by
  simp only [acceptTR, acceptTRLoop, listening, Listener.select, Listener.start, comesInTime]
  match arrival with
  | none => rfl
  | some (t, fd) =>
    simp only
    cases decide (t ≤ now) || inTime tie t (now + timeout.toNat) with
    | true => rfl
    | false => rfl

end Outcomes

/-- Both calls end the same way, and neither reports a timeout that it was not given. -/
def SameAccept (timeout : Int) (r r' : AcceptEnd Listener) : Prop :=
  r.outcome = r'.outcome ∧
    (timeout ≤ 0 → r.outcome ≠ .ret (-2) ∧ r'.outcome ≠ .ret (-2))

theorem descriptorOr_ne_timeout (fd : Nat) : descriptorOr (-2) (some fd) ≠ .ret (-2) := by
  intro h
  have h' : (fd : Int) = -2 := Outcome.ret.inj h
  omega

/-- What has come by the start is in time for any limit. -/
theorem comesInTime_pending {tie : Bool} {timeout now t fd : Nat} (h : t ≤ now) :
    comesInTime tie timeout now (some (t, fd)) = some fd := by
  rw [comesInTime, decide_eq_true h, Bool.true_or, if_pos rfl]

theorem comesInTime_zero {tie : Bool} {now t fd : Nat} (h : ¬ t ≤ now) :
    comesInTime tie 0 now (some (t, fd)) = none := by
  have hlate : inTime tie t (now + 0) = false := by
    cases tie <;> simp [inTime] <;> omega
  rw [comesInTime, decide_eq_false h, hlate, Bool.or_self, if_neg Bool.false_ne_true]

/-- `accept_t` and `accept_t_r` agree if and only if there is a timeout, or the connection
is there before the call. -/
theorem sameAccept_iff (tie : Bool) (turns : Nat) (timeout : Int) (now : Nat)
    (arrival : Option (Nat × Nat)) :
    SameAccept timeout (acceptT (listening tie) timeout false (.start now arrival))
        (acceptTR (listening tie) (turns + 1) timeout false (.start now arrival)) ↔
      0 < timeout ∨ ∃ t fd, arrival = some (t, fd) ∧ t ≤ now := by
  unfold SameAccept
  rw [acceptTR_outcome]
  by_cases hT : 0 < timeout
  · rw [acceptT_timed tie now arrival hT]
    exact iff_of_true ⟨rfl, fun h => by omega⟩ (.inl hT)
  · have hzero : timeout.toNat = 0 := by omega
    rw [acceptT_untimed tie now arrival hT, hzero]
    match arrival with
    | none =>
      refine iff_of_false (fun h => ?_) ?_
      · cases h.1
      · rintro (h | ⟨t, fd, h, -⟩)
        · exact hT h
        · cases h
    | some (t, fd) =>
      by_cases ht : t ≤ now
      · rw [comesInTime_pending ht]
        refine iff_of_true ⟨rfl, fun _ => ?_⟩ (.inr ⟨t, fd, rfl, ht⟩)
        exact ⟨descriptorOr_ne_timeout fd, descriptorOr_ne_timeout fd⟩
      · rw [comesInTime_zero ht]
        refine iff_of_false (fun h => ?_) ?_
        · exact descriptorOr_ne_timeout fd h.1
        · rintro (h | ⟨t', fd', h, hle⟩)
          · exact hT h
          · cases h
            exact ht hle

/-- No timeout, and a connection one time unit after the start of the call: `accept_t_r`
reports a timeout at once. -/
theorem not_sameAccept :
    ¬ ∀ (tie : Bool) (turns : Nat) (timeout : Int) (now : Nat) (arrival : Option (Nat × Nat)),
      SameAccept timeout (acceptT (listening tie) timeout false (.start now arrival))
        (acceptTR (listening tie) (turns + 1) timeout false (.start now arrival)) := by
  intro hall
  have hcode := ((hall true 0 0 0 (some (1, 7))).2 (by decide)).2
  exact hcode rfl

end Netepoll
