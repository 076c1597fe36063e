import Netepoll.Interrupts

/-! The code of a call against the one that `_Exp_flag` would have given had the call found
it clear. A call without a timeout does not clear the flag, so it may report the timeout of
an earlier call. -/

namespace Netepoll

open Transition

/-- The code is a matter of the call alone, and -2 stands for an alarm of its own. -/
structure Returned.Own (r : Returned) : Prop where
  code : r.code = r.cause.code r.ownFlag
  delivered : r.code = -2 → r.delivered = true
  reset : r.timeout = 0 → r.cause = .readError ECONNRESET → r.code = -1

def NeverInherited (s : Process) : Prop := ∀ r, s.returned = some r → r.Own

def CallAction.isError : CallAction → Bool
  | .error _ => true
  | _ => false

/-- No system call fails in a call without a timeout while the flag is still set. -/
def FailsClear (s : Process) (a : CallAction) : Prop :=
  a.isError = true → s.timeout = 0 → s.expFlag = false

instance (s : Process) (a : CallAction) : Decidable (FailsClear s a) :=
  inferInstanceAs (Decidable (a.isError = true → s.timeout = 0 → s.expFlag = false))

/-- In a call, behind the statement that clears the flag. -/
def CallPc.cleared : CallPc → Bool
  | .idle | .alarmSet | .acceptAlarmSet => false
  | _ => true

/-- A system call has returned -1. -/
def CallPc.erred : CallPc → Bool
  | .failed _ | .report _ | .acceptFailed _ | .acceptReport _ => true
  | _ => false

structure FlagInv (s : Process) : Prop where
  untimed : s.timeout = 0 → s.alarm = .off ∧ s.ownFlag = false
  own : s.ownFlag = true → s.alarm = .delivered
  synced : s.pc.cleared = true → 0 < s.timeout → s.expFlag = s.ownFlag
  erred : s.pc.erred = true → s.timeout = 0 → s.expFlag = false
  returned : NeverInherited s

theorem FlagInv.flag {s : Process} (h : FlagInv s) (he : s.pc.erred = true) :
    s.expFlag = s.ownFlag := by
  rcases Nat.eq_zero_or_pos s.timeout with h0 | hpos
  · rw [h.erred he h0, (h.untimed h0).2]
  · refine h.synced ?_ hpos
    cases hpc : s.pc <;> simp [hpc, CallPc.erred, CallPc.cleared] at he ⊢

/-- Only the flag makes a code -2. -/
theorem Cause.flag_of_timeout {flag : Bool} (cause : Cause) (h : cause.code flag = -2) :
    flag = true := by
  cases cause with
  | nullBuf => cases h
  | full => cases h
  | eof => cases h
  | readError errno =>
    cases flag with
    | true => rfl
    | false =>
      rw [Cause.code, if_neg Bool.false_ne_true] at h
      split at h
      · cases h
      · cases h
  | acceptError errno =>
    cases flag with
    | true => rfl
    | false => cases h
  | accepted fd =>
    have hfd : (fd : Int) = -2 := h
    omega

theorem cancel_delivered (s : Process) :
    s.cancel.alarm = .delivered ↔ s.alarm = .delivered := by
  simp only [Process.cancel]
  split
  · rename_i h
    simp [h.2]
  · rfl

/-! ## What keeps the invariant -/

section Keep

variable {s : Process} (h : FlagInv s)
include h

theorem FlagInv.cancel : FlagInv s.cancel := by
  refine ⟨fun h0 => ?_, fun ho => ?_, h.synced, h.erred, h.returned⟩
  · have hoff := h.untimed h0
    refine ⟨?_, hoff.2⟩
    rw [Process.cancel, if_neg fun hc => by rw [hoff.1] at hc; cases hc.2]
    exact hoff.1
  · exact (cancel_delivered s).mpr (h.own ho)

theorem FlagInv.move {pc : CallPc} (hc : pc.cleared = true → s.pc.cleared = true)
    (he : pc.erred = true → s.timeout = 0 → s.expFlag = false) :
    FlagInv { s with pc := pc } :=
  ⟨h.untimed, h.own, fun hp => h.synced (hc hp), he, h.returned⟩

theorem FlagInv.ret {cause : Cause} (hc : cause.code s.expFlag = cause.code s.ownFlag) :
    FlagInv (s.ret cause) := by
  refine ⟨h.untimed, h.own, fun hp => (by cases hp), fun hp => (by cases hp), fun r hr => ?_⟩
  obtain rfl := Option.some.inj hr
  refine ⟨hc, fun h2 => ?_, fun h0 hcause => ?_⟩
  · have hcode : cause.code s.ownFlag = -2 := hc.symm.trans h2
    exact decide_eq_true (h.own (cause.flag_of_timeout hcode))
  · have hreset : cause.code false = -1 := by
      rw [show cause = .readError ECONNRESET from hcause]
      rfl
    exact hc.trans (by rw [(h.untimed h0).2, hreset])

theorem FlagInv.clearFlag (pc : CallPc) : FlagInv (s.clearFlag pc) :=
  ⟨fun h0 => ⟨(h.untimed h0).1, rfl⟩, fun ho => (by cases ho), fun _ _ => rfl, fun _ _ => rfl,
    h.returned⟩

theorem FlagInv.begin (timeout : Int) {timed untimed : CallPc} (hc : timed.cleared = false)
    (ht : timed.erred = false) (hu : untimed.erred = false) :
    FlagInv (s.begin timeout timed untimed) := by
  by_cases hT : 0 < timeout
  · have hpos : timeout.toNat ≠ 0 := by omega
    rw [Process.begin, if_pos hT, if_pos hT]
    refine ⟨fun h0 => absurd h0 hpos, fun ho => (by cases ho), fun hp => ?_, fun hp => ?_,
      h.returned⟩
    · exact absurd (hc.symm.trans hp) Bool.false_ne_true
    · exact absurd (ht.symm.trans hp) Bool.false_ne_true
  · have hzero : timeout.toNat = 0 := by omega
    rw [Process.begin, if_neg hT, if_neg hT, hzero]
    refine ⟨fun _ => ⟨rfl, rfl⟩, fun ho => (by cases ho), fun _ hpos => ?_, fun hp => ?_,
      h.returned⟩
    · exact absurd hpos (Nat.lt_irrefl 0)
    · exact absurd (hu.symm.trans hp) Bool.false_ne_true

theorem FlagInv.deliver (ha : s.alarm = .pending) : FlagInv s.deliver := by
  have hpos : s.timeout ≠ 0 := fun h0 => by
    rw [(h.untimed h0).1] at ha
    cases ha
  exact ⟨fun h0 => absurd h0 hpos, fun _ => rfl, fun _ _ => rfl, fun _ h0 => absurd h0 hpos,
    h.returned⟩

theorem FlagInv.next {t : Process} (hs : nextStatement s = some t) : FlagInv t := by
  have hmove : ∀ {pc}, s.pc.cleared = true → pc.erred = false → FlagInv { s with pc := pc } :=
    fun hp he => h.move (fun _ => hp) fun hp' => absurd (he.symm.trans hp') Bool.false_ne_true
  cases nextStatement_cases hs with
  | clearFlag hpc => exact h.clearFlag _
  | test hpc =>
    refine hmove (by rw [hpc]; rfl) ?_
    split <;> rfl
  | enter hpc =>
    rcases hpc with ⟨hpc, rfl⟩ | ⟨hpc, rfl⟩
    · exact hmove (by rw [hpc]; rfl) rfl
    · exact hmove (by rw [hpc]; rfl) rfl
  | advance hpc =>
    obtain ⟨h1, h2, h3, h4, h5⟩ : FlagInv { s with pc := .loop } := hmove (by rw [hpc]; rfl) rfl
    exact ⟨h1, h2, h3, h4, h5⟩
  | finish hpc =>
    -- the flag is not looked at
    refine h.cancel.ret ?_
    rcases hpc with ⟨-, rfl⟩ | ⟨-, rfl⟩ | ⟨fd, -, rfl⟩ <;> rfl
  | cancel hpc =>
    obtain ⟨he, hc⟩ : s.pc.erred = true ∧ s.cancel.pc.cleared = true := by
      rcases hpc with ⟨hpc, -⟩ | ⟨hpc, -⟩
      · exact ⟨by rw [hpc]; rfl, by rw [show s.cancel.pc = s.pc from rfl, hpc]; rfl⟩
      · exact ⟨by rw [hpc]; rfl, by rw [show s.cancel.pc = s.pc from rfl, hpc]; rfl⟩
    exact h.cancel.move (fun _ => hc) fun _ => h.erred he
  | report hpc =>
    have he : s.pc.erred = true := by
      rcases hpc with ⟨hpc, -⟩ | ⟨hpc, -⟩
      · rw [hpc]
        rfl
      · rw [hpc]
        rfl
    exact h.ret (by rw [h.flag he])

/-- A system call that fails when the flag is clear, or in a call with a timeout. -/
theorem FlagInv.error {errno : Nat} {pc : CallPc} (hpc : s.pc.erring errno = some pc)
    (hclear : s.timeout = 0 → s.expFlag = false) : FlagInv { s with pc := pc } := by
  have hcleared : s.pc.cleared = true := by
    cases hp : s.pc <;> simp [hp, CallPc.erring, CallPc.cleared] at hpc ⊢
  exact h.move (fun _ => hcleared) fun _ => hclear

theorem FlagInv.step {t : Process} {a : CallAction} (hclear : FailsClear s a)
    (hs : callStep s a = some t) : FlagInv t := by
  have hmove : ∀ {pc}, s.pc.cleared = true → pc.erred = false → FlagInv { s with pc := pc } :=
    fun hp he => h.move (fun _ => hp) fun hp' => absurd (he.symm.trans hp') Bool.false_ne_true
  cases a with
  | readT buf readLen timeout =>
    simp only [callStep, Option.ite_none_left_eq_some] at hs
    obtain ⟨hpc, hs⟩ := hs
    have hidle : s.pc = .idle := Decidable.not_not.mp hpc
    cases buf with
    | true =>
      have hbegin : FlagInv (s.begin timeout .alarmSet .loop) := h.begin timeout rfl rfl rfl
      obtain ⟨h1, h2, h3, h4, h5⟩ := hbegin
      rw [if_pos rfl, Option.some_inj] at hs
      exact hs ▸ ⟨h1, h2, h3, h4, h5⟩
    | false =>
      rw [if_neg Bool.false_ne_true, Option.some_inj] at hs
      have hoff : FlagInv { s with timeout := timeout.toNat, alarm := .off, ownFlag := false } := by
        refine ⟨fun _ => ⟨rfl, rfl⟩, fun ho => (by cases ho), fun hp => ?_, fun hp => ?_,
          h.returned⟩
        · rw [show s.pc = .idle from hidle] at hp
          cases hp
        · rw [show s.pc = .idle from hidle] at hp
          cases hp
      exact hs ▸ hoff.ret rfl
  | acceptT timeout =>
    simp only [callStep, Option.ite_none_left_eq_some, Option.some_inj] at hs
    exact hs.2 ▸ h.begin timeout rfl rfl rfl
  | next => exact h.next hs
  | data n =>
    simp only [callStep, Option.ite_none_right_eq_some, Option.some_inj] at hs
    exact hs.2 ▸ hmove (by rw [hs.1.1]; rfl) rfl
  | eof =>
    simp only [callStep, Option.ite_none_right_eq_some, Option.some_inj] at hs
    exact hs.2 ▸ hmove (by rw [hs.1]; rfl) rfl
  | error errno =>
    obtain ⟨pc, hpc, rfl⟩ := Option.map_eq_some_iff.mp hs
    exact h.error hpc (hclear rfl)
  | conn fd =>
    simp only [callStep, Option.ite_none_right_eq_some, Option.some_inj] at hs
    exact hs.2 ▸ hmove (by rw [hs.1]; rfl) rfl
  | sigalrm =>
    simp only [callStep, Option.ite_none_right_eq_some, Option.some_inj] at hs
    exact hs.2 ▸ h.deliver hs.1

end Keep

theorem flagInv_start : FlagInv .start :=
  ⟨fun _ => ⟨rfl, rfl⟩, fun ho => (by cases ho), fun hp => (by cases hp), fun hp => (by cases hp),
    fun _ hr => (by cases hr)⟩

/-- In a run of calls in which no system call fails while an untimed call has the flag of an
earlier one, every code is a matter of the call that returns it. -/
theorem neverInherited (as : List CallAction) (s : Process)
    (hclear : Along callStep FailsClear .start as) (hrun : run callStep .start as = some s) :
    NeverInherited s :=
  (along_invariant (fun _ _ _ h hc hs => h.step hc hs) flagInv_start hclear hrun).returned

/-- A `read_t` of one byte that times out after 5 seconds. -/
def timedOut : List CallAction :=
  [.readT true 1 5, .next, .next, .next, .sigalrm, .next, .next]

/-- After it, a `read_t` without a timeout that gets its byte. -/
theorem neverInherited_timedOut :
    NeverInherited ⟨.idle, 0, 1, 1, true, .off, false, some ⟨0, .full, 0, false, false⟩⟩ :=
  neverInherited (timedOut ++ [.readT true 1 0, .next, .next, .data 1, .next, .next, .next]) _
    (by decide) (by decide)

/-- After it, a `read_t` without a timeout whose connection is reset: it returns -2. -/
theorem not_neverInherited :
    ¬ ∀ (as : List CallAction) (s : Process), run callStep .start as = some s →
      NeverInherited s := by
  intro hall
  have hrun : run callStep .start
      (timedOut ++ [.readT true 1 0, .next, .next, .error ECONNRESET, .next, .next]) =
        some ⟨.idle, 0, 1, 0, true, .off, false,
          some ⟨-2, .readError ECONNRESET, 0, false, false⟩⟩ := by decide
  have hreset := (hall _ _ hrun _ rfl).reset rfl rfl
  revert hreset
  decide

end Netepoll
