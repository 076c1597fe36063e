import Netepoll.Interrupts

/-! Where in `read_t` the signal of its alarm may come. The alarm goes off once, and only a
`read` that it interrupts makes the call look at `_Exp_flag`, so a signal with a `read` still
to come is lost. -/

namespace Netepoll

open Transition

/-- The next system call of `read_t` is a `read`, or the call is in one. -/
def Process.readsOn (s : Process) : Bool :=
  match s.pc with
  | .alarmSet | .loop => s.len < s.readLen
  | .issue | .reading => true
  | .advance i => s.len + i < s.readLen
  | _ => false

/-- The alarm of the call is spent, and it still reads. -/
def Process.Lost (s : Process) : Prop := s.alarm = .delivered ∧ s.readsOn = true

/-- The signal comes while `read` blocks, or when no more `read` is to come. -/
def Noticed (s : Process) (a : CallAction) : Prop :=
  a = .sigalrm → s.pc = .reading ∨ s.readsOn = false

instance (s : Process) (a : CallAction) : Decidable (Noticed s a) :=
  inferInstanceAs (Decidable (a = .sigalrm → s.pc = .reading ∨ s.readsOn = false))

theorem Process.not_lost_of_readsOn {s : Process} (h : s.readsOn = false) : ¬ s.Lost :=
  fun hl => Bool.false_ne_true (h.symm.trans hl.2)

theorem Process.not_lost_of_alarm {s : Process} (h : s.alarm ≠ .delivered) : ¬ s.Lost :=
  fun hl => h hl.1

/-- A statement does not bring a lost timeout about. -/
theorem not_lost_next {s t : Process} (h : ¬ s.Lost) (hs : nextStatement s = some t) :
    ¬ t.Lost := by
  cases nextStatement_cases hs with
  | clearFlag hpc =>
    rcases hpc with ⟨hpc, rfl⟩ | ⟨-, rfl⟩
    · intro hl
      have hreads : decide ((s.len : Int) < s.readLen) = true := hl.2
      exact h ⟨hl.1, by rw [Process.readsOn, hpc]; exact hreads⟩
    · exact Process.not_lost_of_readsOn rfl
  | test hpc =>
    intro hl
    refine h ⟨hl.1, ?_⟩
    by_cases hlt : (s.len : Int) < s.readLen
    · simpa [Process.readsOn, hpc] using hlt
    · have hfull := hl.2
      simp [Process.readsOn, hlt] at hfull
  | enter hpc =>
    rcases hpc with ⟨hpc, rfl⟩ | ⟨-, rfl⟩
    · exact fun hl => h ⟨hl.1, by rw [Process.readsOn, hpc]⟩
    · exact Process.not_lost_of_readsOn rfl
  | advance hpc =>
    intro hl
    refine h ⟨hl.1, ?_⟩
    simpa [Process.readsOn, hpc] using hl.2
  | finish hpc => exact Process.not_lost_of_readsOn rfl
  | cancel hpc =>
    rcases hpc with ⟨-, rfl⟩ | ⟨-, rfl⟩
    · exact Process.not_lost_of_readsOn rfl
    · exact Process.not_lost_of_readsOn rfl
  | report hpc => exact Process.not_lost_of_readsOn rfl

theorem begin_not_delivered (s : Process) (timeout : Int) (timed untimed : CallPc) :
    (s.begin timeout timed untimed).alarm ≠ .delivered := by
  simp only [Process.begin]
  split <;> decide

/-- A signal leaves a call that still reads, unless it interrupts a `read`. -/
theorem lost_deliver_iff (s : Process) :
    ¬ s.deliver.Lost ↔ s.pc = .reading ∨ s.readsOn = false := by
  have hreads : s.deliver.readsOn = true ↔ s.pc ≠ .reading ∧ s.readsOn = true := by
    cases hpc : s.pc <;> simp [Process.readsOn, Process.deliver, CallPc.interrupted, hpc]
  rw [Process.Lost, hreads]
  simp only [Process.deliver, true_and, not_and, Bool.not_eq_true]
  exact Decidable.or_iff_not_imp_left.symm

/-- A state after a step has lost a timeout exactly when the step is a signal out of place. -/
theorem lost_step_iff {s t : Process} {a : CallAction} (h : ¬ s.Lost)
    (hs : callStep s a = some t) : ¬ t.Lost ↔ Noticed s a := by
  cases a with
  | readT buf readLen timeout =>
    refine iff_of_true ?_ fun ha => by cases ha
    simp only [callStep, Option.ite_none_left_eq_some] at hs
    obtain ⟨-, hs⟩ := hs
    cases buf with
    | true =>
      rw [if_pos rfl, Option.some_inj] at hs
      exact hs ▸ Process.not_lost_of_alarm (begin_not_delivered s timeout .alarmSet .loop)
    | false =>
      rw [if_neg Bool.false_ne_true, Option.some_inj] at hs
      exact hs ▸ Process.not_lost_of_readsOn rfl
  | acceptT timeout =>
    refine iff_of_true ?_ fun ha => by cases ha
    simp only [callStep, Option.ite_none_left_eq_some, Option.some_inj] at hs
    exact hs.2 ▸ Process.not_lost_of_alarm (begin_not_delivered s timeout _ _)
  | next => exact iff_of_true (not_lost_next h hs) fun ha => by cases ha
  | data n =>
    refine iff_of_true ?_ fun ha => by cases ha
    simp only [callStep, Option.ite_none_right_eq_some, Option.some_inj] at hs
    -- the `read` that returns is one that no signal came before
    have ha : s.alarm ≠ .delivered := fun ha => h ⟨ha, by rw [Process.readsOn, hs.1.1]⟩
    exact hs.2 ▸ Process.not_lost_of_alarm ha
  | eof =>
    refine iff_of_true ?_ fun ha => by cases ha
    simp only [callStep, Option.ite_none_right_eq_some, Option.some_inj] at hs
    exact hs.2 ▸ Process.not_lost_of_readsOn rfl
  | error errno =>
    refine iff_of_true ?_ fun ha => by cases ha
    obtain ⟨pc, hpc, rfl⟩ := Option.map_eq_some_iff.mp hs
    refine Process.not_lost_of_readsOn ?_
    cases hp : s.pc <;> simp [hp, CallPc.erring] at hpc <;> subst hpc <;> rfl
  | conn fd =>
    refine iff_of_true ?_ fun ha => by cases ha
    simp only [callStep, Option.ite_none_right_eq_some, Option.some_inj] at hs
    exact hs.2 ▸ Process.not_lost_of_readsOn rfl
  | sigalrm =>
    simp only [callStep, Option.ite_none_right_eq_some, Option.some_inj] at hs
    rw [← hs.2, lost_deliver_iff]
    exact ⟨fun h _ => h, fun h => h rfl⟩

/-- In a run of calls no state has a timeout lost if and only if every signal comes while
`read` blocks or when no more `read` is to come. -/
theorem noLostTimeout_iff (as : List CallAction) (s : Process)
    (hrun : run callStep .start as = some s) :
    (∀ pre suf t, as = pre ++ suf → run callStep .start pre = some t → ¬ t.Lost) ↔
      Along callStep Noticed .start as :=
  prefixes_iff_along (J := fun _ => True) (fun _ _ _ _ _ => trivial)
    (fun _ _ _ _ h hs => lost_step_iff h hs) trivial
    (Process.not_lost_of_readsOn rfl) hrun

/-- A `read` of one byte that the alarm interrupts. -/
theorem noLostTimeout_iff_interrupted :
    (∀ pre suf t,
      [CallAction.readT true 1 5, .next, .next, .next, .sigalrm, .next, .next] = pre ++ suf →
        run callStep .start pre = some t → ¬ t.Lost) ↔
      Along callStep Noticed .start
        [.readT true 1 5, .next, .next, .next, .sigalrm, .next, .next] :=
  noLostTimeout_iff _ ⟨.idle, 5, 1, 0, true, .delivered, true,
    some ⟨-2, .readError EINTR, 5, true, true⟩⟩ (by decide)

/-- The first of two bytes comes, then the signal before the next `read`: the call is in that
`read` and no alarm will end it. -/
theorem not_noLostTimeout :
    ¬ ∀ (as : List CallAction) (s : Process), run callStep .start as = some s → ¬ s.Lost := by
  intro hall
  have hrun : run callStep .start
      [.readT true 2 5, .next, .next, .next, .data 1, .sigalrm, .next, .next, .next] =
        some ⟨.reading, 5, 2, 1, true, .delivered, true, none⟩ := by decide
  exact hall _ _ hrun ⟨rfl, rfl⟩

end Netepoll
