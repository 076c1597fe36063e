/-! Partial labelled step functions over an arbitrary state. A label carries every
choice the environment makes in a step, so a run is a list of labels. Proved here:
invariants hold along runs, also along runs whose steps all meet a condition, a
step-by-step simulation lifts to runs, and a falling measure bounds the length. -/

namespace Transition

universe u v w x

variable {σ : Type u} {α : Type v} {τ : Type w} {β : Type x}

/-- Take the labels in order. The run is `none` when a label is not enabled. -/
def run (step : σ → α → Option σ) : σ → List α → Option σ
  | s, [] => some s
  | s, a :: as => (step s a).bind fun t => run step t as

@[simp] theorem run_nil (step : σ → α → Option σ) (s : σ) : run step s [] = some s := rfl

theorem run_cons_eq_some {step : σ → α → Option σ} {s u : σ} {a : α} {as : List α} :
    run step s (a :: as) = some u ↔ ∃ t, step s a = some t ∧ run step t as = some u := by
  simp [run, Option.bind_eq_some_iff]

theorem run_append {step : σ → α → Option σ} (s : σ) (as bs : List α) :
    run step s (as ++ bs) = (run step s as).bind fun t => run step t bs := by
  induction as generalizing s with
  | nil => rfl
  | cons a as ih =>
    simp only [List.cons_append, run]
    cases step s a with
    | none => rfl
    | some t => exact ih t

theorem run_append_eq_some {step : σ → α → Option σ} {s u : σ} {as bs : List α} :
    run step s (as ++ bs) = some u ↔
      ∃ t, run step s as = some t ∧ run step t bs = some u := by
  rw [run_append, Option.bind_eq_some_iff]

/-- Every step of the run meets `C`, a condition on the label and the state before it. -/
def Along (step : σ → α → Option σ) (C : σ → α → Prop) : σ → List α → Prop
  | _, [] => True
  | s, a :: as => C s a ∧ ∀ t, step s a = some t → Along step C t as

/-- A condition that can be evaluated can be evaluated along a run. -/
instance Along.decidable (step : σ → α → Option σ) (C : σ → α → Prop)
    [∀ s a, Decidable (C s a)] : (s : σ) → (as : List α) → Decidable (Along step C s as)
  | _, [] => isTrue trivial
  | s, a :: as =>
    match h : step s a with
    | none => decidable_of_iff (C s a) (by simp [Along, h])
    | some t =>
      have := Along.decidable step C t as
      decidable_of_iff (C s a ∧ Along step C t as) (by simp [Along, h])

/-- A condition on the labels alone. -/
theorem along_of_mem {step : σ → α → Option σ} {C : σ → α → Prop} {as : List α}
    (h : ∀ a ∈ as, ∀ s, C s a) (s : σ) : Along step C s as := by
  induction as generalizing s with
  | nil => trivial
  | cons a as ih =>
    exact ⟨h a List.mem_cons_self s, fun t _ => ih (fun b hb => h b (List.mem_cons_of_mem a hb)) t⟩

/-- **Invariant rule.** What every step that meets `C` keeps holds after every run
whose steps all meet `C`. -/
theorem along_invariant {step : σ → α → Option σ} {C : σ → α → Prop} {I : σ → Prop}
    (hstep : ∀ s a t, I s → C s a → step s a = some t → I t) {s t : σ} {as : List α}
    (hs : I s) (hc : Along step C s as) (hr : run step s as = some t) : I t := by
  induction as generalizing s with
  | nil => cases hr; exact hs
  | cons a as ih =>
    obtain ⟨u, hu, hr'⟩ := run_cons_eq_some.mp hr
    exact ih (hstep s a u hs hc.1 hu) (hc.2 u hu) hr'

/-- The invariant rule for runs with no condition on their steps. -/
theorem run_invariant {step : σ → α → Option σ} {I : σ → Prop}
    (hstep : ∀ s a t, I s → step s a = some t → I t) {s t : σ} {as : List α}
    (hs : I s) (hr : run step s as = some t) : I t := by
  induction as generalizing s with
  | nil => cases hr; exact hs
  | cons a as ih =>
    obtain ⟨u, hu, hr'⟩ := run_cons_eq_some.mp hr
    exact ih (hstep s a u hs hu) hr'

/-- Where a step from a good state is good exactly when it meets `C`, the states of a run
are all good exactly when its steps all meet `C`. -/
theorem prefixes_iff_along {step : σ → α → Option σ} {C : σ → α → Prop} {I J : σ → Prop}
    (hJ : ∀ s a t, J s → step s a = some t → J t)
    (hI : ∀ s a t, J s → I s → step s a = some t → (I t ↔ C s a)) {s t : σ} {as : List α}
    (hj : J s) (hs : I s) (hr : run step s as = some t) :
    (∀ pre suf u, as = pre ++ suf → run step s pre = some u → I u) ↔ Along step C s as := by
  induction as generalizing s with
  | nil =>
    refine ⟨fun _ => trivial, fun _ pre suf u hp hu => ?_⟩
    have e : pre = [] := (List.append_eq_nil_iff.mp hp.symm).1
    subst e
    cases hu
    exact hs
  | cons a as ih =>
    obtain ⟨u, hu, hr'⟩ := run_cons_eq_some.mp hr
    constructor
    · intro h
      have hIu : I u := h [a] as u rfl (run_cons_eq_some.mpr ⟨u, hu, rfl⟩)
      refine ⟨(hI s a u hj hs hu).mp hIu, fun u' hu' => ?_⟩
      have e : u = u' := Option.some.inj (hu.symm.trans hu')
      subst e
      refine (ih (hJ s a u hj hu) hIu hr').mp fun pre suf v hp hv => ?_
      exact h (a :: pre) suf v (by rw [hp]; rfl) (run_cons_eq_some.mpr ⟨u, hu, hv⟩)
    · rintro ⟨hc, ht⟩ pre suf v hp hv
      cases pre with
      | nil => cases hv; exact hs
      | cons a' pre =>
        rw [List.cons_append, List.cons.injEq] at hp
        obtain ⟨rfl, hp⟩ := hp
        obtain ⟨u', hu', hv'⟩ := run_cons_eq_some.mp hv
        have e : u = u' := Option.some.inj (hu.symm.trans hu')
        subst e
        exact (ih (hJ s a u hj hu) ((hI s a u hj hs hu).mpr hc) hr').mpr (ht u hu) pre suf v hp hv'

/-- Two conditions that agree in the states of an invariant agree along a run. -/
theorem along_iff_along {step : σ → α → Option σ} {P C D : σ → α → Prop} {I : σ → Prop}
    (hstep : ∀ s a t, I s → P s a → step s a = some t → I t)
    (hiff : ∀ s a, I s → P s a → (C s a ↔ D s a)) {s : σ} {as : List α} (hs : I s)
    (hp : Along step P s as) : Along step C s as ↔ Along step D s as := by
  induction as generalizing s with
  | nil => exact Iff.rfl
  | cons a as ih =>
    have hrest (t : σ) (ht : step s a = some t) : Along step C t as ↔ Along step D t as :=
      ih (hstep s a t hs hp.1 ht) (hp.2 t ht)
    exact and_congr (hiff s a hs hp.1) (forall_congr' fun t => imp_congr_right (hrest t))

/-- Two conditions that agree in the states of an invariant, which steps that meet the second
one keep, agree along a run. -/
theorem along_congr {step : σ → α → Option σ} {C D : σ → α → Prop} {I : σ → Prop}
    (hstep : ∀ s a t, I s → D s a → step s a = some t → I t)
    (hiff : ∀ s a, I s → (C s a ↔ D s a)) {s : σ} {as : List α} (hs : I s) :
    Along step C s as ↔ Along step D s as := by
  induction as generalizing s with
  | nil => exact Iff.rfl
  | cons a as ih =>
    constructor
    · rintro ⟨hc, hrest⟩
      have hd := (hiff s a hs).mp hc
      exact ⟨hd, fun t ht => (ih (hstep s a t hs hd ht)).mp (hrest t ht)⟩
    · rintro ⟨hd, hrest⟩
      exact ⟨(hiff s a hs).mpr hd, fun t ht => (ih (hstep s a t hs hd ht)).mpr (hrest t ht)⟩

/-- **Simulation rule.** If every step of the first system is matched by a run of the
second that restores `R`, every run of the first is. -/
theorem run_simulation {step : σ → α → Option σ} {step' : τ → β → Option τ}
    {R : σ → τ → Prop}
    (hsim : ∀ s a s' t, R s t → step s a = some s' →
      ∃ bs t', run step' t bs = some t' ∧ R s' t')
    {s s' : σ} {t : τ} {as : List α} (h : R s t) (hr : run step s as = some s') :
    ∃ bs t', run step' t bs = some t' ∧ R s' t' := by
  induction as generalizing s t with
  | nil => cases hr; exact ⟨[], t, rfl, h⟩
  | cons a as ih =>
    obtain ⟨u, hu, hr'⟩ := run_cons_eq_some.mp hr
    obtain ⟨bs, t₁, hb, h₁⟩ := hsim s a u t h hu
    obtain ⟨cs, t₂, hc, h₂⟩ := ih h₁ hr'
    exact ⟨bs ++ cs, t₂, run_append_eq_some.mpr ⟨t₁, hb, hc⟩, h₂⟩

/-- A measure that falls at every step, but for the steps that `p` picks out, which raise it by
less than `k`, bounds the length of a run. -/
theorem length_le_of_raised {step : σ → α → Option σ} {C : σ → α → Prop} {I : σ → Prop}
    (μ : σ → Nat) (p : α → Bool) (k : Nat)
    (hstep : ∀ s a t, I s → C s a → step s a = some t →
      I t ∧ μ t < μ s + if p a = true then k else 0)
    {s t : σ} {as : List α} (hs : I s) (hc : Along step C s as)
    (hr : run step s as = some t) : as.length + μ t ≤ μ s + k * as.countP p := by
  induction as generalizing s with
  | nil => cases hr; simp
  | cons a as ih =>
    obtain ⟨u, hu, hr'⟩ := run_cons_eq_some.mp hr
    obtain ⟨hi, hlt⟩ := hstep s a u hs hc.1 hu
    have hrest := ih hi (hc.2 u hu) hr'
    rw [List.length_cons, List.countP_cons, Nat.mul_add]
    split at hlt <;> rename_i hp <;> simp only [hp, if_true, if_false, Bool.false_eq_true] <;> omega

/-- A measure that falls at every step bounds the length of a run. -/
theorem length_le_of_measure {step : σ → α → Option σ} {C : σ → α → Prop}
    {I : σ → Prop} (μ : σ → Nat)
    (hstep : ∀ s a t, I s → C s a → step s a = some t → I t ∧ μ t < μ s)
    {s t : σ} {as : List α} (hs : I s) (hc : Along step C s as)
    (hr : run step s as = some t) : as.length + μ t ≤ μ s := by
  have hle := length_le_of_raised μ (fun _ => false) 0 (by simpa using hstep) hs hc hr
  omega

end Transition
