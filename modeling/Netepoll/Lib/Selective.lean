import Mathlib.Data.List.Perm.Basic

/-! A queue that readers take from selectively. Its entries fall into classes, and what is
taken is the first entry that some choice admits, where a choice looks at the class only.
Then every class keeps the order in which its entries came. -/

namespace Selective

universe u v

variable {α : Type u} {β : Type v} [DecidableEq β]

/-- The entries of one class. -/
def ofClass (f : α → β) (c : β) (l : List α) : List α := l.filter fun a => decide (f a = c)

/-- In every class, what came in is what was taken, then what is still there. -/
def InOrder (f : α → β) (sent received queued : List α) : Prop :=
  ∀ c, ofClass f c sent = ofClass f c received ++ ofClass f c queued

variable {f : α → β} {sent received queued : List α}

@[simp] theorem ofClass_append (c : β) (l m : List α) :
    ofClass f c (l ++ m) = ofClass f c l ++ ofClass f c m :=
  List.filter_append l m

theorem InOrder.start : InOrder f [] [] [] := fun _ => rfl

theorem InOrder.push (h : InOrder f sent received queued) (a : α) :
    InOrder f (sent ++ [a]) received (queued ++ [a]) := by
  intro c
  rw [ofClass_append, ofClass_append, h c, List.append_assoc]

/-- The first entry that the choice admits is the first one of its class. -/
theorem ofClass_eraseP {p : α → Bool} (hp : ∀ a b, f a = f b → p a = p b) {a : α}
    (ha : queued.find? p = some a) (c : β) :
    ofClass f c queued = ofClass f c [a] ++ ofClass f c (queued.eraseP p) := by
  obtain ⟨hpa, before, after, rfl, hbefore⟩ := List.find?_eq_some_iff_append.mp ha
  have hskip : ∀ b ∈ before, ¬p b = true := by simpa using hbefore
  rw [List.eraseP_append_right _ hskip, List.eraseP_cons_of_pos hpa]
  have hcons : ofClass f c (a :: after) = ofClass f c [a] ++ ofClass f c after :=
    List.filter_append [a] after
  rw [ofClass_append, ofClass_append, hcons, ← List.append_assoc, ← List.append_assoc]
  congr 1
  by_cases hac : f a = c
  · -- before it there is nothing of its class
    have hnone : ofClass f c before = [] := by
      rw [ofClass, List.filter_eq_nil_iff]
      intro b hb hbc
      refine hskip b hb ?_
      rw [hp b a ((decide_eq_true_eq.mp hbc).trans hac.symm)]
      exact hpa
    rw [hnone, List.append_nil, List.nil_append]
  · have hnone : ofClass f c [a] = [] := by simp [ofClass, hac]
    rw [hnone, List.append_nil, List.nil_append]

theorem InOrder.take (h : InOrder f sent received queued) {p : α → Bool}
    (hp : ∀ a b, f a = f b → p a = p b) {a : α} (ha : queued.find? p = some a) :
    InOrder f sent (received ++ [a]) (queued.eraseP p) := by
  intro c
  rw [h c, ofClass_eraseP hp ha c, ofClass_append, List.append_assoc]

theorem InOrder.isPrefix (h : InOrder f sent received queued) (c : β) :
    ofClass f c received <+: ofClass f c sent :=
  ⟨ofClass f c queued, (h c).symm⟩

/-- Nothing is lost and nothing comes twice. -/
theorem InOrder.perm (h : InOrder f sent received queued) : sent.Perm (received ++ queued) := by
  classical
  refine List.perm_iff_count.mpr fun a => ?_
  have hclass (l : List α) : (ofClass f (f a) l).count a = l.count a :=
    List.count_filter (decide_eq_true rfl)
  have hcount := congrArg (List.count a) (h (f a))
  rwa [List.count_append, hclass, hclass, hclass, ← List.count_append] at hcount

theorem InOrder.mem_sent (h : InOrder f sent received queued) {a : α} (ha : a ∈ queued) :
    a ∈ sent :=
  h.perm.mem_iff.mpr (List.mem_append_right received ha)

end Selective
