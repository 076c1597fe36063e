import Mathlib.Algebra.BigOperators.Fin
import Mathlib.Algebra.Order.BigOperators.Group.Finset
import Mathlib.Data.List.FinRange
import Mathlib.Data.List.Perm.Basic

/-! The sum of a weight over a finite family of states, and what a change of one state or of
all of them does to it. With weights 0 and 1 it counts the states of a kind. Beside it the
list of what the states of a family carry, up to its order. -/

namespace Tally

universe u v

variable {ι : Type u} {β : Type v} [Fintype ι]

def total (f : β → Nat) (w : ι → β) : Nat := ∑ i, f (w i)

theorem le_total (f : β → Nat) (w : ι → β) (i : ι) : f (w i) ≤ total f w :=
  Finset.single_le_sum (f := fun j => f (w j)) (fun _ _ => Nat.zero_le _) (Finset.mem_univ i)

theorem total_eq_zero {f : β → Nat} {w : ι → β} (h : ∀ i, f (w i) = 0) : total f w = 0 :=
  Finset.sum_eq_zero fun i _ => h i

theorem total_const {f : β → Nat} {w : ι → β} {k : Nat} (h : ∀ i, f (w i) = k) :
    total f w = Fintype.card ι * k := by
  rw [total, Finset.sum_congr rfl fun i _ => h i, Finset.sum_const, Finset.card_univ, smul_eq_mul]

/-- Every state gains at most `k`. -/
theorem total_le_add {f : β → Nat} {w v : ι → β} {k : Nat} (h : ∀ i, f (v i) ≤ f (w i) + k) :
    total f v ≤ total f w + Fintype.card ι * k := by
  calc total f v ≤ ∑ i, (f (w i) + k) := Finset.sum_le_sum fun i _ => h i
    _ = total f w + Fintype.card ι * k := by
      rw [Finset.sum_add_distrib, Finset.sum_const, Finset.card_univ, smul_eq_mul]
      rfl

variable [DecidableEq ι]

/-- One state changes: the sum changes by the difference of the weights. -/
theorem total_update (f : β → Nat) (w : ι → β) (i : ι) (b : β) :
    total f (Function.update w i b) + f (w i) = total f w + f b := by
  have hrest : ∑ j ∈ Finset.univ.erase i, f (Function.update w i b j) =
      ∑ j ∈ Finset.univ.erase i, f (w j) := by
    refine Finset.sum_congr rfl fun j hj => ?_
    rw [Function.update_of_ne (Finset.ne_of_mem_erase hj)]
  have hnew := Finset.add_sum_erase Finset.univ (fun j => f (Function.update w i b j))
    (Finset.mem_univ i)
  have hold := Finset.add_sum_erase Finset.univ (fun j => f (w j)) (Finset.mem_univ i)
  rw [Function.update_self, hrest] at hnew
  rw [total, total, ← hnew, ← hold]
  omega

section Collect

variable {γ : Type u} {n : Nat}

/-- What the states of a family carry. -/
def collect (f : β → Option γ) (w : Fin n → β) : List γ :=
  (List.finRange n).filterMap fun i => f (w i)

theorem collect_congr {f : β → Option γ} {w v : Fin n → β} (h : ∀ i, f (v i) = f (w i)) :
    collect f v = collect f w :=
  congrArg (fun g => (List.finRange n).filterMap g) (funext h)

theorem collect_eq_nil {f : β → Option γ} {w : Fin n → β} (h : ∀ i, f (w i) = none) :
    collect f w = [] :=
  List.filterMap_eq_nil_iff.mpr fun i _ => h i

/-- One state changes: what the others carry stays. -/
theorem collect_update (f : β → Option γ) (w : Fin n → β) (i : Fin n) (b : β) :
    ∃ rest, (collect f w).Perm ((f (w i)).toList ++ rest) ∧
      (collect f (Function.update w i b)).Perm ((f b).toList ++ rest) := by
  have hsplit : (List.finRange n).Perm (i :: (List.finRange n).erase i) :=
    List.perm_cons_erase (List.mem_finRange i)
  have hcons (g : Fin n → Option γ) :
      ((List.finRange n).filterMap g).Perm
        ((g i).toList ++ ((List.finRange n).erase i).filterMap g) := by
    refine (hsplit.filterMap g).trans (List.Perm.of_eq ?_)
    cases hg : g i with
    | none => rw [List.filterMap_cons_none hg]; rfl
    | some c => rw [List.filterMap_cons_some hg]; rfl
  refine ⟨((List.finRange n).erase i).filterMap fun j => f (w j), hcons _, ?_⟩
  have hnew := hcons fun j => f (Function.update w i b j)
  have hrest : (((List.finRange n).erase i).filterMap fun j => f (Function.update w i b j)) =
      ((List.finRange n).erase i).filterMap fun j => f (w j) := by
    refine List.filterMap_congr fun j hj => ?_
    have hji : j ≠ i := ((List.nodup_finRange n).mem_erase_iff.mp hj).1
    rw [Function.update_of_ne hji]
  rw [hrest, Function.update_self] at hnew
  exact hnew

/-- A list whose images are known up to their order has an entry for each of them, and a
change there is a change of one image. -/
theorem exists_of_map_perm {δ : Type v} {l : List δ} {f : δ → γ} {c : γ} {rest : List γ}
    (h : (l.map f).Perm (c :: rest)) :
    ∃ k a, l[k]? = some a ∧ f a = c ∧ (∀ b, ((l.set k b).map f).Perm (f b :: rest)) ∧
      ((l.eraseIdx k).map f).Perm rest := by
  obtain ⟨a, ha, rfl⟩ := List.mem_map.mp (h.mem_iff.mpr List.mem_cons_self)
  obtain ⟨k, hk, rfl⟩ := List.getElem_of_mem ha
  have hperm : ((l.eraseIdx k).map f).Perm rest := by
    have hcons := (List.getElem_cons_eraseIdx_perm hk).map f
    exact (List.perm_cons _).mp (hcons.trans h)
  refine ⟨k, l[k], List.getElem?_eq_getElem hk, rfl, fun b => ?_, hperm⟩
  exact ((List.set_perm_cons_eraseIdx hk b).map f).trans (hperm.cons (f b))

end Collect

end Tally
