import Mathlib.Data.List.Basic
import Mathlib.Data.Nat.ModEq

/-! A circular buffer, an array of `size` cells with the indices of the first element and of
the next free cell, against the queue it stands for. -/

namespace Ring

universe u

variable {α : Type u}

/-- The `count` cells from `head` on, around the end of the array, hold `xs` in order. -/
structure Represents (cells : List α) (size head tail count : Nat) (xs : List α) : Prop where
  length_cells : cells.length = size
  head_lt : head < size
  tail_eq : tail = (head + count) % size
  count_le : count ≤ size
  length_eq : xs.length = count
  get : ∀ i < count, cells[(head + i) % size]? = xs[i]?

variable {cells xs : List α} {size head tail count : Nat}

/-- An empty queue, whatever the cells hold. -/
theorem represents_nil (hsize : 0 < size) (h : cells.length = size) :
    Represents cells size 0 0 0 [] where
  length_cells := h
  head_lt := hsize
  tail_eq := (Nat.zero_mod size).symm
  count_le := Nat.zero_le _
  length_eq := rfl
  get := fun _ hi => absurd hi (Nat.not_lt_zero _)

theorem Represents.tail_lt (h : Represents cells size head tail count xs) : tail < size := by
  rw [h.tail_eq]
  exact Nat.mod_lt _ (Nat.zero_lt_of_lt h.head_lt)

/-- The buffer stands for one queue only. -/
theorem Represents.unique {ys : List α} (h : Represents cells size head tail count xs)
    (h' : Represents cells size head tail count ys) : xs = ys := by
  refine List.ext_getElem? fun i => ?_
  rcases Nat.lt_or_ge i count with hlt | hge
  · exact (h.get i hlt).symm.trans (h'.get i hlt)
  · rw [List.getElem?_eq_none (h.length_eq.symm ▸ hge),
      List.getElem?_eq_none (h'.length_eq.symm ▸ hge)]

theorem add_mod_ne {size i j : Nat} (head : Nat) (hij : i < j) (hj : j < size) :
    (head + i) % size ≠ (head + j) % size := by
  intro heq
  have hmod : i ≡ j [MOD size] := Nat.ModEq.add_left_cancel' head heq
  exact Nat.ne_of_lt hij (hmod.eq_of_lt_of_lt (Nat.lt_trans hij hj) hj)

/-- A store into the next free cell. -/
theorem Represents.push (h : Represents cells size head tail count xs) (hfull : count < size)
    (a : α) :
    Represents (cells.set tail a) size head ((tail + 1) % size) (count + 1) (xs ++ [a]) := by
  refine ⟨by rw [List.length_set, h.length_cells], h.head_lt, ?_, hfull, ?_, fun i hi => ?_⟩
  · rw [h.tail_eq, Nat.mod_add_mod, Nat.add_assoc]
  · rw [List.length_append, h.length_eq]
    rfl
  · rcases Nat.lt_or_eq_of_le (Nat.le_of_lt_succ hi) with hlt | rfl
    · have hne : tail ≠ (head + i) % size := by
        rw [h.tail_eq]
        exact (add_mod_ne head hlt hfull).symm
      rw [List.getElem?_set_ne hne, h.get i hlt,
        List.getElem?_append_left (h.length_eq.symm ▸ hlt)]
    · rw [← h.tail_eq, List.getElem?_set_self (h.length_cells.symm ▸ h.tail_lt),
        List.getElem?_append_right (Nat.le_of_eq h.length_eq), h.length_eq, Nat.sub_self]
      rfl

/-- The first element read, and the head moved past it. -/
theorem Represents.pop (h : Represents cells size head tail count xs) (hne : count ≠ 0) :
    ∃ a ys, xs = a :: ys ∧ cells[head]? = some a ∧
      Represents cells size ((head + 1) % size) tail (count - 1) ys := by
  obtain ⟨n, rfl⟩ := Nat.exists_eq_succ_of_ne_zero hne
  obtain ⟨a, ys, rfl⟩ := List.exists_cons_of_length_eq_add_one h.length_eq
  have hfirst := h.get 0 (Nat.succ_pos n)
  rw [Nat.add_zero, Nat.mod_eq_of_lt h.head_lt] at hfirst
  have hcount := h.count_le
  refine ⟨a, ys, rfl, hfirst, h.length_cells, ?_, ?_, by omega, ?_, fun i hi => ?_⟩
  · exact Nat.mod_lt _ (Nat.zero_lt_of_lt h.head_lt)
  · rw [h.tail_eq, Nat.mod_add_mod]
    congr 1
    omega
  · exact Nat.succ.inj h.length_eq
  · have hnext := h.get (i + 1) (by omega)
    rw [Nat.mod_add_mod, Nat.add_assoc, Nat.add_comm 1 i, hnext]
    rfl

end Ring
