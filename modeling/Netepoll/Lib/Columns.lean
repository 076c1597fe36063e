import Mathlib.Data.List.GetD
import Mathlib.Data.List.Nodup
import Mathlib.Data.List.Range

/-! Sums over the columns of a list that is laid out in rows of `m`, for a commutative
operation `op` with the neutral element `e`. -/

namespace Columns

universe u

variable {α : Type u} (op : α → α → α) (e : α)

def total (l : List α) : α := l.foldr op e

/-- The sum of the elements whose index is `k` modulo `m`. -/
def column (m : Nat) (l : List α) (k : Nat) : α :=
  total op e (((List.range l.length).filter fun i => i % m == k).map fun i => l.getD i e)

/-- The row of all column sums. -/
def columns (m : Nat) (l : List α) : List α := (List.range m).map (column op e m l)

@[simp] theorem columns_length (m : Nat) (l : List α) : (columns op e m l).length = m := by
  rw [columns, List.length_map, List.length_range]

variable {op e} [Std.Associative op] [Std.Commutative op] [Std.LawfulCommIdentity op e]

variable (op) in
omit [Std.Associative op] in
theorem op_neutral (a : α) : op a e = a := Std.LawfulRightIdentity.right_id a

variable (op) in
omit [Std.Associative op] in
theorem neutral_op (a : α) : op e a = a := Std.LawfulLeftIdentity.left_id a

theorem total_append (xs ys : List α) :
    total op e (xs ++ ys) = op (total op e xs) (total op e ys) := by
  have hfold : xs.foldr op (op e (total op e ys)) = op (total op e xs) (total op e ys) :=
    List.foldr_assoc
  rw [← hfold, neutral_op op, total, List.foldr_append]
  rfl

omit [Std.Associative op] in
theorem total_replicate (n : Nat) : total op e (List.replicate n e) = e := by
  induction n with
  | zero => rfl
  | succ n ih =>
    rw [List.replicate_succ, total, List.foldr_cons, ← total, ih]
    exact neutral_op op e

/-- The sum of two rows that are added entry by entry. -/
theorem total_zipWith {xs ys : List α} (h : xs.length = ys.length) :
    total op e (List.zipWith op xs ys) = op (total op e xs) (total op e ys) := by
  induction xs generalizing ys with
  | nil =>
    cases List.length_eq_zero_iff.mp h.symm
    exact (neutral_op op e).symm
  | cons x xs ih =>
    cases ys with
    | nil => cases h
    | cons y ys =>
      have hsum : op (op x y) (op (total op e xs) (total op e ys)) =
          op (op x (total op e xs)) (op y (total op e ys)) := by
        ac_rfl
      rw [List.zipWith_cons_cons, total, List.foldr_cons, ← total, ih (Nat.succ.inj h), hsum]
      rfl

theorem column_append_total (m : Nat) (xs ys : List α) (k : Nat) :
    column op e m (xs ++ ys) k = op (column op e m xs k)
      (total op e (((List.range ys.length).filter fun i => (xs.length + i) % m == k).map
        fun i => ys.getD i e)) := by
  have hleft : ((List.range xs.length).filter fun i => i % m == k).map
        (fun i => (xs ++ ys).getD i e) =
      ((List.range xs.length).filter fun i => i % m == k).map fun i => xs.getD i e := by
    refine List.map_congr_left fun i hi => ?_
    have hlt := List.mem_range.mp (List.mem_of_mem_filter hi)
    exact List.getD_append xs ys e i hlt
  have hright (i : Nat) : (xs ++ ys).getD (xs.length + i) e = ys.getD i e := by
    rw [List.getD_append_right _ _ _ _ (Nat.le_add_right _ _), Nat.add_sub_cancel_left]
  rw [column, List.length_append, List.range_add, List.filter_append, List.map_append,
    total_append, hleft, List.filter_map, List.map_map]
  simp only [Function.comp_def, hright]
  rfl

/-- Behind whole rows the columns go on. -/
theorem column_append {m : Nat} {xs : List α} (h : m ∣ xs.length) (ys : List α) (k : Nat) :
    column op e m (xs ++ ys) k = op (column op e m xs k) (column op e m ys k) := by
  have hmod (i : Nat) : (xs.length + i) % m = i % m := by
    obtain ⟨q, hq⟩ := h
    rw [hq, Nat.mul_add_mod]
  rw [column_append_total]
  simp only [hmod]
  rfl

/-- Neutral elements at the end do not count. -/
theorem column_pad (m : Nat) (l : List α) (n k : Nat) :
    column op e m (l ++ List.replicate n e) k = column op e m l k := by
  have hzero (i : Nat) : (List.replicate n e).getD i e = e := by
    rw [List.getD_eq_getElem?_getD, List.getElem?_replicate]
    split <;> rfl
  rw [column_append_total]
  simp only [hzero, List.map_const', total_replicate]
  exact op_neutral op _

omit [Std.Associative op] in
/-- Less than a row: every element has its column to itself. -/
theorem column_short {m : Nat} {l : List α} (h : l.length ≤ m) (k : Nat) :
    column op e m l k = l.getD k e := by
  have hfilter : ((List.range l.length).filter fun i => i % m == k) =
      (List.range l.length).filter fun i => i == k := by
    refine List.filter_congr fun i hi => ?_
    rw [Nat.mod_eq_of_lt (Nat.lt_of_lt_of_le (List.mem_range.mp hi) h)]
  rw [column, hfilter, List.filter_beq]
  rcases Nat.lt_or_ge k l.length with hlt | hge
  · rw [List.count_eq_one_of_mem List.nodup_range (List.mem_range.mpr hlt)]
    exact op_neutral op _
  · rw [List.count_eq_zero_of_not_mem (by rw [List.mem_range]; omega),
      List.getD_eq_default _ _ hge]
    rfl

theorem columns_append {m : Nat} {xs : List α} (h : m ∣ xs.length) (ys : List α) :
    columns op e m (xs ++ ys) = List.zipWith op (columns op e m xs) (columns op e m ys) := by
  rw [columns, columns, columns, List.zipWith_map, List.zipWith_self]
  exact List.map_congr_left fun k _ => column_append h ys k

theorem columns_pad (m : Nat) (l : List α) (n : Nat) :
    columns op e m (l ++ List.replicate n e) = columns op e m l :=
  List.map_congr_left fun k _ => column_pad m l n k

omit [Std.Associative op] in
/-- A single row is the row of its column sums. -/
theorem columns_row (l : List α) : columns op e l.length l = l := by
  refine List.ext_getElem (columns_length op e _ l) fun k h₁ h₂ => ?_
  simp only [columns, List.getElem_map, List.getElem_range]
  rw [column_short (Nat.le_refl _), List.getD_eq_getElem _ _ h₂]

theorem columns_short {m : Nat} {l : List α} (h : l.length ≤ m) :
    columns op e m l = l ++ List.replicate (m - l.length) e := by
  have hrow : columns op e (l ++ List.replicate (m - l.length) e).length
      (l ++ List.replicate (m - l.length) e) = l ++ List.replicate (m - l.length) e :=
    columns_row _
  rwa [List.length_append, List.length_replicate, Nat.add_sub_cancel' h, columns_pad] at hrow

/-- The column sums add up to the sum of the list. -/
theorem total_columns {m : Nat} (hm : 0 < m) (l : List α) :
    total op e (columns op e m l) = total op e l := by
  induction hn : l.length using Nat.strong_induction_on generalizing l with
  | h n ih =>
    rcases Nat.le_total l.length m with hle | hge
    · rw [columns_short hle, total_append, total_replicate]
      exact op_neutral op _
    · have hrow : (l.take m).length = m := List.length_take_of_le hge
      have hdrop := ih (l.drop m).length (by rw [List.length_drop]; omega) (l.drop m) rfl
      have hrows : columns op e m l =
          List.zipWith op (columns op e m (l.take m)) (columns op e m (l.drop m)) := by
        rw [← columns_append ⟨1, by omega⟩, List.take_append_drop]
      have htotal : op (total op e (l.take m)) (total op e (l.drop m)) = total op e l :=
        (total_append _ _).symm.trans
          (congrArg (total op e) (List.take_append_drop m l))
      rw [hrows, total_zipWith (by rw [columns_length, columns_length]), hdrop,
        columns_short (Nat.le_of_eq hrow), hrow, Nat.sub_self, List.replicate_zero,
        List.append_nil, htotal]

end Columns
