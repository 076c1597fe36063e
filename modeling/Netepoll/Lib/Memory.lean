/-! A flat memory as a function from offsets to cells, with block stores and block
loads. Nothing bounds an offset, so a store outside an array is a visible change and
"inside the array" is a statement to prove. -/

namespace Memory

universe u

variable {α : Type u}

/-- Overwrite the cells from `off` on with `bs`. -/
def store (m : Nat → α) (off : Nat) (bs : List α) : Nat → α :=
  fun k => if off ≤ k then (bs[k - off]?).getD (m k) else m k

/-- The `n` cells from `off` on. -/
def load (m : Nat → α) (off n : Nat) : List α :=
  (List.range n).map fun k => m (off + k)

@[simp] theorem load_length (m : Nat → α) (off n : Nat) : (load m off n).length = n := by
  simp [load]

@[simp] theorem load_zero (m : Nat → α) (off : Nat) : load m off 0 = [] := rfl

theorem load_succ (m : Nat → α) (off n : Nat) :
    load m off (n + 1) = m off :: load m (off + 1) n := by
  simp only [load, List.range_succ_eq_map, List.map_cons, List.map_map, Nat.add_zero]
  congr 1
  exact List.map_congr_left fun k _ => by
    simp only [Function.comp]; congr 1; omega

theorem load_add (m : Nat → α) (off a b : Nat) :
    load m off (a + b) = load m off a ++ load m (off + a) b := by
  induction a generalizing off with
  | zero => simp
  | succ a ih =>
    rw [show a + 1 + b = (a + b) + 1 by omega, load_succ, load_succ, ih (off + 1)]
    rw [show off + 1 + a = off + (a + 1) by omega]
    rfl

theorem load_getElem? (m : Nat → α) (off n k : Nat) :
    (load m off n)[k]? = if k < n then some (m (off + k)) else none := by
  by_cases h : k < n <;> simp [load, h]

/-- Two memories that agree on the block load the same block. -/
theorem load_congr {m m' : Nat → α} {off n : Nat}
    (h : ∀ k, k < n → m (off + k) = m' (off + k)) : load m off n = load m' off n :=
  List.map_congr_left fun k hk => h k (List.mem_range.mp hk)

@[simp] theorem store_nil (m : Nat → α) (off : Nat) : store m off [] = m := by
  funext k; simp [store]

/-- A store changes no cell outside its block. -/
theorem store_outside (m : Nat → α) {off k : Nat} {bs : List α}
    (h : k < off ∨ off + bs.length ≤ k) : store m off bs k = m k := by
  unfold store
  split
  · rw [List.getElem?_eq_none (by omega)]; rfl
  · rfl

theorem store_inside (m : Nat → α) {off k : Nat} {bs : List α} (h : k < bs.length) :
    store m off bs (off + k) = bs[k] := by
  simp [store, List.getElem?_eq_getElem h]

theorem load_store (m : Nat → α) (off : Nat) (bs : List α) :
    load (store m off bs) off bs.length = bs := by
  apply List.ext_getElem?
  intro k
  rw [load_getElem?]
  split
  · rename_i h; rw [store_inside m h, List.getElem?_eq_getElem h]
  · rename_i h; rw [List.getElem?_eq_none (by omega)]

/-- Appending a block right after a loaded one. -/
theorem load_store_append (m : Nat → α) (off n : Nat) (bs : List α) :
    load (store m (off + n) bs) off (n + bs.length) = load m off n ++ bs := by
  rw [load_add, load_store]
  congr 1
  exact load_congr fun k hk => store_outside m (Or.inl (by omega))

/-- Two stores side by side are one store. -/
theorem store_append (m : Nat → α) (off : Nat) (xs ys : List α) :
    store (store m off xs) (off + xs.length) ys = store m off (xs ++ ys) := by
  funext k
  simp only [store]
  by_cases hk : off + xs.length ≤ k
  · have hx : xs[k - off]? = none := List.getElem?_eq_none (by omega)
    have hoff : off ≤ k := by omega
    simp only [if_pos hk, if_pos hoff, hx, Option.getD_none,
      List.getElem?_append_right (show xs.length ≤ k - off by omega),
      show k - (off + xs.length) = k - off - xs.length by omega]
  · by_cases hoff : off ≤ k
    · simp only [if_neg hk, if_pos hoff,
        List.getElem?_append_left (show k - off < xs.length by omega)]
    · simp only [if_neg hk, if_neg hoff]

/-- A store of the cell that is there changes nothing. -/
theorem store_self (m : Nat → α) (off : Nat) : store m off [m off] = m := by
  funext k
  by_cases h : k = off
  · subst h; simp [store]
  · exact store_outside m (by simp only [List.length_cons, List.length_nil]; omega)

end Memory
