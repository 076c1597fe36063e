import Mathlib.Logic.Function.Basic

/-! Descriptor tables, and regular files that have one name each: files are created, opened
by name and unlinked, never renamed or linked a second time. A file that has lost its name
lives on for whoever has it open. -/

namespace Files

/-! ## Descriptor tables -/

section Table

variable {β : Type}

/-- What each descriptor denotes; there is none from the length of the list on. -/
abbrev Table (β : Type) := List (Option β)

def Table.get (t : Table β) (d : Nat) : Option β := t.getD d none

def Table.put (t : Table β) (d : Nat) (x : Option β) : Table β :=
  (t ++ List.replicate (d + 1 - t.length) none).set d x

/-- The number that the next descriptor gets. -/
def Table.lowestFree (t : Table β) : Nat := t.findIdx Option.isNone

@[simp] theorem Table.get_put_self (t : Table β) (d : Nat) (x : Option β) :
    (t.put d x).get d = x := by
  have hlen : d < (t ++ List.replicate (d + 1 - t.length) none).length := by
    rw [List.length_append, List.length_replicate]
    omega
  rw [Table.get, Table.put, List.getD_eq_getElem?_getD, List.getElem?_set_self hlen,
    Option.getD_some]

theorem Table.get_put_ne (t : Table β) {d e : Nat} (x : Option β) (h : d ≠ e) :
    (t.put d x).get e = t.get e := by
  rw [Table.get, Table.get, Table.put, List.getD_eq_getElem?_getD, List.getElem?_set_ne h,
    List.getD_eq_getElem?_getD]
  rcases Nat.lt_or_ge e t.length with hlt | hge
  · rw [List.getElem?_append_left hlt]
  · -- padding reads as free, like what is behind the end
    rw [List.getElem?_append_right hge, List.getElem?_eq_none hge, List.getElem?_replicate]
    split <;> rfl

@[simp] theorem Table.get_lowestFree (t : Table β) : t.get t.lowestFree = none := by
  rw [Table.get, Table.lowestFree, List.getD_eq_getElem?_getD]
  rcases Nat.lt_or_ge (t.findIdx Option.isNone) t.length with hlt | hge
  · rw [List.getElem?_eq_getElem hlt, Option.getD_some]
    exact Option.isNone_iff_eq_none.mp (List.findIdx_getElem (w := hlt))
  · rw [List.getElem?_eq_none hge, Option.getD_none]

/-- An open descriptor is not the next one. -/
theorem Table.lowestFree_ne {t : Table β} {d : Nat} (h : t.get d ≠ none) : t.lowestFree ≠ d :=
  fun heq => h (heq ▸ t.get_lowestFree)

end Table

/-! ## Files -/

section Disk

universe u v w

variable {κ : Type u} {α : Type v}

structure Disk (κ : Type u) (α : Type v) where
  /-- the file at a directory entry -/
  entry : κ → Option Nat
  nlink : Nat → Nat
  content : Nat → List α
  /-- files from this number on do not exist yet -/
  next : Nat
  nlink_entry : ∀ n i, entry n = some i → nlink i = 1
  entry_inj : ∀ n m i, entry n = some i → entry m = some i → n = m
  entry_lt : ∀ n i, entry n = some i → i < next
  fresh : ∀ i, next ≤ i → content i = []

/-- Add to the end of a file. -/
def Disk.append (d : Disk κ α) (i : Nat) (bs : List α) : Disk κ α :=
  if h : i < d.next then
    { d with
      content := Function.update d.content i (d.content i ++ bs)
      fresh := fun j hj => by
        rw [Function.update_of_ne (Nat.ne_of_gt (Nat.lt_of_lt_of_le h hj))]
        exact d.fresh j hj }
  else d

theorem Disk.append_entry (d : Disk κ α) (i : Nat) (bs : List α) :
    (d.append i bs).entry = d.entry := by
  rw [Disk.append]
  split <;> rfl

theorem Disk.append_content {d : Disk κ α} {i : Nat} (h : i < d.next) (bs : List α) :
    (d.append i bs).content = Function.update d.content i (d.content i ++ bs) := by
  rw [Disk.append, dif_pos h]

/-- What was added shows where it was added. -/
theorem update_append_inj {f : Nat → List α} {i j : Nat} {bs : List α} (hbs : bs ≠ [])
    (h : Function.update f i (f i ++ bs) = Function.update f j (f j ++ bs)) : i = j := by
  by_contra hij
  have hi := congrFun h i
  rw [Function.update_self, Function.update_of_ne hij, List.append_right_eq_self] at hi
  exact hbs hi

/-- The file `i`, which was opened at `n`, is still there or has lost its name. -/
structure Disk.OpenedAt (d : Disk κ α) (n : κ) (i : Nat) : Prop where
  born : i < d.next
  linked : d.nlink i = 0 ∨ d.entry n = some i

theorem Disk.OpenedAt.append {d : Disk κ α} {n : κ} {i : Nat} (h : d.OpenedAt n i) (j : Nat)
    (bs : List α) : (d.append j bs).OpenedAt n i := by
  rw [Disk.append]
  split
  · exact ⟨h.born, h.linked⟩
  · exact h

variable [DecidableEq κ]

theorem update_eq_some {β : Type w} {f : κ → Option β} {n m : κ} {x : Option β} {y : β}
    (h : Function.update f n x m = some y) : m = n ∧ x = some y ∨ m ≠ n ∧ f m = some y := by
  by_cases hmn : m = n
  · subst hmn
    rw [Function.update_self] at h
    exact Or.inl ⟨rfl, h⟩
  · rw [Function.update_of_ne hmn] at h
    exact Or.inr ⟨hmn, h⟩

/-- A new file at `n`, where there is none. -/
def Disk.create (d : Disk κ α) (n : κ) : Disk κ α :=
  if d.entry n = none then
    { d with
      entry := Function.update d.entry n (some d.next)
      nlink := Function.update d.nlink d.next 1
      next := d.next + 1
      nlink_entry := by
        intro m i hm
        rcases update_eq_some hm with ⟨-, hi⟩ | ⟨-, hm⟩
        · cases hi
          exact Function.update_self ..
        · rw [Function.update_of_ne (Nat.ne_of_lt (d.entry_lt m i hm))]
          exact d.nlink_entry m i hm
      entry_inj := by
        intro m m' i hm hm'
        rcases update_eq_some hm with ⟨rfl, hi⟩ | ⟨-, hm⟩
        · cases hi
          rcases update_eq_some hm' with ⟨rfl, -⟩ | ⟨-, hm'⟩
          · rfl
          · exact absurd (d.entry_lt m' _ hm') (Nat.lt_irrefl _)
        · rcases update_eq_some hm' with ⟨-, hi⟩ | ⟨-, hm'⟩
          · cases hi
            exact absurd (d.entry_lt m _ hm) (Nat.lt_irrefl _)
          · exact d.entry_inj m m' i hm hm'
      entry_lt := by
        intro m i hm
        rcases update_eq_some hm with ⟨-, hi⟩ | ⟨-, hm⟩
        · cases hi
          exact Nat.lt_succ_self _
        · exact Nat.lt_succ_of_lt (d.entry_lt m i hm)
      fresh := fun i hi => d.fresh i (Nat.le_of_succ_le hi) }
  else d

/-- The name goes, and with it one of the links of the file `i` that had it. -/
def Disk.removeEntry (d : Disk κ α) (n : κ) (j : Nat) (h : d.entry n = some j) : Disk κ α :=
  { d with
    entry := Function.update d.entry n none
    nlink := Function.update d.nlink j (d.nlink j - 1)
    nlink_entry := by
      intro m i hm
      rcases update_eq_some hm with ⟨-, hi⟩ | ⟨hmn, hm⟩
      · cases hi
      · have hij : i ≠ j := fun hij => hmn (d.entry_inj m n i hm (hij ▸ h))
        rw [Function.update_of_ne hij]
        exact d.nlink_entry m i hm
    entry_inj := by
      intro m m' i hm hm'
      rcases update_eq_some hm with ⟨-, hi⟩ | ⟨-, hm⟩
      · cases hi
      rcases update_eq_some hm' with ⟨-, hi⟩ | ⟨-, hm'⟩
      · cases hi
      exact d.entry_inj m m' i hm hm'
    entry_lt := by
      intro m i hm
      rcases update_eq_some hm with ⟨-, hi⟩ | ⟨-, hm⟩
      · cases hi
      · exact d.entry_lt m i hm }

def Disk.unlink (d : Disk κ α) (n : κ) : Disk κ α :=
  match h : d.entry n with
  | none => d
  | some j => d.removeEntry n j h

/-- The file at `n`, which is created where there is none. -/
def Disk.openAppend (d : Disk κ α) (n : κ) : Nat × Disk κ α :=
  match d.entry n with
  | none => (d.next, d.create n)
  | some i => (i, d)

theorem Disk.openAppend_entry (d : Disk κ α) (n : κ) :
    (d.openAppend n).2.entry n = some (d.openAppend n).1 := by
  rw [Disk.openAppend]
  split
  · next h =>
    rw [Disk.create, if_pos h]
    exact Function.update_self ..
  · next i h => exact h

theorem Disk.openAppend_content (d : Disk κ α) (n : κ) :
    (d.openAppend n).2.content = d.content := by
  rw [Disk.openAppend]
  split
  · next h => rw [Disk.create, if_pos h]
  · rfl

theorem Disk.openedAt_openAppend (d : Disk κ α) (n : κ) :
    (d.openAppend n).2.OpenedAt n (d.openAppend n).1 :=
  ⟨Disk.entry_lt _ n _ (d.openAppend_entry n), Or.inr (d.openAppend_entry n)⟩

theorem Disk.OpenedAt.create {d : Disk κ α} {n : κ} {i : Nat} (h : d.OpenedAt n i) (m : κ) :
    (d.create m).OpenedAt n i := by
  rw [Disk.create]
  split
  · next hm =>
    refine ⟨Nat.lt_succ_of_lt h.born, ?_⟩
    rcases h.linked with h0 | hn
    · refine Or.inl ?_
      show Function.update d.nlink d.next 1 i = 0
      rw [Function.update_of_ne (Nat.ne_of_lt h.born), h0]
    · refine Or.inr ?_
      show Function.update d.entry m (some d.next) n = some i
      have hne : n ≠ m := fun heq => by
        rw [heq, hm] at hn
        cases hn
      rw [Function.update_of_ne hne, hn]
  · exact h

theorem Disk.create_entry {d : Disk κ α} {n : κ} {i : Nat} (h : d.entry n = some i) (m : κ) :
    (d.create m).entry n = some i := by
  rw [Disk.create]
  split
  · next hm =>
    have hne : n ≠ m := fun heq => by
      rw [heq, hm] at h
      cases h
    exact (Function.update_of_ne hne _ _).trans h
  · exact h

/-- Who unlinks the name takes away the one link that the file has. -/
theorem Disk.OpenedAt.unlink {d : Disk κ α} {n : κ} {i : Nat} (h : d.OpenedAt n i) (m : κ) :
    (d.unlink m).OpenedAt n i := by
  rw [Disk.unlink]
  split
  · exact h
  · next j hm =>
    refine ⟨h.born, ?_⟩
    show Function.update d.nlink j (d.nlink j - 1) i = 0 ∨
      Function.update d.entry m none n = some i
    by_cases hij : i = j
    · subst hij
      rw [Function.update_self, d.nlink_entry m i hm]
      exact Or.inl rfl
    · rw [Function.update_of_ne hij]
      refine h.linked.imp_right fun hn => ?_
      have hne : n ≠ m := fun heq => by
        rw [heq, hm] at hn
        exact hij (Option.some.inj hn).symm
      rw [Function.update_of_ne hne, hn]

end Disk

end Files
