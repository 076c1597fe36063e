import Mathlib.Data.List.Basic

/-! A list cut into lines, or into lines of a limited length, and the reading of the pieces
one by one off its front. -/

namespace Lines

universe u

variable {α : Type u}

/-- The pieces of a list, each up to where `ends` holds of it; `cur` is a piece already begun. -/
def cutAt (ends : List α → Bool) (cur : List α) : List α → List (List α)
  | [] => if cur.isEmpty then [] else [cur]
  | c :: s =>
    if ends (cur ++ [c]) then (cur ++ [c]) :: cutAt ends [] s else cutAt ends (cur ++ [c]) s

variable [DecidableEq α] {nl : α}

/-- A line ends with `nl`. -/
def lineEnd (nl : α) (cur : List α) : Bool := cur.getLast? == some nl

/-- A piece of a line also ends when it has `n` elements. -/
def pieceEnd (nl : α) (n : Nat) (cur : List α) : Bool := lineEnd nl cur || cur.length == n

/-- At most `n` elements, and none behind the first `nl`; and what is left. -/
def readPiece (nl : α) : Nat → List α → List α × List α
  | 0, s => ([], s)
  | _ + 1, [] => ([], [])
  | n + 1, c :: s =>
    if c = nl then ([c], s) else (c :: (readPiece nl n s).1, (readPiece nl n s).2)

@[simp] theorem lineEnd_append (nl c : α) (cur : List α) :
    lineEnd nl (cur ++ [c]) = decide (c = nl) := by
  simp [lineEnd, beq_eq_decide]

theorem pieceEnd_append (nl c : α) (n : Nat) (cur : List α) :
    pieceEnd nl n (cur ++ [c]) = decide (c = nl ∨ cur.length + 1 = n) := by
  rw [pieceEnd, lineEnd_append, List.length_append, List.length_singleton, Bool.decide_or,
    beq_eq_decide]

/-- Reading completes the piece that has been begun. -/
theorem cutAt_readPiece {n room : Nat} {cur s : List α} (hroom : cur.length + room = n)
    (hpos : 0 < room) (hne : cur ≠ [] ∨ s ≠ []) :
    cutAt (pieceEnd nl n) cur s =
      (cur ++ (readPiece nl room s).1) :: cutAt (pieceEnd nl n) [] (readPiece nl room s).2 := by
  induction s generalizing cur room with
  | nil =>
    obtain ⟨r, rfl⟩ : ∃ r, room = r + 1 := ⟨room - 1, by omega⟩
    have hcur : cur.isEmpty = false := by simpa using hne
    simp [cutAt, readPiece, hcur]
  | cons c s ih =>
    obtain ⟨r, rfl⟩ : ∃ r, room = r + 1 := ⟨room - 1, by omega⟩
    rw [cutAt, readPiece, pieceEnd_append]
    by_cases hc : c = nl
    · rw [if_pos hc, decide_eq_true (.inl hc), if_pos rfl]
    · rw [if_neg hc]
      rcases Nat.eq_zero_or_pos r with rfl | hr
      · rw [decide_eq_true (.inr (by omega)), if_pos rfl]
        rfl
      · have hends : ¬ (c = nl ∨ cur.length + 1 = n) := by
          rintro (h | h)
          · exact hc h
          · omega
        have hbegun := @ih r (cur ++ [c])
          (by rw [List.length_append, List.length_singleton]; omega) hr (.inl (by simp))
        rw [decide_eq_false hends, if_neg Bool.false_ne_true, hbegun, List.append_assoc]
        rfl

theorem readPiece_length_le (nl : α) (n : Nat) (s : List α) :
    (readPiece nl n s).1.length ≤ n := by
  induction n generalizing s with
  | zero => exact Nat.le_refl _
  | succ n ih =>
    cases s with
    | nil => exact Nat.zero_le _
    | cons c s =>
      rw [readPiece]
      split
      · exact Nat.succ_le_succ (Nat.zero_le _)
      · exact Nat.succ_le_succ (ih s)

theorem readPiece_length_lt (nl : α) {n : Nat} (hn : 0 < n) {s : List α} (hs : s ≠ []) :
    (readPiece nl n s).2.length < s.length := by
  have hle (m : Nat) (t : List α) : (readPiece nl m t).2.length ≤ t.length := by
    induction m generalizing t with
    | zero => exact Nat.le_refl _
    | succ m ih =>
      cases t with
      | nil => exact Nat.le_refl _
      | cons c t =>
        rw [readPiece]
        split
        · exact Nat.le_succ _
        · exact Nat.le_succ_of_le (ih t)
  obtain ⟨m, rfl⟩ : ∃ m, n = m + 1 := ⟨n - 1, by omega⟩
  cases s with
  | nil => exact absurd rfl hs
  | cons c t =>
    rw [readPiece]
    split
    · exact Nat.lt_succ_self _
    · exact Nat.lt_succ_of_le (hle m t)

/-- A line's first `n` elements are a piece or, when `cur` has as many, have been one. -/
theorem take_mem_cutAt_of {n : Nat} (hn : 0 < n) {line cur piece s : List α}
    (hcur : cur = piece ∧ cur.length < n ∨ n ≤ cur.length)
    (hline : line ∈ cutAt (lineEnd nl) cur s) :
    line.take n ∈ cutAt (pieceEnd nl n) piece s ∨ n ≤ cur.length ∧ line.take n = cur.take n := by
  induction s generalizing cur piece with
  | nil =>
    rw [cutAt] at hline
    split at hline
    · cases hline
    · next hne =>
      cases List.mem_singleton.mp hline
      rcases hcur with ⟨rfl, hlt⟩ | hle
      · rw [cutAt, if_neg hne, List.take_of_length_le (Nat.le_of_lt hlt)]
        exact .inl List.mem_cons_self
      · exact .inr ⟨hle, rfl⟩
  | cons c s ih =>
    have hlen : (cur ++ [c]).length = cur.length + 1 := by simp
    rw [cutAt, lineEnd_append] at hline
    rw [cutAt, pieceEnd_append]
    by_cases hc : c = nl
    · rw [decide_eq_true hc, if_pos rfl] at hline
      rw [decide_eq_true (.inl hc), if_pos rfl]
      rcases List.mem_cons.mp hline with rfl | hline
      · rcases hcur with ⟨rfl, hlt⟩ | hle
        · rw [List.take_of_length_le (by omega)]
          exact .inl List.mem_cons_self
        · exact .inr ⟨hle, List.take_append_of_le_length hle⟩
      · rcases @ih [] [] (.inl ⟨rfl, hn⟩) hline with hmem | ⟨h0, -⟩
        · exact .inl (List.mem_cons_of_mem _ hmem)
        · exact absurd h0 (Nat.not_le.mpr hn)
    · rw [decide_eq_false hc, if_neg Bool.false_ne_true] at hline
      rcases hcur with ⟨rfl, hlt⟩ | hle
      · by_cases hfull : cur.length + 1 = n
        · -- the line goes on, but its first piece is complete
          rw [decide_eq_true (.inr hfull), if_pos rfl]
          rcases @ih (cur ++ [c]) [] (.inr (by omega)) hline with hmem | ⟨-, heq⟩
          · exact .inl (List.mem_cons_of_mem _ hmem)
          · rw [heq, List.take_of_length_le (by omega)]
            exact .inl List.mem_cons_self
        · have hends : ¬ (c = nl ∨ cur.length + 1 = n) := by simp [hc, hfull]
          rw [decide_eq_false hends, if_neg Bool.false_ne_true]
          rcases ih (.inl ⟨rfl, by omega⟩) hline with hmem | ⟨hle, -⟩
          · exact .inl hmem
          · omega
      · have hlater (rest : List α)
            (hmem : line.take n ∈ cutAt (pieceEnd nl n) rest s ∨
              n ≤ (cur ++ [c]).length ∧ line.take n = (cur ++ [c]).take n) :
            line.take n ∈ cutAt (pieceEnd nl n) rest s ∨ line.take n = cur.take n := by
          rcases hmem with hmem | ⟨-, heq⟩
          · exact .inl hmem
          · exact .inr (heq.trans (List.take_append_of_le_length hle))
        split
        · rcases hlater [] (ih (.inr (by omega)) hline) with hmem | heq
          · exact .inl (List.mem_cons_of_mem _ hmem)
          · exact .inr ⟨hle, heq⟩
        · rcases hlater (piece ++ [c]) (ih (.inr (by omega)) hline) with hmem | heq
          · exact .inl hmem
          · exact .inr ⟨hle, heq⟩

/-- The first piece of a line is one of the pieces. -/
theorem take_mem_cutAt {n : Nat} (hn : 0 < n) {line s : List α}
    (hline : line ∈ cutAt (lineEnd nl) [] s) : line.take n ∈ cutAt (pieceEnd nl n) [] s := by
  rcases @take_mem_cutAt_of _ _ _ _ hn _ [] [] _ (.inl ⟨rfl, hn⟩) hline with hmem | ⟨hle, -⟩
  · exact hmem
  · exact absurd hle (Nat.not_le.mpr hn)

end Lines
