import Mathlib.Data.List.DropRight
import Mathlib.Data.List.TakeWhile

/-! Reading a word off the front of a list: the elements up to the first one that is not
allowed, and what is left behind them. -/

namespace Words

universe u

variable {α : Type u} {p : α → Bool}

/-- A word of allowed elements ends in front of `rest`. -/
def Ends (p : α → Bool) (rest : List α) : Prop := ∀ c ∈ rest.head?, p c = false

theorem ends_nil (p : α → Bool) : Ends p [] := fun _ h => by cases h

theorem ends_cons {c : α} {rest : List α} (h : p c = false) : Ends p (c :: rest) := by
  intro d hd
  cases hd
  exact h

theorem ends_dropWhile (p : α → Bool) (l : List α) : Ends p (l.dropWhile p) := by
  intro c hc
  have hhead := List.head?_dropWhile_not p l
  rw [Option.mem_def] at hc
  rw [hc] at hhead
  exact hhead

theorem take_length_takeWhile (p : α → Bool) (l : List α) :
    l.take (l.takeWhile p).length = l.takeWhile p :=
  (List.prefix_iff_eq_take.mp (List.takeWhile_prefix p)).symm

theorem drop_length_takeWhile (p : α → Bool) (l : List α) :
    l.drop (l.takeWhile p).length = l.dropWhile p := by
  have hdrop : (l.takeWhile p ++ l.dropWhile p).drop (l.takeWhile p).length = l.dropWhile p :=
    List.drop_left
  rwa [List.takeWhile_append_dropWhile] at hdrop

theorem length_takeWhile_add (p : α → Bool) (l : List α) :
    (l.takeWhile p).length + (l.dropWhile p).length = l.length := by
  rw [← List.length_append, List.takeWhile_append_dropWhile]

theorem takeWhile_of_dropWhile {l : List α} (h : l.dropWhile p = []) : l.takeWhile p = l := by
  have hsplit := List.takeWhile_append_dropWhile (p := p) (l := l)
  rwa [h, List.append_nil] at hsplit

theorem takeWhile_append {word rest : List α} (hword : ∀ c ∈ word, p c = true)
    (hrest : Ends p rest) : (word ++ rest).takeWhile p = word := by
  have hnone : rest.takeWhile p = [] := by
    cases rest with
    | nil => rfl
    | cons c rest => simp [hrest c rfl]
  rw [List.takeWhile_append_of_pos hword, hnone, List.append_nil]

theorem dropWhile_append {word rest : List α} (hword : ∀ c ∈ word, p c = true)
    (hrest : Ends p rest) : (word ++ rest).dropWhile p = rest := by
  have hsplit := List.takeWhile_append_dropWhile (p := p) (l := word ++ rest)
  rw [takeWhile_append hword hrest] at hsplit
  exact List.append_cancel_left hsplit

/-- A word that ends inside `l` does not see what is behind `l`. -/
theorem takeWhile_append_left {l rest : List α} {c : α} (hc : c ∈ l) (hp : p c = false) :
    (l ++ rest).takeWhile p = l.takeWhile p := by
  induction l with
  | nil => cases hc
  | cons a l ih =>
    rw [List.cons_append, List.takeWhile_cons, List.takeWhile_cons]
    cases ha : p a with
    | false => rfl
    | true =>
      have hmem : c ∈ l := by
        rcases List.mem_cons.mp hc with rfl | hc
        · rw [hp] at ha
          cases ha
        · exact hc
      rw [ih hmem]

/-- A word that has to end in front of `rest` does not see `rest`. -/
theorem takeWhile_append_ends (l : List α) {rest : List α} (hrest : Ends p rest) :
    (l ++ rest).takeWhile p = l.takeWhile p := by
  by_cases hall : ∀ c ∈ l, p c = true
  · rw [takeWhile_append hall hrest, List.takeWhile_eq_self_iff.mpr hall]
  · obtain ⟨c, hc, hp⟩ : ∃ c ∈ l, p c = false := by simpa using hall
    exact takeWhile_append_left hc hp

/-- A word that ends in front of what is left of a list is determined by the list. -/
theorem append_inj {word word' rest rest' : List α} (h : word ++ rest = word' ++ rest')
    (hword : ∀ c ∈ word, p c = true) (hrest : Ends p rest)
    (hword' : ∀ c ∈ word', p c = true) (hrest' : Ends p rest') : word = word' ∧ rest = rest' := by
  have hsame : word = word' := by
    rw [← takeWhile_append hword hrest, h, takeWhile_append hword' hrest']
  subst hsame
  exact ⟨rfl, List.append_cancel_left h⟩

/-- What ends a word ends it also when less of it is left. -/
theorem ends_of_beginning {rest seen : List α} (h : Ends p rest) (hseen : seen <+: rest) :
    Ends p seen := by
  obtain ⟨more, rfl⟩ := hseen
  cases seen with
  | nil => exact ends_nil p
  | cons c seen => exact h

/-! ## Splitting -/

/-- The non-empty parts between the elements that satisfy `p`. -/
def words (p : α → Bool) (s : List α) : List (List α) :=
  (s.splitOnP p).filter fun w => !w.isEmpty

theorem words_cons_pos {c : α} (hc : p c = true) (s : List α) : words p (c :: s) = words p s := by
  rw [words, List.splitOnP_cons_eq_if_modifyHead, if_pos hc]
  rfl

theorem words_append_gap {gap : List α} (hgap : ∀ c ∈ gap, p c = true) (s : List α) :
    words p (gap ++ s) = words p s := by
  induction gap with
  | nil => rfl
  | cons c gap ih =>
    rw [List.cons_append, words_cons_pos (hgap c List.mem_cons_self)]
    exact ih fun d hd => hgap d (List.mem_cons_of_mem c hd)

theorem words_append_word {word rest : List α} (hne : word ≠ []) (hword : ∀ c ∈ word, p c = false)
    (hrest : Ends (fun c => !p c) rest) : words p (word ++ rest) = word :: words p rest := by
  have hkept (ws : List (List α)) : (word :: ws).filter (fun w => !w.isEmpty) =
      word :: ws.filter fun w => !w.isEmpty :=
    List.filter_cons_of_pos (by simpa using hne)
  cases rest with
  | nil =>
    rw [List.append_nil, words, List.splitOnP_eq_singleton hword, hkept]
    rfl
  | cons c rest =>
    have hc : p c = true := by simpa using hrest c rfl
    rw [words, List.splitOnP_append_cons_of_forall_mem hword c hc, hkept, words_cons_pos hc,
      words]

/-- The first word, what is in front of it and what is left behind it. -/
theorem words_eq_cons_iff {s word : List α} {ws : List (List α)} :
    words p s = word :: ws ↔ ∃ gap rest, s = gap ++ (word ++ rest) ∧ (∀ c ∈ gap, p c = true) ∧
      word ≠ [] ∧ (∀ c ∈ word, p c = false) ∧ Ends (fun c => !p c) rest ∧ ws = words p rest := by
  constructor
  · intro h
    have hsplit := List.takeWhile_append_dropWhile (p := p) (l := s)
    have hgap : ∀ c ∈ s.takeWhile p, p c = true := fun c hc => List.mem_takeWhile_imp hc
    have htext := List.takeWhile_append_dropWhile (p := fun c => !p c) (l := s.dropWhile p)
    have hword : ∀ c ∈ (s.dropWhile p).takeWhile (fun c => !p c), p c = false := fun c hc => by
      simpa using List.mem_takeWhile_imp hc
    have hrest := ends_dropWhile (fun c => !p c) (s.dropWhile p)
    rw [← hsplit, words_append_gap hgap] at h
    by_cases hne : (s.dropWhile p).takeWhile (fun c => !p c) = []
    · -- nothing is left behind the gap
      have hnil : s.dropWhile p = [] := by
        cases hd : s.dropWhile p with
        | nil => rfl
        | cons c t =>
          have hc := ends_dropWhile p s c (by rw [hd]; rfl)
          rw [hd, List.takeWhile_cons_of_pos (by simp [hc])] at hne
          cases hne
      rw [hnil] at h
      cases h
    · rw [← htext, words_append_word hne hword hrest] at h
      obtain ⟨rfl, rfl⟩ := List.cons.inj h
      exact ⟨_, _, by rw [htext, hsplit], hgap, hne, hword, hrest, rfl⟩
  · rintro ⟨gap, rest, rfl, hgap, hne, hword, hrest, rfl⟩
    rw [words_append_gap hgap, words_append_word hne hword hrest]

/-- The first part of a list that is cut at every `a`. -/
theorem splitOn_eq_cons_iff [BEq α] [LawfulBEq α] {a : α} {s word : List α}
    {ws : List (List α)} : s.splitOn a = word :: ws ↔ a ∉ word ∧
      (s = word ∧ ws = [] ∨ ∃ rest, s = word ++ a :: rest ∧ ws = rest.splitOn a) := by
  constructor
  · intro h
    by_cases hmem : a ∈ s
    · obtain ⟨front, rest, rfl, hfront⟩ := List.eq_append_cons_of_mem hmem
      rw [List.splitOn_append_cons_self_of_not_mem hfront] at h
      obtain ⟨rfl, rfl⟩ := List.cons.inj h
      exact ⟨hfront, .inr ⟨rest, rfl, rfl⟩⟩
    · rw [List.splitOn_eq_singleton hmem] at h
      obtain ⟨rfl, rfl⟩ := List.cons.inj h
      exact ⟨hmem, .inl ⟨rfl, rfl⟩⟩
  · rintro ⟨hword, ⟨rfl, rfl⟩ | ⟨rest, rfl, rfl⟩⟩
    · exact List.splitOn_eq_singleton hword
    · exact List.splitOn_append_cons_self_of_not_mem hword rest

theorem exists_splitOn_eq_cons_iff [BEq α] [LawfulBEq α] {a : α} {s word : List α} :
    (∃ ws, s.splitOn a = word :: ws) ↔
      a ∉ word ∧ ∃ rest, s = word ++ rest ∧ Ends (fun c => c != a) rest := by
  simp only [splitOn_eq_cons_iff]
  constructor
  · rintro ⟨ws, hword, ⟨rfl, -⟩ | ⟨rest, rfl, -⟩⟩
    · exact ⟨hword, [], (List.append_nil _).symm, ends_nil _⟩
    · exact ⟨hword, a :: rest, rfl, ends_cons (by simp)⟩
  · rintro ⟨hword, rest, rfl, hrest⟩
    cases rest with
    | nil => exact ⟨[], hword, .inl ⟨List.append_nil _, rfl⟩⟩
    | cons c rest =>
      have hc : c = a := by simpa using hrest c rfl
      exact ⟨_, hword, .inr ⟨rest, by rw [hc], rfl⟩⟩

/-! ## Both ends -/

theorem rdropWhile_cons (p : α → Bool) (c : α) (l : List α) :
    (c :: l).rdropWhile p =
      if l.rdropWhile p = [] then [c].rdropWhile p else c :: l.rdropWhile p := by
  simp only [List.rdropWhile, List.reverse_cons, List.dropWhile_append, List.isEmpty_iff,
    List.reverse_eq_nil_iff]
  split
  · rfl
  · rw [List.reverse_append]
    rfl

/-- What is dropped at one end does not depend on the other end. -/
theorem dropWhile_rdropWhile (p : α → Bool) (l : List α) :
    (l.rdropWhile p).dropWhile p = (l.dropWhile p).rdropWhile p := by
  induction l with
  | nil => rfl
  | cons c l ih =>
    rw [rdropWhile_cons p c l]
    cases hc : p c with
    | true =>
      rw [List.dropWhile_cons_of_pos hc, ← ih]
      split
      · next hnil => rw [hnil, List.rdropWhile_singleton, if_pos hc]
      · rw [List.dropWhile_cons_of_pos hc]
    | false =>
      have hkeep (m : List α) : (c :: m).dropWhile p = c :: m :=
        List.dropWhile_cons_of_neg (by simp [hc])
      rw [hkeep l, rdropWhile_cons p c l]
      split
      · rw [List.rdropWhile_singleton, if_neg (by simp [hc]), hkeep]
      · rw [hkeep]

theorem filter_dropWhile (p : α → Bool) (l : List α) :
    (l.dropWhile p).filter (fun c => !p c) = l.filter fun c => !p c := by
  have hnone : (l.takeWhile p).filter (fun c => !p c) = [] :=
    List.filter_eq_nil_iff.mpr fun c hc => by simp [List.mem_takeWhile_imp hc]
  have hsplit := congrArg (List.filter fun c => !p c)
    (List.takeWhile_append_dropWhile (p := p) (l := l))
  rwa [List.filter_append, hnone, List.nil_append] at hsplit

theorem filter_rdropWhile (p : α → Bool) (l : List α) :
    (l.rdropWhile p).filter (fun c => !p c) = l.filter fun c => !p c := by
  have hnone : (l.rtakeWhile p).filter (fun c => !p c) = [] :=
    List.filter_eq_nil_iff.mpr fun c hc => by simp [List.mem_rtakeWhile_imp hc]
  have hsplit := congrArg (List.filter fun c => !p c)
    (List.rdropWhile_append_rtakeWhile (p := p) (l := l))
  rwa [List.filter_append, hnone, List.append_nil] at hsplit

end Words
