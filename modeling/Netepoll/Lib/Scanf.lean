import Netepoll.Lib.Words

/-! Reading fields off the front of a list as a format says, and what it takes to read the
same fields off a part of the list. -/

namespace Scanf

open Words

universe u v

variable {α : Type u}

inductive Directive (α : Type u)
  /-- skip, then read one or more elements to keep -/
  | field (skip keep : α → Bool)
  | literal (c : α)

/-- One field, and what is left. -/
def readField (skip keep : α → Bool) (s : List α) : Option (List α × List α) :=
  let word := (s.dropWhile skip).takeWhile keep
  if word.isEmpty then none else some (word, (s.dropWhile skip).dropWhile keep)

variable [DecidableEq α]

def readLiteral (c : α) : List α → Option (List α)
  | [] => none
  | a :: s => if a = c then some s else none

/-- The fields that are read until something does not fit the format. -/
def fields : List (Directive α) → List α → List (List α)
  | [], _ => []
  | .field skip keep :: ds, s =>
    match readField skip keep s with
    | none => []
    | some (word, s) => word :: fields ds s
  | .literal c :: ds, s =>
    match readLiteral c s with
    | none => []
    | some s => fields ds s

/-- All the fields of a format, and what is left. -/
def scan : List (Directive α) → List α → Option (List (List α) × List α)
  | [], s => some ([], s)
  | .field skip keep :: ds, s => do
    let (word, s) ← readField skip keep s
    let (words, s) ← scan ds s
    some (word :: words, s)
  | .literal c :: ds, s => do
    let s ← readLiteral c s
    scan ds s

def Directive.isField : Directive α → Bool
  | .field _ _ => true
  | .literal _ => false

/-! ## Formats -/

theorem scan_field {skip keep : α → Bool} {ds : List (Directive α)} {s rest : List α}
    {ws : List (List α)} (h : scan (.field skip keep :: ds) s = some (ws, rest)) :
    ∃ word s' ws', readField skip keep s = some (word, s') ∧ scan ds s' = some (ws', rest) ∧
      ws = word :: ws' := by
  rw [scan] at h
  obtain ⟨⟨word, s'⟩, hword, h⟩ := Option.bind_eq_some_iff.mp h
  obtain ⟨⟨ws', rest'⟩, hrest, h⟩ := Option.bind_eq_some_iff.mp h
  cases h
  exact ⟨word, s', ws', hword, hrest, rfl⟩

theorem scan_field_of {skip keep : α → Bool} {ds : List (Directive α)} {s s' rest word : List α}
    {ws : List (List α)} (hword : readField skip keep s = some (word, s'))
    (h : scan ds s' = some (ws, rest)) :
    scan (.field skip keep :: ds) s = some (word :: ws, rest) := by
  simp [scan, hword, h]

theorem scan_literal {c : α} {ds : List (Directive α)} {s rest : List α} {ws : List (List α)}
    (h : scan (.literal c :: ds) s = some (ws, rest)) :
    ∃ s', s = c :: s' ∧ scan ds s' = some (ws, rest) := by
  rw [scan] at h
  obtain ⟨s', hs, hrest⟩ := Option.bind_eq_some_iff.mp h
  refine ⟨s', ?_, hrest⟩
  cases s with
  | nil => cases hs
  | cons a t =>
    rw [readLiteral] at hs
    split at hs
    · next heq => rw [heq, Option.some.inj hs]
    · cases hs

theorem scan_literal_of {c : α} {ds : List (Directive α)} {s rest : List α}
    {ws : List (List α)} (h : scan ds s = some (ws, rest)) :
    scan (.literal c :: ds) (c :: s) = some (ws, rest) := by
  simp [scan, readLiteral, h]

theorem scan_fields {ds : List (Directive α)} {s rest : List α} {ws : List (List α)}
    (h : scan ds s = some (ws, rest)) : fields ds s = ws := by
  induction ds generalizing s ws with
  | nil =>
    cases h
    rfl
  | cons d ds ih =>
    cases d with
    | field skip keep =>
      obtain ⟨word, s', ws', hword, hrest, rfl⟩ := scan_field h
      rw [fields, hword]
      exact congrArg (word :: ·) (ih hrest)
    | literal c =>
      obtain ⟨s', rfl, hrest⟩ := scan_literal h
      rw [fields, readLiteral, if_pos rfl]
      exact ih hrest

theorem scan_length {ds : List (Directive α)} {s rest : List α} {ws : List (List α)}
    (h : scan ds s = some (ws, rest)) : ws.length = ds.countP Directive.isField := by
  induction ds generalizing s ws with
  | nil =>
    cases h
    rfl
  | cons d ds ih =>
    cases d with
    | field skip keep =>
      obtain ⟨word, s', ws', -, hrest, rfl⟩ := scan_field h
      rw [List.length_cons, ih hrest, List.countP_cons_of_pos rfl]
    | literal c =>
      obtain ⟨s', -, hrest⟩ := scan_literal h
      rw [ih hrest, List.countP_cons_of_neg Bool.false_ne_true]

omit [DecidableEq α] in
theorem last_of_cons {d : Directive α} {ds : List (Directive α)} {P : Directive α → Prop}
    (h : ∀ e ∈ (d :: ds).getLast?, P e) : ∀ e ∈ ds.getLast?, P e := by
  intro e he
  refine h e ?_
  rw [Option.mem_def] at he ⊢
  rw [List.getLast?_cons, he]
  rfl

/-- A format that ends with a field is read to its end when every field is. -/
theorem scan_of_fields {ds : List (Directive α)} {s : List α}
    (hlast : ∀ d ∈ ds.getLast?, d.isField = true)
    (hlen : ds.countP Directive.isField ≤ (fields ds s).length) :
    ∃ rest, scan ds s = some (fields ds s, rest) := by
  induction ds generalizing s with
  | nil => exact ⟨s, rfl⟩
  | cons d ds ih =>
    have hpos : 0 < (d :: ds).countP Directive.isField := by
      have hmem := List.getLast_mem (List.cons_ne_nil d ds)
      exact List.countP_pos_iff.mpr ⟨_, hmem, hlast _ (List.getLast?_eq_some_getLast _)⟩
    cases d with
    | field skip keep =>
      rw [fields] at hlen ⊢
      rw [scan]
      cases hword : readField skip keep s with
      | none =>
        rw [hword, List.length_nil] at hlen
        omega
      | some r =>
        obtain ⟨word, s'⟩ := r
        rw [hword] at hlen
        rw [List.countP_cons_of_pos rfl, List.length_cons] at hlen
        obtain ⟨rest, hrest⟩ := ih (last_of_cons hlast) (Nat.le_of_succ_le_succ hlen)
        exact ⟨rest, by simp [hrest]⟩
    | literal c =>
      rw [fields] at hlen ⊢
      rw [scan]
      cases hlit : readLiteral c s with
      | none =>
        rw [hlit, List.length_nil] at hlen
        omega
      | some s' =>
        rw [hlit] at hlen
        obtain ⟨rest, hrest⟩ := ih (last_of_cons hlast)
          (by rwa [List.countP_cons_of_neg Bool.false_ne_true] at hlen)
        exact ⟨rest, by simp [hrest]⟩

/-! ## A part of the input -/

omit [DecidableEq α] in
theorem readField_eq_some {skip keep : α → Bool} {s word rest : List α} :
    readField skip keep s = some (word, rest) ↔ word ≠ [] ∧
      word = (s.dropWhile skip).takeWhile keep ∧ rest = (s.dropWhile skip).dropWhile keep := by
  rw [readField]
  split
  · next hempty =>
    have hnil := List.isEmpty_iff.mp hempty
    exact iff_of_false nofun fun h => h.1 (h.2.1.trans hnil)
  · next hne =>
    rw [List.isEmpty_iff] at hne
    constructor
    · intro h
      cases h
      exact ⟨hne, rfl, rfl⟩
    · rintro ⟨-, rfl, rfl⟩
      rfl

omit [DecidableEq α] in
/-- What is skipped, the field, and what is left. -/
theorem readField_iff {skip keep : α → Bool} {s word rest : List α} :
    readField skip keep s = some (word, rest) ↔
      ∃ gap, s = gap ++ (word ++ rest) ∧ (∀ c ∈ gap, skip c = true) ∧
        Ends skip (word ++ rest) ∧ word ≠ [] ∧ (∀ c ∈ word, keep c = true) ∧ Ends keep rest := by
  rw [readField_eq_some]
  constructor
  · rintro ⟨hne, hword, hrest⟩
    have hfield : word ++ rest = s.dropWhile skip := by
      rw [hword, hrest, List.takeWhile_append_dropWhile]
    refine ⟨s.takeWhile skip, ?_, fun c hc => List.mem_takeWhile_imp hc, ?_, hne, ?_, ?_⟩
    · rw [hfield, List.takeWhile_append_dropWhile]
    · rw [hfield]
      exact ends_dropWhile skip s
    · intro c hc
      rw [hword] at hc
      exact List.mem_takeWhile_imp hc
    · rw [hrest]
      exact ends_dropWhile keep _
  · rintro ⟨gap, rfl, hgap, hskip, hne, hword, hrest⟩
    rw [dropWhile_append hgap hskip, takeWhile_append hword hrest, dropWhile_append hword hrest]
    exact ⟨hne, rfl, rfl⟩

omit [DecidableEq α] in
theorem takeWhile_append_of_dropWhile {p : α → Bool} (d more : List α) :
    (d ++ more).takeWhile p =
      if d.dropWhile p = [] then d ++ more.takeWhile p else d.takeWhile p := by
  have hsplit := length_takeWhile_add p d
  rw [List.takeWhile_append]
  by_cases hnil : d.dropWhile p = []
  · rw [if_pos hnil, if_pos (by rw [hnil, List.length_nil] at hsplit; omega)]
  · have := List.length_pos_iff.mpr hnil
    rw [if_neg hnil, if_neg (by omega)]

omit [DecidableEq α] in
theorem dropWhile_append_ite {p : α → Bool} (d more : List α) :
    (d ++ more).dropWhile p =
      if d.dropWhile p = [] then more.dropWhile p else d.dropWhile p ++ more := by
  rw [List.dropWhile_append]
  simp only [List.isEmpty_iff]

omit [DecidableEq α] in
/-- More input makes a field longer only when the field goes to the end. -/
theorem readField_append {skip keep : α → Bool} {s word rest : List α} (more : List α)
    (h : readField skip keep s = some (word, rest)) :
    readField skip keep (s ++ more) =
      if rest = [] then some (word ++ more.takeWhile keep, more.dropWhile keep)
      else some (word, rest ++ more) := by
  obtain ⟨hne, hword, hrest⟩ := readField_eq_some.mp h
  have hd : s.dropWhile skip ≠ [] := fun hnil => hne (by rw [hword, hnil]; rfl)
  split
  · next hnil =>
    have hall : s.dropWhile skip = word :=
      (takeWhile_of_dropWhile (hrest.symm.trans hnil)).symm.trans hword.symm
    refine readField_eq_some.mpr ⟨by simp [hne], ?_, ?_⟩
    · rw [dropWhile_append_ite, if_neg hd, takeWhile_append_of_dropWhile,
        if_pos (hrest.symm.trans hnil), hall]
    · rw [dropWhile_append_ite, if_neg hd, dropWhile_append_ite, if_pos (hrest.symm.trans hnil)]
  · next hne' =>
    refine readField_eq_some.mpr ⟨hne, ?_, ?_⟩
    · rw [dropWhile_append_ite, if_neg hd, takeWhile_append_of_dropWhile, if_neg (hrest ▸ hne'),
        hword]
    · rw [dropWhile_append_ite, if_neg hd, dropWhile_append_ite, if_neg (hrest ▸ hne'), hrest]

theorem format_of_scan_nil {ds : List (Directive α)} {r : List (List α) × List α}
    (h : scan ds [] = some r) : ds = [] := by
  obtain ⟨ws, rest⟩ := r
  cases ds with
  | nil => rfl
  | cons d ds =>
    cases d with
    | field skip keep =>
      obtain ⟨word, s', ws', hword, -, -⟩ := scan_field h
      obtain ⟨hne, hnil, -⟩ := readField_eq_some.mp hword
      exact absurd hnil hne
    | literal c =>
      obtain ⟨s', hs, -⟩ := scan_literal h
      cases hs

/-- The same fields, up to a `clean` that changes no last field, are read off a longer list only
when the last one ends in front of what is new. -/
theorem scan_append_same {ds : List (Directive α)} {s more r rest : List α}
    {ws ws' : List (List α)} {clean : List α → List α}
    (hclean : ∀ d ∈ ds.getLast?, ∀ skip keep, d = .field skip keep →
      ∀ w : List α, (∀ c ∈ w, keep c = true) → clean w = w)
    (h : scan ds s = some (ws, r)) (h' : scan ds (s ++ more) = some (ws', rest))
    (heq : ws.map clean = ws'.map clean) : ws = ws' ∧ rest = r ++ more := by
  induction ds generalizing s ws ws' with
  | nil =>
    cases h
    cases h'
    exact ⟨rfl, rfl⟩
  | cons d ds ih =>
    cases d with
    | field skip keep =>
      obtain ⟨word, s₁, ws₁, hword, hrest, rfl⟩ := scan_field h
      obtain ⟨word', s₂, ws₂, hword', hrest', rfl⟩ := scan_field h'
      obtain ⟨hhead, htail⟩ := List.cons.inj heq
      rw [readField_append more hword] at hword'
      split at hword'
      · next hnil =>
        -- nothing is left for another directive
        subst hnil
        cases hword'
        cases format_of_scan_nil hrest
        cases hrest
        cases hrest'
        have hkeep := hclean _ rfl skip keep rfl
        have hall : ∀ c ∈ word, keep c = true := fun c hc =>
          (List.mem_takeWhile_imp ((readField_eq_some.mp hword).2.1 ▸ hc))
        have hmore : more.takeWhile keep = [] := by
          rw [hkeep _ hall, hkeep] at hhead
          · exact List.append_right_eq_self.mp hhead.symm
          · intro c hc
            rcases List.mem_append.mp hc with hc | hc
            · exact hall c hc
            · exact List.mem_takeWhile_imp hc
        have hsplit := List.takeWhile_append_dropWhile (p := keep) (l := more)
        rw [hmore, List.nil_append] at hsplit
        rw [hmore, hsplit, List.append_nil]
        exact ⟨rfl, rfl⟩
      · cases hword'
        obtain ⟨rfl, hmore⟩ := ih (last_of_cons hclean) hrest hrest' htail
        exact ⟨rfl, hmore⟩
    | literal c =>
      obtain ⟨s₁, rfl, hrest⟩ := scan_literal h
      obtain ⟨s₂, hs₂, hrest'⟩ := scan_literal h'
      cases hs₂
      exact ih (last_of_cons hclean) hrest hrest' heq

end Scanf
