import Mathlib.Logic.Function.Basic
import Netepoll.Lib.Transition

/-! Programs that ask a system for one thing after another, and processes that run such
programs against one system, request by request in any order. Proved here: what every
request of a program keeps, every run of the program keeps, and every interleaving of many;
and programs that keep to their own parts of the system do so in every interleaving. -/

namespace Requests

universe u v w x

/-- A program is done, or asks and goes on with the answer. -/
inductive Program (κ : Type u) (ans : κ → Type v) (ρ : Type w) where
  | done (r : ρ)
  | ask (k : κ) (next : ans k → Program κ ans ρ)

variable {κ : Type u} {ans : κ → Type v} {ρ : Type w}

/-- Every request of the program meets `P`, whatever the answers are. -/
def Program.Asks (P : κ → Prop) : Program κ ans ρ → Prop
  | .done _ => True
  | .ask k next => P k ∧ ∀ a, (next a).Asks P

theorem Program.Asks.next {P : κ → Prop} {k : κ} {next : ans k → Program κ ans ρ}
    (h : (Program.ask k next).Asks P) (a : ans k) : (next a).Asks P := h.2 a

/-- Every request of the program meets `P`, as long as the answers meet `A`. -/
def Program.AsksGiven (P : κ → Prop) (A : (k : κ) → ans k → Prop) : Program κ ans ρ → Prop
  | .done _ => True
  | .ask k next => P k ∧ ∀ a, A k a → (next a).AsksGiven P A

theorem Program.asks_iff {P : κ → Prop} {p : Program κ ans ρ} :
    p.Asks P ↔ p.AsksGiven P fun _ _ => True := by
  induction p with
  | done r => exact Iff.rfl
  | ask k next ih => simp only [Asks, AsksGiven, ih, forall_const]

/-- A program in the local state `l`: it asks only for what `M` allows there and goes on so in
whatever an answer makes of the local state by `D`, up to a result that meets `Q`. -/
def Program.Within {β : Type x} (M : β → κ → Prop) (D : β → (k : κ) → ans k → β → Prop)
    (Q : β → ρ → Prop) : Program κ ans ρ → β → Prop
  | .done r, l => Q l r
  | .ask k next, l => M l k ∧ ∀ a l', D l k a l' → (next a).Within M D Q l'

theorem Program.Within.imp {β : Type x} {M : β → κ → Prop}
    {D : β → (k : κ) → ans k → β → Prop} {Q Q' : β → ρ → Prop} (hQ : ∀ l r, Q l r → Q' l r)
    {p : Program κ ans ρ} {l : β} (h : p.Within M D Q l) : p.Within M D Q' l := by
  induction p generalizing l with
  | done r => exact hQ l r h
  | ask k next ih => exact ⟨h.1, fun a l' hl => ih a (h.2 a l' hl)⟩

/-- What can be left of a program, for some answers. -/
inductive Program.Leaves (p : Program κ ans ρ) : Program κ ans ρ → Prop
  | all : p.Leaves p
  | next {k : κ} {next : ans k → Program κ ans ρ} (h : p.Leaves (.ask k next)) (a : ans k) :
    p.Leaves (next a)

theorem Program.Leaves.trans {p q r : Program κ ans ρ} (h : p.Leaves q) (h' : q.Leaves r) :
    p.Leaves r := by
  induction h' with
  | all => exact h
  | next _ a ih => exact ih.next a

theorem Program.Leaves.of_done {r : ρ} {p : Program κ ans ρ}
    (h : (Program.done r : Program κ ans ρ).Leaves p) : p = .done r := by
  induction h with
  | all => rfl
  | next _ a ih => cases ih

/-! ## One program -/

section Alone

variable {σ : Type x} {ω : Type x}

/-- Run a program against a system. `ω` is what the system is free to choose at a request. -/
def Program.exec (serve : σ → (k : κ) → ω → ans k × σ) :
    Program κ ans ρ → σ → List ω → Option (ρ × σ)
  | .done r, s, _ => some (r, s)
  | .ask _ _, _, [] => none
  | .ask k next, s, c :: cs => (next (serve s k c).1).exec serve (serve s k c).2 cs

/-- If what is done for a program changes the system as `C` says by its local state, then so
does a run of the program, up to its result. -/
theorem Program.Within.exec {β : Type x} {M : β → κ → Prop}
    {D : β → (k : κ) → ans k → β → Prop} {Q : β → ρ → Prop} {C : σ → β → Prop}
    {serve : σ → (k : κ) → ω → ans k × σ}
    (hserve : ∀ s l k c, C s l → M l k →
      ∃ l', D l k (serve s k c).1 l' ∧ C (serve s k c).2 l')
    {p : Program κ ans ρ} {s t : σ} {l : β} {cs : List ω} {r : ρ} (h : p.Within M D Q l)
    (hs : C s l) (hr : p.exec serve s cs = some (r, t)) : ∃ l', C t l' ∧ Q l' r := by
  induction p generalizing s l cs with
  | done r' =>
    cases hr
    exact ⟨l, hs, h⟩
  | ask k next ih =>
    cases cs with
    | nil => cases hr
    | cons c cs =>
      obtain ⟨l', hl, hs'⟩ := hserve s l k c hs h.1
      exact ih _ (h.2 _ l' hl) hs' hr

end Alone

/-! ## Many processes -/

section Together

variable {σ : Type x} {ω : Type x} {π : Type x} {χ : Type x}

/-- One system and the programs that the processes are in. -/
structure Processes (π : Type x) (σ : Type x) (κ : Type u) (ans : κ → Type v)
    (ρ : Type w) where
  system : σ
  program : π → Program κ ans ρ

/-- A process starts the program of a call, or has its next request served. -/
inductive ProcessMove (π : Type x) (χ : Type x) (ω : Type x) where
  | starts (p : π) (call : χ)
  | goes (p : π) (choice : ω)

variable [DecidableEq π]

/-- `serve` is `none` when the system lets the process wait. -/
def processMove (serve : σ → (k : κ) → ω → Option (ans k × σ)) (body : χ → Program κ ans ρ)
    (s : Processes π σ κ ans ρ) : ProcessMove π χ ω → Option (Processes π σ κ ans ρ)
  | .starts p call =>
    match s.program p with
    | .done _ => some { s with program := Function.update s.program p (body call) }
    | .ask _ _ => none
  | .goes p c =>
    match s.program p with
    | .done _ => none
    | .ask k next =>
      (serve s.system k c).map fun r =>
        { system := r.2, program := Function.update s.program p (next r.1) }

variable {serve : σ → (k : κ) → ω → Option (ans k × σ)} {body : χ → Program κ ans ρ}
  {s t : Processes π σ κ ans ρ}

/-- What a move does. -/
inductive ProcessMoved (serve : σ → (k : κ) → ω → Option (ans k × σ)) (body : χ → Program κ ans ρ)
    (s : Processes π σ κ ans ρ) : ProcessMove π χ ω → Processes π σ κ ans ρ → Prop
  | started (p : π) (call : χ) (r : ρ) (hp : s.program p = .done r) :
    ProcessMoved serve body s (.starts p call)
      { s with program := Function.update s.program p (body call) }
  | served (p : π) (c : ω) (k : κ) (next : ans k → Program κ ans ρ) (a : ans k) (system : σ)
      (hp : s.program p = .ask k next) (hserve : serve s.system k c = some (a, system)) :
    ProcessMoved serve body s (.goes p c)
      { system := system, program := Function.update s.program p (next a) }

theorem processMove_cases {a : ProcessMove π χ ω} (h : processMove serve body s a = some t) :
    ProcessMoved serve body s a t := by
  cases a with
  | starts p call =>
    cases hp : s.program p with
    | done r =>
      simp only [processMove, hp, Option.some.injEq] at h
      subst h
      exact .started p call r hp
    | ask k next => simp [processMove, hp] at h
  | goes p c =>
    cases hp : s.program p with
    | done r => simp [processMove, hp] at h
    | ask k next =>
      simp only [processMove, hp, Option.map_eq_some_iff] at h
      obtain ⟨⟨a, system⟩, hserve, rfl⟩ := h
      exact .served p c k next a system hp hserve

/-- A property of every program, but for the one that a move changes. -/
theorem update_all {Q : Program κ ans ρ → Prop} {program : π → Program κ ans ρ}
    (h : ∀ p, Q (program p)) {p : π} {new : Program κ ans ρ} (hnew : Q new) (q : π) :
    Q (Function.update program p new q) := by
  by_cases hq : q = p
  · rw [hq, Function.update_self]
    exact hnew
  · rw [Function.update_of_ne hq]
    exact h q

/-- **Rely-guarantee rule.** Programs rely on answers that meet `A` to ask only for what meets
`P`; the system keeps `I` and answers with `A` as long as it is asked only for that. Then so it
goes in every run. -/
theorem run_guarantees {P : κ → Prop} {A : (k : κ) → ans k → Prop} {I : σ → Prop}
    (hserve : ∀ s k c a s', I s → P k → serve s k c = some (a, s') → I s' ∧ A k a)
    (hbody : ∀ call, (body call).AsksGiven P A) {as : List (ProcessMove π χ ω)} (hs : I s.system)
    (hp : ∀ p, (s.program p).AsksGiven P A)
    (hr : Transition.run (processMove serve body) s as = some t) :
    I t.system ∧ ∀ p, (t.program p).AsksGiven P A := by
  have hstep (s : Processes π σ κ ans ρ) (a : ProcessMove π χ ω) (t : Processes π σ κ ans ρ)
      (h : I s.system ∧ ∀ p, (s.program p).AsksGiven P A)
      (ht : processMove serve body s a = some t) :
      I t.system ∧ ∀ p, (t.program p).AsksGiven P A := by
    cases processMove_cases ht with
    | started p call r hp => exact ⟨h.1, update_all h.2 (hbody call)⟩
    | served p c k next a system hp hk =>
      have hask : (Program.ask k next).AsksGiven P A := hp ▸ h.2 p
      obtain ⟨hsys, ha⟩ := hserve _ k c a system h.1 hask.1 hk
      exact ⟨hsys, update_all h.2 (hask.2 a ha)⟩
  exact Transition.run_invariant (I := fun s => I s.system ∧ ∀ p, (s.program p).AsksGiven P A)
    hstep ⟨hs, hp⟩ hr

/-- **Interleaving rule.** What the system keeps at every request that meets `P` holds in
every run of processes whose programs ask for nothing else. -/
theorem run_keeps {P : κ → Prop} {I : σ → Prop}
    (hserve : ∀ s k c a s', I s → P k → serve s k c = some (a, s') → I s')
    (hbody : ∀ call, (body call).Asks P) {as : List (ProcessMove π χ ω)} (hs : I s.system)
    (hp : ∀ p, (s.program p).Asks P)
    (hr : Transition.run (processMove serve body) s as = some t) :
    I t.system ∧ ∀ p, (t.program p).Asks P := by
  obtain ⟨hsys, hprog⟩ := run_guarantees (A := fun _ _ => True)
    (fun s k c a s' h hk hs => ⟨hserve s k c a s' h hk hs, trivial⟩)
    (fun call => Program.asks_iff.mp (hbody call)) hs (fun p => Program.asks_iff.mp (hp p)) hr
  exact ⟨hsys, fun p => Program.asks_iff.mpr (hprog p)⟩

/-- **Ownership rule.** `C` divides the system among the processes. If what is done for a
process changes only its own part, as `D` says, then in every run every process stays within
its part. -/
theorem run_within {β : Type x} {M : β → κ → Prop} {D : β → (k : κ) → ans k → β → Prop}
    {Q : π → β → ρ → Prop} {C : σ → (π → β) → Prop}
    (hserve : ∀ s parts p k c a s', C s parts → M (parts p) k → serve s k c = some (a, s') →
      ∃ l, D (parts p) k a l ∧ C s' (Function.update parts p l))
    {as : List (π × ω)} {parts : π → β} (hs : C s.system parts)
    (hp : ∀ p, (s.program p).Within M D (Q p) (parts p))
    (hr : Transition.run (fun s a => processMove serve body s (.goes a.1 a.2)) s as = some t) :
    ∃ parts', C t.system parts' ∧ ∀ p, (t.program p).Within M D (Q p) (parts' p) := by
  induction as generalizing s parts with
  | nil =>
    cases hr
    exact ⟨parts, hs, hp⟩
  | cons a as ih =>
    obtain ⟨u, hu, hr⟩ := Transition.run_cons_eq_some.mp hr
    cases processMove_cases hu with
    | served p c k next answer system hk hanswer =>
      have hask : (Program.ask k next).Within M D (Q a.1) (parts a.1) := hk ▸ hp a.1
      obtain ⟨l, hl, hdivided⟩ := hserve _ parts a.1 k a.2 answer system hs hask.1 hanswer
      refine ih hdivided (fun q => ?_) hr
      by_cases hq : q = a.1
      · subst hq
        simp only [Function.update_self]
        exact hask.2 answer l hl
      · simp only [Function.update_of_ne hq]
        exact hp q

/-- The call that a process has started last. -/
def lastStarted (p : π) : List (ProcessMove π χ ω) → Option χ
  | [] => none
  | .starts q call :: as => (lastStarted p as).or (if q = p then some call else none)
  | .goes _ _ :: as => lastStarted p as

theorem starts_mem_of_lastStarted {p : π} {as : List (ProcessMove π χ ω)} {call : χ}
    (h : lastStarted p as = some call) : .starts p call ∈ as := by
  induction as with
  | nil => cases h
  | cons a as ih =>
    cases a with
    | starts q c =>
      rw [lastStarted, Option.or_eq_some_iff] at h
      rcases h with hlater | ⟨-, hfirst⟩
      · exact List.mem_cons_of_mem _ (ih hlater)
      · split at hfirst
        · next hq =>
          cases hfirst
          rw [hq]
          exact List.mem_cons_self
        · cases hfirst
    | goes q c => exact List.mem_cons_of_mem _ (ih h)

/-- What a process is in is left of the call that it has started last, or of what it was in
before if it has started none. -/
theorem run_leaves {as : List (ProcessMove π χ ω)}
    (hr : Transition.run (processMove serve body) s as = some t) (p : π) :
    (∃ call, lastStarted p as = some call ∧ (body call).Leaves (t.program p)) ∨
      (lastStarted p as = none ∧ (s.program p).Leaves (t.program p)) := by
  induction as generalizing s with
  | nil =>
    cases hr
    exact .inr ⟨rfl, .all⟩
  | cons a as ih =>
    obtain ⟨u, hu, hr⟩ := Transition.run_cons_eq_some.mp hr
    rcases ih hr with ⟨call, hlast, hleaves⟩ | ⟨hlast, hleaves⟩
    · refine .inl ⟨call, ?_, hleaves⟩
      cases a with
      | starts q c => rw [lastStarted, hlast, Option.some_or]
      | goes q c => exact hlast
    · cases processMove_cases hu with
      | started q call r hq =>
        by_cases hpq : q = p
        · subst hpq
          refine .inl ⟨call, by rw [lastStarted, hlast, Option.none_or, if_pos rfl], ?_⟩
          simpa only [Function.update_self] using hleaves
        · refine .inr ⟨by rw [lastStarted, hlast, Option.none_or, if_neg hpq], ?_⟩
          simpa only [Function.update_of_ne (Ne.symm hpq)] using hleaves
      | served q c k next a system hq hk =>
        refine .inr ⟨hlast, ?_⟩
        by_cases hpq : p = q
        · subst hpq
          have hfirst : (s.program p).Leaves (next a) := hq ▸ Program.Leaves.all.next a
          exact hfirst.trans (by simpa only [Function.update_self] using hleaves)
        · simpa only [Function.update_of_ne hpq] using hleaves

end Together

end Requests
