import Netepoll.MessageQueues

/-! A key of 0 is `IPC_PRIVATE`: every call of `msgtool.c` under it makes a queue of its own.
A program of `msgtool.c` asks only about the queue it has just been given, so what goes into
such a queue stays there. -/

namespace Netepoll

open Requests Selective

variable {lim : MsgLimits} {k k' : Msgques}

/-- The queue that a system call is about. -/
def Syscall.qid : Syscall → Option Nat
  | .msgget _ _ => none
  | .msgsnd qid _ _ => some qid
  | .msgrcv qid _ _ _ => some qid
  | .rmid qid => some qid
  | .stat qid => some qid

/-- The queue that an answer gives. -/
def Syscall.given : (c : Syscall) → c.Answer → Option Nat
  | .msgget _ _, qid => qid
  | _, _ => none

/-- The next system call of the program is about queue `q`. -/
def AsksAbout (q : Nat) : Program Syscall Syscall.Answer MsgReturn → Prop
  | .done _ => False
  | .ask c _ => c.qid = some q

def OnlyGiven : Program Syscall Syscall.Answer MsgReturn → Prop
  | .done _ => True
  | .ask c next => ∀ a, (∀ q, AsksAbout q (next a) → c.given a = some q) ∧ OnlyGiven (next a)

/-- A function that asks about the queue of its key, then returns. -/
theorem onlyGiven_two {key : Int} {create : Bool}
    {next : Option Nat → Program Syscall Syscall.Answer MsgReturn}
    (hnone : ∃ r, next none = .done r)
    (hsome : ∀ qid, (∃ r, next (some qid) = .done r) ∨
      ∃ c rest, next (some qid) = .ask c rest ∧ c.qid = some qid ∧ ∀ a, ∃ r, rest a = .done r) :
    OnlyGiven (.ask (.msgget key create) next) := by
  intro a
  cases a with
  | none =>
    obtain ⟨r, hr⟩ := hnone
    exact ⟨fun q hq => by rw [hr] at hq; exact hq.elim, by rw [hr]; trivial⟩
  | some qid =>
    rcases hsome qid with ⟨r, hr⟩ | ⟨c, rest, hr, hc, hrest⟩
    · exact ⟨fun q hq => by rw [hr] at hq; exact hq.elim, by rw [hr]; trivial⟩
    · refine ⟨fun q hq => ?_, ?_⟩
      · rw [hr] at hq
        exact hc.symm.trans hq
      · rw [hr]
        intro b
        obtain ⟨r, hb⟩ := hrest b
        exact ⟨fun q hq => by rw [hb] at hq; exact hq.elim, by rw [hb]; trivial⟩

theorem onlyGiven_body (call : MsgCall) : OnlyGiven call.body := by
  cases call with
  | clrQue key =>
    exact onlyGiven_two ⟨_, rfl⟩ fun qid => .inr ⟨_, _, rfl, rfl, fun _ => ⟨_, rfl⟩⟩
  | getQinfo key =>
    refine onlyGiven_two ⟨_, rfl⟩ fun qid => .inr ⟨_, _, rfl, rfl, fun info => ?_⟩
    cases info with
    | none => exact ⟨_, rfl⟩
    | some info => exact ⟨_, rfl⟩
  | recvQmsg key msgtype flag =>
    refine onlyGiven_two ⟨_, rfl⟩ fun qid => .inr ⟨_, _, rfl, rfl, fun got => ?_⟩
    cases got with
    | none => exact ⟨_, rfl⟩
    | some m => exact ⟨_, rfl⟩
  | sendQmsg key msgtype buf len flag =>
    refine onlyGiven_two ⟨_, rfl⟩ fun qid => ?_
    simp only
    split
    · exact .inl ⟨_, rfl⟩
    · exact .inr ⟨_, _, rfl, rfl, fun _ => ⟨_, rfl⟩⟩

theorem not_asksAbout_msgget {key : Int} {create : Bool} {q : Nat}
    {next : Option Nat → Program Syscall Syscall.Answer MsgReturn} :
    ¬AsksAbout q (.ask (.msgget key create) next) :=
  fun h => Option.some_ne_none q (Eq.symm h)

theorem not_asksAbout_body (call : MsgCall) (q : Nat) : ¬AsksAbout q call.body := by
  cases call with
  | clrQue key => exact not_asksAbout_msgget
  | getQinfo key => exact not_asksAbout_msgget
  | recvQmsg key msgtype flag => exact not_asksAbout_msgget
  | sendQmsg key msgtype buf len flag => exact not_asksAbout_msgget

/-- A system call about a queue leaves the others alone. -/
structure Elsewhere (q : Nat) (k k' : Msgques) : Prop where
  next : k'.next = k.next
  keyOf : k'.keyOf = k.keyOf
  queue : ∀ q', q' ≠ q → k'.queue q' = k.queue q'
  sent : ∀ q', q' ≠ q → k'.sent q' = k.sent q'
  received : ∀ q', q' ≠ q → k'.received q' = k.received q'

theorem Elsewhere.self (q : Nat) (k : Msgques) : Elsewhere q k k :=
  ⟨rfl, rfl, fun _ _ => rfl, fun _ _ => rfl, fun _ _ => rfl⟩

theorem elsewhere_serve {c : Syscall} {refused : Bool} {a : c.Answer} {q : Nat}
    (hc : c.qid = some q) (hs : serveMsg lim k c refused = some (a, k')) : Elsewhere q k k' := by
  cases c with
  | msgget key create => cases hc
  | msgsnd qid msg flag =>
    cases hc
    rcases msgsnd_cases hs with ⟨-, rfl⟩ | ⟨messages, -, -, -, rfl⟩
    · exact .self q _
    · exact ⟨rfl, rfl, fun _ h => Function.update_of_ne h .., fun _ h => Function.update_of_ne h ..,
        fun _ _ => rfl⟩
  | msgrcv qid size msgtype flag =>
    cases hc
    rcases msgrcv_cases hs with ⟨-, rfl⟩ | ⟨messages, m, -, -, -, rfl⟩
    · exact .self q _
    · exact ⟨rfl, rfl, fun _ h => Function.update_of_ne h .., fun _ _ => rfl,
        fun _ h => Function.update_of_ne h ..⟩
  | rmid qid =>
    cases hc
    have hs' : k.rmid q refused = (a, k') := Option.some.inj hs
    rcases rmid_cases k q refused with heq | ⟨-, heq⟩
    · rw [heq] at hs'; cases hs'; exact .self q _
    · rw [heq] at hs'
      cases hs'
      exact ⟨rfl, rfl, fun _ h => Function.update_of_ne h .., fun _ _ => rfl, fun _ _ => rfl⟩
  | stat qid =>
    obtain ⟨-, rfl⟩ := Prod.mk.inj (Option.some.inj hs)
    exact .self _ _

/-- Nothing comes out of a queue that nothing was sent to. -/
theorem received_of_unsent (h : QueueBooks k) {c : Syscall} {refused : Bool} {a : c.Answer}
    {q : Nat} (hc : c.qid = some q) (hsent : k.sent q = [])
    (hs : serveMsg lim k c refused = some (a, k')) : k'.received q = k.received q := by
  cases c with
  | msgget key create => cases hc
  | msgsnd qid msg flag =>
    rcases msgsnd_cases hs with ⟨-, rfl⟩ | ⟨messages, -, -, -, rfl⟩
    · rfl
    · rfl
  | msgrcv qid size msgtype flag =>
    cases hc
    rcases msgrcv_cases hs with ⟨-, rfl⟩ | ⟨messages, m, hq, hm, -, -⟩
    · rfl
    · have hin := (h.inOrder q messages hq).mem_sent (List.mem_of_find?_eq_some hm)
      rw [hsent] at hin
      cases hin
  | rmid qid =>
    have hs' : k.rmid qid refused = (a, k') := Option.some.inj hs
    rcases rmid_cases k qid refused with heq | ⟨-, heq⟩
    · rw [heq] at hs'; cases hs'; rfl
    · rw [heq] at hs'; cases hs'; rfl
  | stat qid =>
    obtain ⟨-, rfl⟩ := Prod.mk.inj (Option.some.inj hs)
    rfl

/-- `msgget` changes no history, and gives no private queue but a new one. -/
theorem given_msgget (h : QueueBooks k) {key : Int} {create refused : Bool} {qid : Option Nat}
    (hs : k.msgget key create refused = (qid, k')) :
    k'.sent = k.sent ∧ k'.received = k.received ∧ k.next ≤ k'.next ∧
      (∀ q, q < k.next → k'.keyOf q = k.keyOf q ∧ k'.queue q = k.queue q) ∧
      ∀ q, qid = some q → q < k'.next ∧ (k'.keyOf q = IPC_PRIVATE → q = k.next) := by
  rcases msgget_cases k key create refused with heq | ⟨q', hq', heq⟩ | ⟨-, heq⟩
  · rw [heq] at hs
    cases hs
    exact ⟨rfl, rfl, Nat.le_refl _, fun _ _ => ⟨rfl, rfl⟩, fun q hq => by cases hq⟩
  · rw [heq] at hs
    cases hs
    obtain ⟨hpriv, hsome, hkey⟩ := h.named key q' (lookup_eq_some.mp hq').2
    refine ⟨rfl, rfl, Nat.le_refl _, fun _ _ => ⟨rfl, rfl⟩, fun q hq => ?_⟩
    cases hq
    exact ⟨h.lt_next hsome, fun hp => absurd (hkey.symm.trans hp) hpriv⟩
  · rw [heq] at hs
    cases hs
    refine ⟨rfl, rfl, Nat.le_succ _, fun q hq => ?_, fun q hq => ?_⟩
    · have hne : q ≠ k.next := Nat.ne_of_lt hq
      exact ⟨Function.update_of_ne hne .., Function.update_of_ne hne ..⟩
    · cases hq
      exact ⟨Nat.lt_succ_self _, fun _ => rfl⟩

section Runs

variable {π : Type} [DecidableEq π] {s t : MsgProcesses π}
  {as bs : List (ProcessMove π MsgCall Bool)}

/-- One process at most is about to use a private queue, and nothing has been sent to it. -/
structure PrivateKept (s : MsgProcesses π) : Prop where
  books : QueueBooks s.system
  buffers : ∀ p, (s.program p).Asks Syscall.InBuffers
  given : ∀ p, OnlyGiven (s.program p)
  lt : ∀ p q, AsksAbout q (s.program p) → q < s.system.next
  alone : ∀ p p' q, s.system.keyOf q = IPC_PRIVATE → AsksAbout q (s.program p) →
    AsksAbout q (s.program p') → p = p'
  unsent : ∀ p q, s.system.keyOf q = IPC_PRIVATE → AsksAbout q (s.program p) → s.system.sent q = []
  never : ∀ q, s.system.keyOf q = IPC_PRIVATE → s.system.received q = []

omit [DecidableEq π] in
theorem privateKept_start : PrivateKept (MsgProcesses.start π) where
  books := queueBooks_start
  buffers := fun _ => trivial
  given := fun _ => trivial
  lt := fun _ _ h => h.elim
  alone := fun _ _ _ _ h => h.elim
  unsent := fun _ _ _ h => h.elim
  never := fun _ _ => rfl

/-- What a process holds after a change of the program of one. -/
theorem asksAbout_update {program : π → Program Syscall Syscall.Answer MsgReturn} {p p' : π}
    {new : Program Syscall Syscall.Answer MsgReturn} {q : Nat}
    (h : AsksAbout q (Function.update program p new p')) :
    p' = p ∧ AsksAbout q new ∨ p' ≠ p ∧ AsksAbout q (program p') := by
  by_cases hp : p' = p
  · rw [hp, Function.update_self] at h
    exact .inl ⟨hp, h⟩
  · rw [Function.update_of_ne hp] at h
    exact .inr ⟨hp, h⟩

theorem PrivateKept.starts (h : PrivateKept s) (p : π) (call : MsgCall) :
    PrivateKept { s with program := Function.update s.program p call.body } where
  books := h.books
  buffers := update_all h.buffers (body_asks call)
  given := update_all h.given (onlyGiven_body call)
  lt := by
    intro p' q hq
    rcases asksAbout_update hq with ⟨-, hnew⟩ | ⟨-, hold⟩
    · exact absurd hnew (not_asksAbout_body call q)
    · exact h.lt p' q hold
  alone := by
    intro p₁ p₂ q hpriv h₁ h₂
    rcases asksAbout_update h₁ with ⟨-, hnew⟩ | ⟨-, hold₁⟩
    · exact absurd hnew (not_asksAbout_body call q)
    · rcases asksAbout_update h₂ with ⟨-, hnew⟩ | ⟨-, hold₂⟩
      · exact absurd hnew (not_asksAbout_body call q)
      · exact h.alone p₁ p₂ q hpriv hold₁ hold₂
  unsent := by
    intro p' q hpriv hq
    rcases asksAbout_update hq with ⟨-, hnew⟩ | ⟨-, hold⟩
    · exact absurd hnew (not_asksAbout_body call q)
    · exact h.unsent p' q hpriv hold
  never := h.never

variable {p : π}

/-- A process is given a queue. -/
theorem PrivateKept.gets (h : PrivateKept s) {key : Int} {create refused : Bool} {qid : Option Nat}
    {next : (Syscall.msgget key create).Answer → Program Syscall Syscall.Answer MsgReturn}
    (hp : s.program p = .ask (.msgget key create) next)
    (hs : s.system.msgget key create refused = (qid, k')) :
    PrivateKept { system := k', program := Function.update s.program p (next qid) } := by
  obtain ⟨hsent, hreceived, hle, hold, hnew⟩ := given_msgget h.books hs
  have hask : (Program.ask (.msgget key create) next).Asks Syscall.InBuffers := hp ▸ h.buffers p
  have hgiven : OnlyGiven (.ask (.msgget key create) next) := hp ▸ h.given p
  have hqid (q : Nat) (hq : AsksAbout q (next qid)) : qid = some q := (hgiven qid).1 q hq
  -- the others hold what they held before, so no new queue
  have hother {p' : π} {q : Nat} (hq : AsksAbout q (s.program p')) :
      q < s.system.next ∧ k'.keyOf q = s.system.keyOf q :=
    ⟨h.lt p' q hq, (hold q (h.lt p' q hq)).1⟩
  constructor
  · exact h.books.msgget hs
  · exact update_all h.buffers (hask.next qid)
  · exact update_all h.given (hgiven qid).2
  · intro p' q hq
    rcases asksAbout_update hq with ⟨-, hmine⟩ | ⟨-, htheirs⟩
    · exact (hnew q (hqid q hmine)).1
    · exact Nat.lt_of_lt_of_le (h.lt p' q htheirs) hle
  · intro p₁ p₂ q hpriv h₁ h₂
    rcases asksAbout_update h₁ with ⟨rfl, hmine₁⟩ | ⟨-, htheirs₁⟩
    · rcases asksAbout_update h₂ with ⟨rfl, -⟩ | ⟨-, htheirs₂⟩
      · rfl
      · have hq := (hnew q (hqid q hmine₁)).2 hpriv
        exact absurd hq (Nat.ne_of_lt (hother htheirs₂).1)
    · rcases asksAbout_update h₂ with ⟨-, hmine₂⟩ | ⟨-, htheirs₂⟩
      · have hq := (hnew q (hqid q hmine₂)).2 hpriv
        exact absurd hq (Nat.ne_of_lt (hother htheirs₁).1)
      · exact h.alone p₁ p₂ q ((hother htheirs₁).2 ▸ hpriv) htheirs₁ htheirs₂
  · intro p' q hpriv hq
    show k'.sent q = []
    rw [hsent]
    rcases asksAbout_update hq with ⟨-, hmine⟩ | ⟨-, htheirs⟩
    · rw [(hnew q (hqid q hmine)).2 hpriv]
      exact (h.books.fresh s.system.next (Nat.le_refl _)).2.1
    · exact h.unsent p' q ((hother htheirs).2 ▸ hpriv) htheirs
  · intro q hpriv
    show k'.received q = []
    rw [hreceived]
    by_cases hlt : q < s.system.next
    · exact h.never q ((hold q hlt).1 ▸ hpriv)
    · exact (h.books.fresh q (Nat.le_of_not_lt hlt)).2.2

/-- A process uses the queue that it has been given, and lets go of it. -/
theorem PrivateKept.uses (h : PrivateKept s) {c : Syscall} {refused : Bool} {a : c.Answer}
    {next : c.Answer → Program Syscall Syscall.Answer MsgReturn} {q₀ : Nat}
    (hp : s.program p = .ask c next) (hc : c.qid = some q₀)
    (hs : serveMsg lim s.system c refused = some (a, k')) :
    PrivateKept { system := k', program := Function.update s.program p (next a) } := by
  have helse := elsewhere_serve hc hs
  have hask : (Program.ask c next).Asks Syscall.InBuffers := hp ▸ h.buffers p
  have hgiven : OnlyGiven (.ask c next) := hp ▸ h.given p
  have hholds : AsksAbout q₀ (s.program p) := by rw [hp]; exact hc
  have hnone (q : Nat) : ¬AsksAbout q (next a) := by
    intro hq
    have hsome := (hgiven a).1 q hq
    cases c with
    | msgget key create => cases hc
    | msgsnd qid msg flag => cases hsome
    | msgrcv qid size msgtype flag => cases hsome
    | rmid qid => cases hsome
    | stat qid => cases hsome
  have hrest {p' : π} {q : Nat} (hq : AsksAbout q (Function.update s.program p (next a) p')) :
      p' ≠ p ∧ AsksAbout q (s.program p') := by
    rcases asksAbout_update hq with ⟨-, hmine⟩ | htheirs
    · exact absurd hmine (hnone q)
    · exact htheirs
  constructor
  · exact queueBooks_serve c refused a h.books hask.1 hs
  · exact update_all h.buffers (hask.next a)
  · exact update_all h.given (hgiven a).2
  · intro p' q hq
    show q < k'.next
    rw [helse.next]
    exact h.lt p' q (hrest hq).2
  · intro p₁ p₂ q hpriv h₁ h₂
    exact h.alone p₁ p₂ q (helse.keyOf ▸ hpriv) (hrest h₁).2 (hrest h₂).2
  · intro p' q hpriv hq
    have hpriv' : s.system.keyOf q = IPC_PRIVATE := helse.keyOf ▸ hpriv
    obtain ⟨hpp, hold⟩ := hrest hq
    -- whoever holds a private queue is alone with it
    have hqq : q ≠ q₀ := fun e => hpp (h.alone p' p q hpriv' hold (e ▸ hholds))
    exact (helse.sent q hqq).trans (h.unsent p' q hpriv' hold)
  · intro q hpriv
    have hpriv' : s.system.keyOf q = IPC_PRIVATE := helse.keyOf ▸ hpriv
    by_cases hqq : q = q₀
    · subst hqq
      have hsent := h.unsent p q hpriv' hholds
      exact (received_of_unsent h.books hc hsent hs).trans (h.never q hpriv')
    · exact (helse.received q hqq).trans (h.never q hpriv')

theorem privateKept_step {a : ProcessMove π MsgCall Bool} (h : PrivateKept s)
    (ht : msgMove lim s a = some t) : PrivateKept t := by
  cases processMove_cases ht with
  | started p call r hp => exact h.starts p call
  | served p refused c next a system hp hs =>
    cases c with
    | msgget key create => exact h.gets hp (Option.some.inj hs)
    | msgsnd qid msg flag => exact h.uses hp rfl hs
    | msgrcv qid size msgtype flag => exact h.uses hp rfl hs
    | rmid qid => exact h.uses hp rfl hs
    | stat qid => exact h.uses hp rfl hs

/-- A private queue that no process holds keeps what is in it. -/
theorem stranded_step {a : ProcessMove π MsgCall Bool} {q : Nat} (h : PrivateKept s)
    (hq : q < s.system.next) (hpriv : s.system.keyOf q = IPC_PRIVATE)
    (hnone : ∀ p, ¬AsksAbout q (s.program p)) (ht : msgMove lim s a = some t) :
    s.system.next ≤ t.system.next ∧ t.system.keyOf q = IPC_PRIVATE ∧
      t.system.queue q = s.system.queue q ∧ ∀ p, ¬AsksAbout q (t.program p) := by
  cases processMove_cases ht with
  | started p call r hp =>
    refine ⟨Nat.le_refl _, hpriv, rfl, fun p' hold => ?_⟩
    rcases asksAbout_update hold with ⟨-, hnew⟩ | ⟨-, hold⟩
    · exact not_asksAbout_body call q hnew
    · exact hnone p' hold
  | served p refused c next a system hp hs =>
    have hgiven : OnlyGiven (.ask c next) := hp ▸ h.given p
    have hkept (hnew : ¬AsksAbout q (next a)) (p' : π) :
        ¬AsksAbout q (Function.update s.program p (next a) p') := by
      intro hold
      rcases asksAbout_update hold with ⟨-, hold⟩ | ⟨-, hold⟩
      · exact hnew hold
      · exact hnone p' hold
    have hfar {q₀ : Nat} (hc : c.qid = some q₀) : q ≠ q₀ := by
      intro e
      refine hnone p ?_
      rw [hp, e]
      exact hc
    have hused {q₀ : Nat} (hc : c.qid = some q₀) (hgive : c.given a = none) :
        s.system.next ≤ system.next ∧ system.keyOf q = IPC_PRIVATE ∧
          system.queue q = s.system.queue q ∧
          ∀ p', ¬AsksAbout q (Function.update s.program p (next a) p') := by
      have helse := elsewhere_serve hc hs
      refine ⟨Nat.le_of_eq helse.next.symm, by rw [helse.keyOf]; exact hpriv,
        helse.queue q (hfar hc), hkept fun hnew => ?_⟩
      have hsome := (hgiven a).1 q hnew
      rw [hgive] at hsome
      cases hsome
    cases c with
    | msgget key create =>
      obtain ⟨-, -, hle, hold, hnew⟩ := given_msgget h.books (Option.some.inj hs)
      refine ⟨hle, (hold q hq).1.trans hpriv, (hold q hq).2, hkept fun hheld => ?_⟩
      have hfresh := (hnew q ((hgiven a).1 q hheld)).2 ((hold q hq).1.trans hpriv)
      exact absurd hfresh (Nat.ne_of_lt hq)
    | msgsnd qid msg flag => exact hused rfl rfl
    | msgrcv qid size msgtype flag => exact hused rfl rfl
    | rmid qid => exact hused rfl rfl
    | stat qid => exact hused rfl rfl

/-- **A key of 0.** No message is ever received from a queue made under `IPC_PRIVATE`. Once
the call that made the queue has let go of it, it stays as it is in every further run: what
`send_qmsg` put there is never read, and no `clr_que` deletes it. -/
theorem private_queue_stranded
    (hr : Transition.run (msgMove lim) (MsgProcesses.start π) as = some s) {q : Nat}
    (hpriv : s.system.keyOf q = IPC_PRIVATE) :
    s.system.received q = [] ∧
      (q < s.system.next → (∀ p, ¬AsksAbout q (s.program p)) →
        Transition.run (msgMove lim) s bs = some t →
        t.system.queue q = s.system.queue q ∧ t.system.received q = []) := by
  have h : PrivateKept s :=
    Transition.run_invariant (fun _ _ _ h ht => privateKept_step h ht) privateKept_start hr
  refine ⟨h.never q hpriv, fun hq hnone ht => ?_⟩
  have hkept := Transition.run_invariant
    (I := fun u => PrivateKept u ∧ q < u.system.next ∧ u.system.keyOf q = IPC_PRIVATE ∧
      u.system.queue q = s.system.queue q ∧ ∀ p, ¬AsksAbout q (u.program p))
    (fun u a v hu hv => by
      obtain ⟨hu, hlt, hkey, hqueue, hfree⟩ := hu
      obtain ⟨hle, hkey', hsame, hfree'⟩ := stranded_step hu hlt hkey hfree hv
      exact ⟨privateKept_step hu hv, Nat.lt_of_lt_of_le hlt hle, hkey', hsame.trans hqueue, hfree'⟩)
    ⟨h, hq, hpriv, rfl, hnone⟩ ht
  exact ⟨hkept.2.2.2.1, hkept.1.never q hkept.2.2.1⟩

/-- A message sent under key 0, and then a receive under key 0. -/
theorem private_queue_stranded_sendReceive : ∃ s t : MsgProcesses Bool,
    Transition.run (msgMove usualLimits) (MsgProcesses.start Bool)
      [.starts true (.sendQmsg 0 1 letters 2 0), .goes true false, .goes true false] = some s ∧
    Transition.run (msgMove usualLimits) s
      [.starts false (.recvQmsg 0 1 IPC_NOWAIT), .goes false false, .goes false false] = some t ∧
    t.system.queue 0 = some [{ msgtype := 1, text := [97, 98] }] ∧
    t.system.received 0 = [] := by
  obtain ⟨s, hr⟩ : ∃ s : MsgProcesses Bool, Transition.run (msgMove usualLimits)
      (MsgProcesses.start Bool)
      [.starts true (.sendQmsg 0 1 letters 2 0), .goes true false, .goes true false] = some s :=
    ⟨_, rfl⟩
  obtain ⟨t, ht⟩ : ∃ t : MsgProcesses Bool, Transition.run (msgMove usualLimits) s
      [.starts false (.recvQmsg 0 1 IPC_NOWAIT), .goes false false, .goes false false] =
        some t := by
    cases hr
    exact ⟨_, rfl⟩
  have hpriv : s.system.keyOf 0 = IPC_PRIVATE := by
    cases hr
    rfl
  have hq : s.system.queue 0 = some [{ msgtype := 1, text := [97, 98] }] := by
    cases hr
    rfl
  have hlt : 0 < s.system.next := by
    cases hr
    decide
  have hfree (p : Bool) : ¬AsksAbout 0 (s.program p) := by
    cases hr
    cases p with
    | false => exact id
    | true => exact id
  obtain ⟨hsame, hnone⟩ := (private_queue_stranded hr hpriv).2 hlt hfree ht
  exact ⟨s, t, hr, ht, hsame.trans hq, hnone⟩

end Runs

end Netepoll
