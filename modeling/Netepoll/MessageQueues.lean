import Netepoll.Lib.Selective
import Netepoll.Msgtool

/-! Processes that use `msgtool.c` side by side, their system calls in any order: what goes
through the queues, and what one call can rely on. -/

namespace Netepoll

open Requests Selective

variable {lim : MsgLimits} {k k' : Msgques}

/-! ## The kernel calls -/

/-- A choice of `msgrcv` looks at the type only. -/
theorem wanted_congr (messages : List Message) (msgtype : Int) (flag : UInt32) (a b : Message)
    (h : a.msgtype = b.msgtype) :
    wanted messages msgtype flag a = wanted messages msgtype flag b := by
  simp only [wanted, h]

theorem lookup_eq_some {key : Int} {qid : Nat} :
    k.lookup key = some qid ↔ key ≠ IPC_PRIVATE ∧ k.named key = some qid := by
  unfold Msgques.lookup
  split
  · rename_i hkey; simp [hkey]
  · rename_i hkey; simp [hkey]

/-- `msgget` gives the queue of the key, or makes one, or gives nothing. -/
theorem msgget_cases (k : Msgques) (key : Int) (create refused : Bool) :
    k.msgget key create refused = (none, k) ∨
      (∃ qid, k.lookup key = some qid ∧ k.msgget key create refused = (some qid, k)) ∨
      k.lookup key = none ∧ k.msgget key create refused = (some k.next, k.create key) := by
  unfold Msgques.msgget
  split
  · exact .inl rfl
  · split
    · rename_i qid hq
      exact .inr (.inl ⟨qid, hq, rfl⟩)
    · rename_i hq
      split
      · exact .inr (.inr ⟨hq, rfl⟩)
      · exact .inl rfl

theorem msgsnd_cases {qid : Nat} {msg : Message} {flag : UInt32} {refused : Bool} {ret : Int}
    (h : k.msgsnd lim qid msg flag refused = some (ret, k')) :
    (ret = -1 ∧ k' = k) ∨
      ∃ messages, k.queue qid = some messages ∧ 1 ≤ msg.msgtype ∧ ret = 0 ∧
        k' = { k with
          queue := Function.update k.queue qid (some (messages ++ [msg]))
          sent := Function.update k.sent qid (k.sent qid ++ [msg]) } := by
  unfold Msgques.msgsnd at h
  split at h
  · cases h; exact .inl ⟨rfl, rfl⟩
  · rename_i harg
    split at h
    · cases h; exact .inl ⟨rfl, rfl⟩
    · rename_i messages hq
      split at h
      · cases h
        exact .inr ⟨messages, hq, by omega, rfl, rfl⟩
      · split at h
        · cases h; exact .inl ⟨rfl, rfl⟩
        · cases h

theorem msgrcv_cases {qid size : Nat} {msgtype : Int} {flag : UInt32} {refused : Bool}
    {got : Option Message} (h : k.msgrcv qid size msgtype flag refused = some (got, k')) :
    ((got = none ∨ flag &&& MSG_COPY ≠ 0) ∧ k' = k) ∨
      ∃ messages m, k.queue qid = some messages ∧
        messages.find? (wanted messages msgtype flag) = some m ∧
        got = some { m with text := m.text.take size } ∧
        k' = { k with
          queue := Function.update k.queue qid
            (some (messages.eraseP (wanted messages msgtype flag)))
          received := Function.update k.received qid
            (k.received qid ++ [{ m with text := m.text.take size }]) } := by
  unfold Msgques.msgrcv at h
  split at h
  · cases h; exact .inl ⟨.inl rfl, rfl⟩
  · split at h
    · cases h; exact .inl ⟨.inl rfl, rfl⟩
    · rename_i messages hq
      split at h
      · rename_i hcopy
        cases h; exact .inl ⟨.inr hcopy, rfl⟩
      · split at h
        · split at h
          · cases h; exact .inl ⟨.inl rfl, rfl⟩
          · cases h
        · rename_i m hm
          split at h
          · cases h; exact .inl ⟨.inl rfl, rfl⟩
          · cases h; exact .inr ⟨messages, m, hq, hm, rfl, rfl⟩

theorem rmid_cases (k : Msgques) (qid : Nat) (refused : Bool) :
    k.rmid qid refused = (-1, k) ∨
      (k.queue qid ≠ none ∧ k.rmid qid refused = (0, k.remove qid)) := by
  unfold Msgques.rmid
  split
  · exact .inl rfl
  · rename_i h
    exact .inr ⟨fun hq => h (.inr hq), rfl⟩

/-! ## What every system call keeps -/

/-- The books of the queues. Keys and live queues go together, each class of messages is in
order, and every message fits in the buffers of `msgtool.c`. -/
structure QueueBooks (k : Msgques) : Prop where
  inOrder : ∀ q messages, k.queue q = some messages →
    InOrder Message.msgtype (k.sent q) (k.received q) messages
  isPrefix : ∀ q t,
    ofClass Message.msgtype t (k.received q) <+: ofClass Message.msgtype t (k.sent q)
  fits : ∀ q, ∀ m ∈ k.sent q, 1 ≤ m.msgtype ∧ m.text.length ≤ MSGSIZE
  named : ∀ key q, k.named key = some q →
    key ≠ IPC_PRIVATE ∧ (k.queue q).isSome = true ∧ k.keyOf q = key
  live : ∀ q, (k.queue q).isSome = true → k.keyOf q ≠ IPC_PRIVATE → k.named (k.keyOf q) = some q
  fresh : ∀ q, k.next ≤ q → k.queue q = none ∧ k.sent q = [] ∧ k.received q = []

theorem queueBooks_start : QueueBooks Msgques.start where
  inOrder := fun _ _ h => by cases h
  isPrefix := fun _ _ => List.prefix_refl _
  fits := fun _ _ h => by cases h
  named := fun _ _ h => by cases h
  live := fun _ h _ => by cases h
  fresh := fun _ _ => ⟨rfl, rfl, rfl⟩

theorem QueueBooks.lt_next (h : QueueBooks k) {q : Nat} (hq : (k.queue q).isSome = true) :
    q < k.next := by
  by_contra hle
  rw [(h.fresh q (Nat.le_of_not_lt hle)).1] at hq
  cases hq

theorem QueueBooks.create (h : QueueBooks k) {key : Int} (hkey : k.lookup key = none) :
    QueueBooks (k.create key) := by
  have hne {q : Nat} (hq : (k.queue q).isSome = true) : q ≠ k.next := Nat.ne_of_lt (h.lt_next hq)
  obtain ⟨-, hsent, hreceived⟩ := h.fresh k.next (Nat.le_refl _)
  -- a key other than `IPC_PRIVATE` named nothing before
  have hfree (hpriv : key ≠ IPC_PRIVATE) : k.named key = none := by
    simpa [Msgques.lookup, hpriv] using hkey
  have hnamed (key' : Int) (q : Nat) (hq : (k.create key).named key' = some q) :
      (q = k.next ∧ key' = key ∧ key ≠ IPC_PRIVATE) ∨ k.named key' = some q := by
    by_cases hpriv : key = IPC_PRIVATE
    · exact .inr (by simpa [Msgques.create, hpriv] using hq)
    · by_cases hk : key' = key
      · subst hk
        have hq' : k.next = q := by simpa [Msgques.create, hpriv] using hq
        exact .inl ⟨hq'.symm, rfl, hpriv⟩
      · exact .inr (by simpa [Msgques.create, hpriv, Function.update_of_ne hk] using hq)
  constructor
  · intro q messages hq
    by_cases hqn : q = k.next
    · subst hqn
      have hm : [] = messages := by simpa [Msgques.create] using hq
      subst hm
      simpa [Msgques.create, hsent, hreceived] using InOrder.start (f := Message.msgtype)
    · exact h.inOrder q messages (by simpa [Msgques.create, Function.update_of_ne hqn] using hq)
  · exact h.isPrefix
  · exact h.fits
  · intro key' q hq
    rcases hnamed key' q hq with ⟨rfl, rfl, hpriv⟩ | hold
    · exact ⟨hpriv, by simp [Msgques.create], by simp [Msgques.create]⟩
    · obtain ⟨hpriv, hsome, hkeyOf⟩ := h.named key' q hold
      refine ⟨hpriv, ?_, ?_⟩
      · simpa [Msgques.create, Function.update_of_ne (hne hsome)] using hsome
      · simpa [Msgques.create, Function.update_of_ne (hne hsome)] using hkeyOf
  · intro q hq hpriv
    by_cases hqn : q = k.next
    · subst hqn
      have hkeyOf : (k.create key).keyOf k.next = key := by simp [Msgques.create]
      rw [hkeyOf] at hpriv ⊢
      simp [Msgques.create, hpriv]
    · have hsome : (k.queue q).isSome = true := by
        simpa [Msgques.create, Function.update_of_ne hqn] using hq
      have hkeyOf : (k.create key).keyOf q = k.keyOf q := by
        simp [Msgques.create, Function.update_of_ne hqn]
      rw [hkeyOf] at hpriv ⊢
      have hold := h.live q hsome hpriv
      by_cases hkp : key = IPC_PRIVATE
      · simpa [Msgques.create, hkp] using hold
      · have hother : k.keyOf q ≠ key := by
          intro heq
          rw [heq, hfree hkp] at hold
          cases hold
        simpa [Msgques.create, hkp, Function.update_of_ne hother] using hold
  · intro q hq
    have hle : k.next ≤ q := Nat.le_of_succ_le hq
    have hqn : q ≠ k.next := Nat.ne_of_gt hq
    simpa [Msgques.create, Function.update_of_ne hqn] using h.fresh q hle

/-- A change of one live queue and of its history. -/
theorem QueueBooks.change (h : QueueBooks k) {qid : Nat} {old new sent received : List Message}
    (hq : k.queue qid = some old) (horder : InOrder Message.msgtype sent received new)
    (hfits : ∀ m ∈ sent, 1 ≤ m.msgtype ∧ m.text.length ≤ MSGSIZE) :
    QueueBooks { k with
      queue := Function.update k.queue qid (some new)
      sent := Function.update k.sent qid sent
      received := Function.update k.received qid received } := by
  have hsome (q : Nat) :
      (Function.update k.queue qid (some new) q).isSome = (k.queue q).isSome := by
    by_cases hqq : q = qid
    · rw [hqq, Function.update_self, hq]
      rfl
    · rw [Function.update_of_ne hqq]
  constructor
  · intro q messages hm
    by_cases hqq : q = qid
    · subst hqq
      simp only [Function.update_self, Option.some.injEq] at hm ⊢
      subst hm
      exact horder
    · simp only [Function.update_of_ne hqq] at hm ⊢
      exact h.inOrder q messages hm
  · intro q t
    by_cases hqq : q = qid
    · subst hqq
      simp only [Function.update_self]
      exact horder.isPrefix t
    · simp only [Function.update_of_ne hqq]
      exact h.isPrefix q t
  · intro q m hm
    by_cases hqq : q = qid
    · subst hqq
      simp only [Function.update_self] at hm
      exact hfits m hm
    · simp only [Function.update_of_ne hqq] at hm
      exact h.fits q m hm
  · intro key q hn
    obtain ⟨hpriv, hlive, hkey⟩ := h.named key q hn
    exact ⟨hpriv, (hsome q).trans hlive, hkey⟩
  · intro q hlive hpriv
    exact h.live q ((hsome q).symm.trans hlive) hpriv
  · intro q hn
    have hqq : q ≠ qid := by
      intro e
      rw [e] at hn
      rw [(h.fresh qid hn).1] at hq
      cases hq
    simp only [Function.update_of_ne hqq]
    exact h.fresh q hn

theorem remove_queue_eq_some {qid q : Nat} {messages : List Message} :
    (k.remove qid).queue q = some messages ↔ q ≠ qid ∧ k.queue q = some messages := by
  by_cases hq : q = qid
  · simp [Msgques.remove, hq]
  · simp [Msgques.remove, hq]

theorem remove_named_eq_some {qid q : Nat} {key : Int} :
    (k.remove qid).named key = some q ↔ q ≠ qid ∧ k.named key = some q := by
  unfold Msgques.remove
  constructor
  · intro h
    simp only at h
    split at h
    · cases h
    · rename_i hne
      exact ⟨fun e => hne (e ▸ h), h⟩
  · rintro ⟨hne, h⟩
    have hother : ¬k.named key = some qid := by
      rw [h]
      exact fun e => hne (Option.some.inj e)
    exact (if_neg hother).trans h

theorem QueueBooks.remove (h : QueueBooks k) (qid : Nat) : QueueBooks (k.remove qid) where
  inOrder := fun q messages hm => h.inOrder q messages (remove_queue_eq_some.mp hm).2
  isPrefix := h.isPrefix
  fits := h.fits
  named := by
    intro key q hn
    obtain ⟨hne, hold⟩ := remove_named_eq_some.mp hn
    obtain ⟨hpriv, hlive, hkey⟩ := h.named key q hold
    obtain ⟨messages, hm⟩ := Option.isSome_iff_exists.mp hlive
    exact ⟨hpriv, by rw [remove_queue_eq_some.mpr ⟨hne, hm⟩]; rfl, hkey⟩
  live := by
    intro q hq hpriv
    obtain ⟨messages, hm⟩ := Option.isSome_iff_exists.mp hq
    obtain ⟨hne, hold⟩ := remove_queue_eq_some.mp hm
    exact remove_named_eq_some.mpr ⟨hne, h.live q (by rw [hold]; rfl) hpriv⟩
  fresh := by
    intro q hn
    obtain ⟨hnone, hhist⟩ := h.fresh q hn
    refine ⟨Option.eq_none_iff_forall_ne_some.mpr fun messages hm => ?_, hhist⟩
    rw [(remove_queue_eq_some.mp hm).2] at hnone
    cases hnone

/-- What the functions of `msgtool.c` ask for: messages go out of and come into buffers of
`MSGSIZE` bytes. -/
def Syscall.InBuffers : Syscall → Prop
  | .msgsnd _ msg _ => msg.text.length ≤ MSGSIZE
  | .msgrcv _ size _ _ => size = MSGSIZE
  | _ => True

theorem body_asks (call : MsgCall) : call.body.Asks Syscall.InBuffers := by
  cases call with
  | clrQue key =>
    refine ⟨trivial, fun qid => ?_⟩
    cases qid with
    | none => trivial
    | some qid => exact ⟨trivial, fun _ => trivial⟩
  | getQinfo key =>
    refine ⟨trivial, fun qid => ?_⟩
    cases qid with
    | none => trivial
    | some qid =>
      refine ⟨trivial, fun info => ?_⟩
      cases info with
      | none => trivial
      | some info => trivial
  | recvQmsg key msgtype flag =>
    refine ⟨trivial, fun qid => ?_⟩
    cases qid with
    | none => trivial
    | some qid =>
      refine ⟨rfl, fun got => ?_⟩
      cases got with
      | none => trivial
      | some m => trivial
  | sendQmsg key msgtype buf len flag =>
    refine ⟨trivial, fun qid => ?_⟩
    cases qid with
    | none => trivial
    | some qid =>
      simp only
      split
      · trivial
      · rename_i hlen
        refine ⟨?_, fun _ => trivial⟩
        simpa [Syscall.InBuffers] using Nat.le_of_not_lt hlen

theorem QueueBooks.msgget (h : QueueBooks k) {key : Int} {create refused : Bool}
    {qid : Option Nat} (hs : k.msgget key create refused = (qid, k')) : QueueBooks k' := by
  rcases msgget_cases k key create refused with heq | ⟨_, -, heq⟩ | ⟨hfree, heq⟩
  · rw [heq] at hs; cases hs; exact h
  · rw [heq] at hs; cases hs; exact h
  · rw [heq] at hs; cases hs; exact h.create hfree

theorem queueBooks_serve (c : Syscall) (refused : Bool) (a : c.Answer) (h : QueueBooks k)
    (hc : c.InBuffers) (hs : serveMsg lim k c refused = some (a, k')) : QueueBooks k' := by
  cases c with
  | msgget key create => exact h.msgget (Option.some.inj hs)
  | msgsnd qid msg flag =>
    rcases msgsnd_cases hs with ⟨-, rfl⟩ | ⟨messages, hq, htype, -, rfl⟩
    · exact h
    · have horder := (h.inOrder qid messages hq).push msg
      have hfits : ∀ m ∈ k.sent qid ++ [msg], 1 ≤ m.msgtype ∧ m.text.length ≤ MSGSIZE := by
        intro m hm
        rcases List.mem_append.mp hm with hold | hnew
        · exact h.fits qid m hold
        · rw [List.mem_singleton.mp hnew]
          exact ⟨htype, hc⟩
      simpa only [Function.update_eq_self] using h.change hq horder hfits
  | msgrcv qid size msgtype flag =>
    have hsize : size = MSGSIZE := hc
    rcases msgrcv_cases hs with ⟨-, rfl⟩ | ⟨messages, m, hq, hm, -, rfl⟩
    · exact h
    · have hsent := (h.inOrder qid messages hq).mem_sent (List.mem_of_find?_eq_some hm)
      have hwhole : m.text.take size = m.text :=
        List.take_of_length_le (hsize ▸ (h.fits qid m hsent).2)
      have horder := (h.inOrder qid messages hq).take (wanted_congr messages msgtype flag) hm
      have hchange := h.change hq horder (h.fits qid)
      simpa only [Function.update_eq_self, hwhole] using hchange
  | rmid qid =>
    have hs' : k.rmid qid refused = (a, k') := Option.some.inj hs
    rcases rmid_cases k qid refused with heq | ⟨-, heq⟩
    · rw [heq] at hs'; cases hs'; exact h
    · rw [heq] at hs'; cases hs'; exact h.remove qid
  | stat qid =>
    obtain ⟨-, rfl⟩ := Prod.mk.inj (Option.some.inj hs)
    exact h

/-! ## Over every run -/

section Runs

variable {π : Type} [DecidableEq π]

/-- Processes that use the queues, none of them in a call. -/
abbrev MsgProcesses (π : Type) := Processes π Msgques Syscall Syscall.Answer MsgReturn

def MsgProcesses.start (π : Type) : MsgProcesses π where
  system := Msgques.start
  program := fun _ => msgRet 0

abbrev msgMove (lim : MsgLimits) :
    MsgProcesses π → ProcessMove π MsgCall Bool → Option (MsgProcesses π) :=
  processMove (serveMsg lim) MsgCall.body

variable {s : MsgProcesses π} {as : List (ProcessMove π MsgCall Bool)}

theorem queueBooks_run (hr : Transition.run (msgMove lim) (MsgProcesses.start π) as = some s) :
    QueueBooks s.system := by
  have hidle (p : π) : ((MsgProcesses.start π).program p).Asks Syscall.InBuffers := trivial
  exact (run_keeps (fun _ c refused a _ h hc hs => queueBooks_serve c refused a h hc hs) body_asks
    queueBooks_start hidle hr).1

def usualLimits : MsgLimits := { msgmax := 8192, msgQbytes := 16384 }

def letters : Nat → UInt8 := fun i => 97 + UInt8.ofNat i

/-- One process sends under key 5 a message of type 2 and one of type 1. Another stands
before the `msgrcv` of the first message of type 1. -/
def sendReceive : List (ProcessMove Bool MsgCall Bool) :=
  [.starts true (.sendQmsg 5 2 letters 3 0), .goes true false, .goes true false,
    .starts true (.sendQmsg 5 1 letters 2 0), .goes true false, .goes true false,
    .starts false (.recvQmsg 5 1 0), .goes false false]

/-- What a receiver waits for, or is told to do without. -/
def NothingWanted (k : Msgques) (q : Nat) (msgtype : Int) (flag : UInt32) : Prop :=
  ∃ messages, k.queue q = some messages ∧ ∀ m ∈ messages, wanted messages msgtype flag m = false

theorem msgrcv_whole (h : QueueBooks k) {q : Nat} {msgtype : Int} {flag : UInt32}
    {got : Option Message} {refused : Bool} (hcopy : flag &&& MSG_COPY = 0)
    (hs : k.msgrcv q MSGSIZE msgtype flag refused = some (got, k')) :
    (got = none ∧ k' = k ∧ (refused = true ∨ k.queue q = none ∨ NothingWanted k q msgtype flag)) ∨
      ∃ messages m, k.queue q = some messages ∧
        messages.find? (wanted messages msgtype flag) = some m ∧ got = some m ∧
        k'.received q = k.received q ++ [m] := by
  unfold Msgques.msgrcv at hs
  split at hs
  · rename_i href
    cases hs
    exact .inl ⟨rfl, rfl, .inl href⟩
  · split at hs
    · rename_i hq
      cases hs
      exact .inl ⟨rfl, rfl, .inr (.inl hq)⟩
    · rename_i messages hq
      rw [if_neg (not_not_intro hcopy)] at hs
      split at hs
      · rename_i hnone
        have hno : NothingWanted k q msgtype flag := by
          refine ⟨messages, hq, fun m hm => ?_⟩
          simpa using List.find?_eq_none.mp hnone m hm
        split at hs
        · cases hs
          exact .inl ⟨rfl, rfl, .inr (.inr hno)⟩
        · cases hs
      · rename_i m hm
        have hsent := (h.inOrder q messages hq).mem_sent (List.mem_of_find?_eq_some hm)
        have hlen := (h.fits q m hsent).2
        -- the message is not too long, so `E2BIG` does not come up, and nothing is cut off
        have hnot : ¬(MSGSIZE < m.text.length ∧ flag &&& MSG_NOERROR = 0) :=
          fun hlong => absurd hlen (Nat.not_le_of_lt hlong.1)
        rw [if_neg hnot, List.take_of_length_le hlen] at hs
        cases hs
        exact .inr ⟨messages, m, hq, hm, rfl, by simp⟩

/-- **One receive.** In every state of every run, `recv_qmsg` at its `msgrcv`, which takes a
message and does not copy it, waits exactly when nothing in the queue is wanted and `IPC_NOWAIT`
is not given. When it returns, it has the first message that is wanted, whole and with its type
and length, or it returns -1 and has taken nothing, because it was refused or the queue has been
deleted or there was nothing for it. It never fails over a message that is too long. -/
theorem recvQmsg_returns (hr : Transition.run (msgMove lim) (MsgProcesses.start π) as = some s)
    {p : π} {q : Nat} {msgtype : Int} {flag : UInt32}
    (hp : s.program p = .ask (.msgrcv q MSGSIZE msgtype flag) recvReturn)
    (hcopy : flag &&& MSG_COPY = 0) (refused : Bool) :
    (msgMove lim s (.goes p refused) = none ↔
      refused = false ∧ flag &&& IPC_NOWAIT = 0 ∧ NothingWanted s.system q msgtype flag) ∧
    ∀ t, msgMove lim s (.goes p refused) = some t →
      (t.program p = msgRet (-1) ∧ t.system = s.system ∧
        (refused = true ∨ s.system.queue q = none ∨ NothingWanted s.system q msgtype flag)) ∨
      ∃ messages m, s.system.queue q = some messages ∧
        messages.find? (wanted messages msgtype flag) = some m ∧
        t.program p = .done { ret := m.text.length, message := some m, info := none } ∧
        t.system.received q = s.system.received q ++ [m] ∧
        m ∈ s.system.sent q ∧ 1 ≤ m.msgtype ∧ m.text.length ≤ MSGSIZE := by
  have h := queueBooks_run hr
  have hmove : msgMove lim s (.goes p refused) =
      (s.system.msgrcv q MSGSIZE msgtype flag refused).map fun r =>
        { system := r.2, program := Function.update s.program p (recvReturn r.1) } := by
    simp only [msgMove, processMove, hp]
    rfl
  constructor
  · rw [hmove, Option.map_eq_none_iff]
    unfold Msgques.msgrcv
    constructor
    · intro hnone
      split at hnone
      · cases hnone
      · rename_i href
        split at hnone
        · cases hnone
        · rename_i messages hq
          rw [if_neg (not_not_intro hcopy)] at hnone
          split at hnone
          · rename_i hfind
            split at hnone
            · cases hnone
            · rename_i hwait
              refine ⟨by simpa using href, by simpa using hwait, messages, hq, fun m hm => ?_⟩
              simpa using List.find?_eq_none.mp hfind m hm
          · split at hnone
            · cases hnone
            · cases hnone
    · rintro ⟨rfl, hwait, messages, hq, hno⟩
      have hfind : messages.find? (wanted messages msgtype flag) = none :=
        List.find?_eq_none.mpr fun m hm => by simp [hno m hm]
      simp [hq, hfind, hwait, hcopy]
  · intro t ht
    rw [hmove, Option.map_eq_some_iff] at ht
    obtain ⟨⟨got, k'⟩, hs, rfl⟩ := ht
    rcases msgrcv_whole h hcopy hs with ⟨rfl, rfl, hwhy⟩ | ⟨messages, m, hq, hm, rfl, hgot⟩
    · exact .inl ⟨by simp [recvReturn], rfl, hwhy⟩
    · have hsent := (h.inOrder q messages hq).mem_sent (List.mem_of_find?_eq_some hm)
      exact .inr ⟨messages, m, hq, hm, by simp [recvReturn], hgot, hsent, h.fits q m hsent⟩

theorem recvQmsg_returns_sendReceive : ∃ s t : MsgProcesses Bool,
    Transition.run (msgMove usualLimits) (MsgProcesses.start Bool) sendReceive = some s ∧
    msgMove usualLimits s (.goes false false) = some t ∧
    t.program false =
      .done { ret := 2, message := some { msgtype := 1, text := [97, 98] }, info := none } := by
  obtain ⟨s, hr⟩ : ∃ s : MsgProcesses Bool, Transition.run (msgMove usualLimits)
      (MsgProcesses.start Bool) sendReceive = some s := ⟨_, rfl⟩
  have hp : s.program false = .ask (.msgrcv 0 MSGSIZE 1 0) recvReturn := by
    cases hr
    rfl
  have hq : s.system.queue 0 =
      some [{ msgtype := 2, text := [97, 98, 99] }, { msgtype := 1, text := [97, 98] }] := by
    cases hr
    rfl
  obtain ⟨hwaits, hreturns⟩ := recvQmsg_returns hr hp (by decide) false
  cases ht : msgMove usualLimits s (.goes false false) with
  | none =>
    obtain ⟨-, -, messages, hm, hno⟩ := hwaits.mp ht
    cases hq.symm.trans hm
    have hwanted := hno { msgtype := 1, text := [97, 98] } (by simp)
    exact absurd hwanted (by decide)
  | some t =>
    refine ⟨s, t, hr, ht, ?_⟩
    rcases hreturns t ht with ⟨-, -, hwhy⟩ | ⟨messages, m, hm, hfind, hdone, -⟩
    · rcases hwhy with h | h | ⟨messages, hm, hno⟩
      · cases h
      · rw [hq] at h
        cases h
      · cases hq.symm.trans hm
        have hwanted := hno { msgtype := 1, text := [97, 98] } (by simp)
        exact absurd hwanted (by decide)
    · cases hq.symm.trans hm
      have hm' : m = { msgtype := 1, text := [97, 98] } := by
        have hsome := Option.some.inj hfind
        exact hsome.symm
      subst hm'
      exact hdone

end Runs

end Netepoll
