import Mathlib.Data.Nat.Bitwise
import Netepoll.Lib.Program

/-! `setSockNonBlock` and `setSockBlock` (tcptool.c) read the status flags of a descriptor and
write them back in a second system call, so calls of several threads mix. The flags are those
of the open file, which descriptors can share. -/

namespace Netepoll

open Requests

/-- Bit 11 on Linux. -/
def O_NONBLOCK : Nat := 2 ^ 11

/-- The flags that `F_SETFL` can change: `O_APPEND`, `O_NONBLOCK`, `O_ASYNC`, `O_DIRECT` and
`O_NOATIME`. It ignores the others. -/
def setflMask : Nat := 2 ^ 10 ||| O_NONBLOCK ||| 2 ^ 13 ||| 2 ^ 14 ||| 2 ^ 18

/-- The open file of each descriptor, and the flags of each open file. -/
structure StatusFlags where
  file : Int → Option Nat
  flags : Nat → Nat

inductive FcntlCall where
  | getfl (fd : Int)
  | setfl (fd : Int) (flags : Nat)

def FcntlCall.fd : FcntlCall → Int
  | .getfl fd => fd
  | .setfl fd _ => fd

abbrev FcntlProgram := Program FcntlCall (fun _ => Int) Int

def StatusFlags.setfl (s : StatusFlags) (f v : Nat) : StatusFlags :=
  { s with flags :=
      Function.update s.flags f ((s.flags f).ldiff setflMask ||| (v &&& setflMask)) }

/-- `fcntl` returns -1 on no open file, or where the kernel refuses. -/
def serveFcntl (s : StatusFlags) (c : FcntlCall) (refused : Bool) : Option (Int × StatusFlags) :=
  match s.file c.fd, refused, c with
  | some f, false, .getfl _ => some (s.flags f, s)
  | some f, false, .setfl _ v => some (0, s.setfl f v)
  | _, _, _ => some (-1, s)

/-- The two functions, for what they do to the flags. -/
def changeFlags (change : Nat → Nat) (fd : Int) : FcntlProgram :=
  .ask (.getfl fd) fun flags =>
    if flags < 0 then .done flags
    else .ask (.setfl fd (change flags.toNat)) fun ret =>
      if ret < 0 then .done (-1) else .done 0

def setSockNonBlock : Int → FcntlProgram := changeFlags fun flags => flags ||| O_NONBLOCK

def setSockBlock : Int → FcntlProgram := changeFlags fun flags => flags.ldiff O_NONBLOCK

/-- A call of `setSockNonBlock` or, with `nonBlock` false, of `setSockBlock`. -/
structure FlagsCall where
  fd : Int
  nonBlock : Bool
  deriving DecidableEq

def FlagsCall.body (c : FlagsCall) : FcntlProgram :=
  if c.nonBlock then setSockNonBlock c.fd else setSockBlock c.fd

/-! ## What a call asks for -/

/-- The same flags, but for `O_NONBLOCK`. -/
def SameFlags (v w : Nat) : Prop := ∀ i, i ≠ 11 → v.testBit i = w.testBit i

/-- The bit that the call wants. -/
def FlagsCall.change (c : FlagsCall) (v : Nat) : Nat :=
  if c.nonBlock then v ||| O_NONBLOCK else v.ldiff O_NONBLOCK

theorem FlagsCall.body_eq (c : FlagsCall) : c.body = changeFlags c.change c.fd := by
  unfold FlagsCall.body
  cases hc : c.nonBlock with
  | true =>
    have hchange : c.change = fun v => v ||| O_NONBLOCK := by
      funext v
      simp [FlagsCall.change, hc]
    rw [if_pos rfl, hchange]
    rfl
  | false =>
    have hchange : c.change = fun v => v.ldiff O_NONBLOCK := by
      funext v
      simp [FlagsCall.change, hc]
    rw [hchange]
    rfl

theorem FlagsCall.testBit_change (c : FlagsCall) (v i : Nat) :
    (c.change v).testBit i = if i = 11 then c.nonBlock else v.testBit i := by
  have hbit : O_NONBLOCK.testBit i = decide (i = 11) := by
    rw [O_NONBLOCK, Nat.testBit_two_pow]
    simp [eq_comm]
  unfold FlagsCall.change
  cases hc : c.nonBlock with
  | true =>
    rw [if_pos rfl, Nat.testBit_or, hbit]
    split <;> simp [*]
  | false =>
    rw [if_neg (by simp), Nat.testBit_ldiff, hbit]
    split <;> simp [*]

theorem testBit_setfl (s : StatusFlags) (f v i : Nat) :
    ((s.setfl f v).flags f).testBit i =
      if setflMask.testBit i then v.testBit i else (s.flags f).testBit i := by
  have hflags : (s.setfl f v).flags f = (s.flags f).ldiff setflMask ||| (v &&& setflMask) :=
    Function.update_self _ _ _
  rw [hflags, Nat.testBit_or, Nat.testBit_ldiff, Nat.testBit_and]
  cases setflMask.testBit i <;> simp

theorem setfl_flags_of_ne {s : StatusFlags} {f g : Nat} (h : g ≠ f) (v : Nat) :
    (s.setfl f v).flags g = s.flags g := Function.update_of_ne h _ _

/-- What `fcntl` does. -/
theorem serveFcntl_cases {s s' : StatusFlags} {c : FcntlCall} {refused : Bool} {a : Int}
    (h : serveFcntl s c refused = some (a, s')) :
    (a = -1 ∧ s' = s) ∨ ∃ f, s.file c.fd = some f ∧
      ((∃ fd, c = .getfl fd ∧ a = s.flags f ∧ s' = s) ∨
        ∃ fd v, c = .setfl fd v ∧ a = 0 ∧ s' = s.setfl f v) := by
  unfold serveFcntl at h
  split at h
  · next f fd hf =>
    cases h
    exact .inr ⟨f, hf, .inl ⟨fd, rfl, rfl, rfl⟩⟩
  · next f fd v hf =>
    cases h
    exact .inr ⟨f, hf, .inr ⟨fd, v, rfl, rfl, rfl⟩⟩
  · cases h
    exact .inl ⟨rfl, rfl⟩

/-- The call behind its `F_GETFL`. -/
def FlagsCall.second (c : FlagsCall) (v : Nat) : FcntlProgram :=
  .ask (.setfl c.fd (c.change v)) fun ret => if ret < 0 then .done (-1) else .done 0

theorem FlagsCall.leaves_cases {c : FlagsCall} {x : FcntlProgram} (h : c.body.Leaves x) :
    x = c.body ∨ (∃ v, x = c.second v) ∨ ∃ r, x = .done r := by
  induction h with
  | all => exact .inl rfl
  | next _ a ih =>
    rcases ih with heq | ⟨v, heq⟩ | ⟨r, heq⟩
    · rw [c.body_eq] at heq
      cases heq
      refine .inr ?_
      dsimp only
      split
      · exact .inr ⟨a, rfl⟩
      · exact .inl ⟨_, rfl⟩
    · cases heq
      refine .inr (.inr ?_)
      dsimp only
      split
      · exact ⟨-1, rfl⟩
      · exact ⟨0, rfl⟩
    · cases heq

theorem FlagsCall.leaves_setfl {c : FlagsCall} {fd : Int} {v : Nat} {next : Int → FcntlProgram}
    (h : c.body.Leaves (.ask (.setfl fd v) next)) : fd = c.fd ∧ v.testBit 11 = c.nonBlock := by
  rcases c.leaves_cases h with heq | ⟨w, heq⟩ | ⟨r, heq⟩
  · rw [c.body_eq] at heq
    cases heq
  · cases heq
    exact ⟨rfl, by rw [c.testBit_change, if_pos rfl]⟩
  · cases heq

/-! ## The other flags -/

/-- What a call asks for keeps the flags of `k`, if what it was told does. -/
def FcntlCall.Keeps (k : StatusFlags) : FcntlCall → Prop
  | .getfl _ => True
  | .setfl fd v => ∀ f, k.file fd = some f → SameFlags v (k.flags f)

def FcntlCall.Tells (k : StatusFlags) : FcntlCall → Int → Prop
  | .getfl fd, a => ∀ f, k.file fd = some f → 0 ≤ a → SameFlags a.toNat (k.flags f)
  | .setfl _ _, _ => True

structure KeptFlags (k s : StatusFlags) : Prop where
  file : s.file = k.file
  flags : ∀ f, SameFlags (s.flags f) (k.flags f)

theorem FlagsCall.body_keeps (k : StatusFlags) (c : FlagsCall) :
    c.body.AsksGiven (FcntlCall.Keeps k) (FcntlCall.Tells k) := by
  rw [c.body_eq]
  refine ⟨trivial, fun flags htold => ?_⟩
  dsimp only
  split
  · trivial
  · next hflags =>
    refine ⟨fun f hf i hi => ?_, fun ret _ => ?_⟩
    · rw [c.testBit_change, if_neg hi]
      exact htold f hf (Int.not_lt.mp hflags) i hi
    · dsimp only
      split <;> trivial

theorem keptFlags_serve {k s s' : StatusFlags} {c : FcntlCall} {refused : Bool} {a : Int}
    (h : KeptFlags k s) (hc : c.Keeps k) (hs : serveFcntl s c refused = some (a, s')) :
    KeptFlags k s' ∧ c.Tells k a := by
  rcases serveFcntl_cases hs with ⟨rfl, rfl⟩ | ⟨f, hf, ⟨fd, rfl, rfl, rfl⟩ | ⟨fd, v, rfl, rfl, rfl⟩⟩
  · refine ⟨h, ?_⟩
    cases c with
    | getfl fd => exact fun f _ hneg => absurd hneg (by decide)
    | setfl fd v => trivial
  · refine ⟨h, fun g hg _ => ?_⟩
    have hfile : k.file fd = some f := h.file ▸ hf
    cases hfile.symm.trans hg
    exact h.flags f
  · refine ⟨⟨h.file, fun g i hi => ?_⟩, trivial⟩
    by_cases hg : g = f
    · subst hg
      have hfile : k.file fd = some g := h.file ▸ hf
      rw [testBit_setfl]
      split
      · exact hc g hfile i hi
      · exact h.flags g i hi
    · rw [setfl_flags_of_ne hg]
      exact h.flags g i hi

/-! ## Every run -/

section Runs

variable {π : Type} [DecidableEq π]

/-- Threads that set flags, none of them in a call. -/
abbrev FlagsThreads (π : Type) := Processes π StatusFlags FcntlCall (fun _ => Int) Int

def FlagsThreads.idle (π : Type) (k : StatusFlags) : FlagsThreads π where
  system := k
  program := fun _ => .done 0

abbrev flagsMove : FlagsThreads π → ProcessMove π FlagsCall Bool → Option (FlagsThreads π) :=
  processMove serveFcntl FlagsCall.body

variable {k : StatusFlags} {s t : FlagsThreads π} {as bs : List (ProcessMove π FlagsCall Bool)}

theorem keptFlags_run (hr : Transition.run flagsMove (.idle π k) as = some s) :
    KeptFlags k s.system := by
  have hserve (s : StatusFlags) (c : FcntlCall) (refused : Bool) (a : Int) (s' : StatusFlags)
      (h : KeptFlags k s) (hc : c.Keeps k) (hs : serveFcntl s c refused = some (a, s')) :
      KeptFlags k s' ∧ c.Tells k a := keptFlags_serve h hc hs
  have hstart : KeptFlags k (FlagsThreads.idle π k).system := ⟨rfl, fun _ _ _ => rfl⟩
  exact (run_guarantees hserve (FlagsCall.body_keeps k) hstart (fun _ => trivial) hr).1

/-- A thread that is about to write is in a call that it has started. -/
theorem setfl_of_call (hr : Transition.run flagsMove (.idle π k) as = some s) {p : π} {fd : Int}
    {v : Nat} {next : Int → FcntlProgram} (hp : s.program p = .ask (.setfl fd v) next) :
    ∃ call, .starts p call ∈ as ∧ fd = call.fd ∧ v.testBit 11 = call.nonBlock := by
  rcases run_leaves hr p with ⟨call, hlast, hleaves⟩ | ⟨-, hleaves⟩
  · rw [hp] at hleaves
    exact ⟨call, starts_mem_of_lastStarted hlast, FlagsCall.leaves_setfl hleaves⟩
  · rw [hp] at hleaves
    cases hleaves.of_done

/-- While all calls about an open file want the same, it stays so once it is. -/
theorem nonBlock_stays {f : Nat} {on : Bool}
    (hcalls : ∀ p call, .starts p call ∈ as ++ bs → k.file call.fd = some f → call.nonBlock = on)
    (hs : Transition.run flagsMove (.idle π k) as = some s)
    (ht : Transition.run flagsMove s bs = some t)
    (hbit : (s.system.flags f).testBit 11 = on) : (t.system.flags f).testBit 11 = on := by
  induction bs generalizing s as with
  | nil =>
    cases ht
    exact hbit
  | cons b bs ih =>
    obtain ⟨u, hu, ht⟩ := Transition.run_cons_eq_some.mp ht
    have hsu : Transition.run flagsMove (.idle π k) (as ++ [b]) = some u :=
      Transition.run_append_eq_some.mpr ⟨s, hs, Transition.run_cons_eq_some.mpr ⟨u, hu, rfl⟩⟩
    have hrest : ∀ p call, .starts p call ∈ as ++ [b] ++ bs → k.file call.fd = some f →
        call.nonBlock = on := by simpa using hcalls
    refine ih hrest hsu ht ?_
    cases processMove_cases hu with
    | started p call r hp => exact hbit
    | served p c req next a system hp hserve =>
      rcases serveFcntl_cases hserve with ⟨-, rfl⟩ | ⟨g, hg, hdone⟩
      · exact hbit
      rcases hdone with ⟨fd, rfl, -, rfl⟩ | ⟨fd, v, rfl, -, rfl⟩
      · exact hbit
      · by_cases hfg : f = g
        · subst hfg
          obtain ⟨call, hmem, hfd, hv⟩ := setfl_of_call hs hp
          have hfile : k.file call.fd = some f := by
            rw [← hfd, ← (keptFlags_run hs).file]
            exact hg
          have hon := hcalls p call (List.mem_append_left _ hmem) hfile
          have hmask : setflMask.testBit 11 = true := by decide
          rw [testBit_setfl, if_pos hmask, hv, hon]
        · rw [setfl_flags_of_ne hfg]
          exact hbit

/-- The call that a thread has started last leaves its file as it wants it if it returns 0. -/
theorem returned_zero (hs : Transition.run flagsMove (.idle π k) as = some s) {p : π}
    {refused : Bool} (ht : flagsMove s (.goes p refused) = some t) (hret : t.program p = .done 0) :
    ∃ call f, lastStarted p as = some call ∧ k.file call.fd = some f ∧
      (t.system.flags f).testBit 11 = call.nonBlock := by
  cases processMove_cases ht with
  | served p refused req next a system hp hserve =>
    have hzero : next a = .done 0 := by
      have hself : Function.update s.program p (next a) p = next a := Function.update_self _ _ _
      exact hself.symm.trans hret
    rcases run_leaves hs p with ⟨call, hlast, hleaves⟩ | ⟨-, hleaves⟩
    · rw [hp] at hleaves
      rcases call.leaves_cases hleaves with heq | ⟨v, heq⟩ | ⟨r, heq⟩
      · -- a call that ends at `F_GETFL` has failed there
        rw [call.body_eq] at heq
        cases heq
        dsimp only at hzero
        split at hzero
        · next hneg =>
          cases hzero
          exact absurd hneg (by decide)
        · cases hzero
      · cases heq
        rcases serveFcntl_cases hserve with ⟨rfl, -⟩ | ⟨f, hf, ⟨fd, heq, -⟩ | ⟨fd, w, heq, -, rfl⟩⟩
        · cases hzero
        · cases heq
        · cases heq
          have hmask : setflMask.testBit 11 = true := by decide
          refine ⟨call, f, hlast, ?_, ?_⟩
          · rw [← (keptFlags_run hs).file]
            exact hf
          · rw [testBit_setfl, if_pos hmask, call.testBit_change, if_pos rfl]
      · cases heq
    · rw [hp] at hleaves
      cases hleaves.of_done

/-- **Flags under interleaving.** However many threads call `setSockNonBlock` and `setSockBlock`,
and however their system calls mix and fail: no flag but `O_NONBLOCK` ever changes; a call that
returns 0 leaves the file of its descriptor as it should be; and as long as all calls about an
open file want the same, it stays that way from then on. -/
theorem flags_run (hs : Transition.run flagsMove (.idle π k) as = some s) :
    (∀ f, SameFlags (s.system.flags f) (k.flags f)) ∧
    (∀ p refused t, flagsMove s (.goes p refused) = some t → t.program p = .done 0 →
      ∃ call f, lastStarted p as = some call ∧ k.file call.fd = some f ∧
        (t.system.flags f).testBit 11 = call.nonBlock) ∧
    ∀ f on bs t, (∀ p call, .starts p call ∈ as ++ bs → k.file call.fd = some f →
        call.nonBlock = on) → Transition.run flagsMove s bs = some t →
      (s.system.flags f).testBit 11 = on → (t.system.flags f).testBit 11 = on :=
  ⟨(keptFlags_run hs).flags, fun _ _ _ ht hret => returned_zero hs ht hret,
    fun _ _ _ _ hcalls ht hbit => nonBlock_stays hcalls hs ht hbit⟩

end Runs

/-- Two descriptors of one open file with `O_APPEND`. -/
def twoFiles : StatusFlags where
  file := fun fd => if fd = 3 ∨ fd = 4 then some 0 else none
  flags := fun _ => 2 ^ 10

/-- Both threads have read the flags before one writes them. -/
def mixedCalls : List (ProcessMove Bool FlagsCall Bool) :=
  [.starts true { fd := 3, nonBlock := true }, .starts false { fd := 4, nonBlock := true },
    .goes true false, .goes false false]

theorem flags_run_mixed : ∃ s t u : FlagsThreads Bool,
    Transition.run flagsMove (.idle Bool twoFiles) mixedCalls = some s ∧
      flagsMove s (.goes true false) = some t ∧ SameFlags (s.system.flags 0) (2 ^ 10) ∧
      (t.system.flags 0).testBit 11 = true ∧
      Transition.run flagsMove t [.goes false false] = some u ∧
      (u.system.flags 0).testBit 11 = true := by
  obtain ⟨s, hs⟩ : ∃ s : FlagsThreads Bool,
      Transition.run flagsMove (.idle Bool twoFiles) mixedCalls = some s := ⟨_, rfl⟩
  obtain ⟨t, ht⟩ : ∃ t : FlagsThreads Bool, flagsMove s (.goes true false) = some t := by
    cases hs
    exact ⟨_, rfl⟩
  obtain ⟨u, hu⟩ : ∃ u : FlagsThreads Bool,
      Transition.run flagsMove t [.goes false false] = some u := by
    cases hs
    cases ht
    exact ⟨_, rfl⟩
  have hret : t.program true = .done 0 := by
    cases hs
    cases ht
    rfl
  have hrun : Transition.run flagsMove (.idle Bool twoFiles)
      (mixedCalls ++ [.goes true false]) = some t :=
    Transition.run_append_eq_some.mpr ⟨s, hs, Transition.run_cons_eq_some.mpr ⟨t, ht, rfl⟩⟩
  have hon : (t.system.flags 0).testBit 11 = true := by
    obtain ⟨call, f, hlast, hf, hbit⟩ := (flags_run hs).2.1 true false t ht hret
    cases hlast
    cases hf
    exact hbit
  have hcalls (p : Bool) (call : FlagsCall)
      (h : .starts p call ∈ mixedCalls ++ [.goes true false] ++ [.goes false false])
      (_ : twoFiles.file call.fd = some 0) : call.nonBlock = true := by
    simp only [mixedCalls, List.cons_append, List.nil_append, List.mem_cons,
      ProcessMove.starts.injEq, reduceCtorEq, List.not_mem_nil, or_false] at h
    rcases h with ⟨-, rfl⟩ | ⟨-, rfl⟩ <;> rfl
  exact ⟨s, t, u, hs, ht, (flags_run hs).1 0, hon, hu,
    (flags_run hrun).2.2 0 true _ u hcalls hu hon⟩

end Netepoll
