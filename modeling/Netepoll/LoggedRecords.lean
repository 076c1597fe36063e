import Netepoll.LatestLog
import Netepoll.Startup

/-! From a log macro to the log file. A macro looks at the level and calls `lprintf` once or
twice; before each call the day can end or the log file be removed. The formats that
`lprintf` has been called with are ghost state. -/

namespace Netepoll

open CString Files Transition

inductive ProgramAction (τ : Type) where
  /-- a macro up to its first `lprintf`, or a call that sets a variable -/
  | level (a : LevelAction)
  /-- the next call of `lprintf` in a macro, which makes `print format` of its arguments -/
  | lprintf (print : List UInt8 → List UInt8) (o : OpenCalls)
  | event (a : LogAction τ)

structure LoggingProgram (τ κ : Type) where
  logger : Logger τ κ
  /-- the formats that a macro is still to call `lprintf` with -/
  calls : List (List UInt8)
  /-- the formats that `lprintf` has been called with -/
  called : List (List UInt8)

variable {τ κ : Type} [DecidableEq κ] (P : Platform τ κ)

/-- A variable that neither the level nor the log file is kept in. -/
def LevelAction.KeepsLog : LevelAction → Prop
  | .setenv name _ => name ≠ nameDebuglvl ∧ name ≠ nameLogfile ∧ name ≠ nameLogfileNow
  | _ => True

/-- The name of the log file is stored whole and differs from the template, and where
`lprintf` opens it again, that succeeds. -/
def CanOpen (t : Text) (s : Logger τ κ) (o : OpenCalls) : Prop :=
  (s.expands P t).length < 511 ∧ s.expands P t ≠ t.chars ∧
    (s.Switches P t → o.Succeed ∧ DirFits (s.expands P t) o)

def ProgramAction.levelAction : ProgramAction τ → Option LevelAction
  | .level a => some a
  | _ => none

/-! ## One step -/

theorem LevelAction.KeepsLog.allowed {a : LevelAction} (h : a.KeepsLog) : a.Allowed := by
  cases a with
  | setenv name value => exact h.1
  | _ => trivial

omit [DecidableEq κ] in
theorem CanOpen.allowed {t : Text} {s : Logger τ κ} {o : OpenCalls} (h : CanOpen P t s o)
    (record : List UInt8) : Allowed P t s (.lprintf record o) :=
  ⟨h.1, h.2.1, fun hs => (h.2.2 hs).1⟩

omit [DecidableEq κ] in
theorem CanOpen.fits {t : Text} (ht : t.chars.length ≤ 511) {s : Logger τ κ} {o : OpenCalls}
    (h : CanOpen P t s o) (record : List UInt8) : Fits P t s (.lprintf record o) :=
  ⟨ht, fun hs => (h.2.2 hs).2⟩

def ProgramAction.logs (level : Int) (a : ProgramAction τ) : List (List UInt8) :=
  a.levelAction.elim [] (LevelAction.logs level)

/-- The program after its start, with nothing logged. -/
def LoggingProgram.start (logger : Logger τ κ) : LoggingProgram τ κ :=
  { logger := logger, calls := [], called := [] }

end Netepoll
