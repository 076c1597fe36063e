import Netepoll.Lib.Decimal
import Netepoll.Lib.Transition
import Netepoll.OpenLogFile

/-! `setDebugLevel` and `getDebugLevel` (procDebugLevel.c), which keep the level in the
environment as a decimal number, and the macros `E_LOG`, `W_LOG` and `D_LOG` (libbase.h). -/

namespace Netepoll

open CString Decimal

/-- `__DEBUGLVL` -/
def nameDebuglvl : List UInt8 := [95, 95, 68, 69, 66, 85, 71, 76, 86, 76]

def setDebugLevel (env : Environ) (level : Int32) : Option (Int × Environ) := do
  -- `sprintf(tmp_str, "%d", Level)`
  let tmpStr ← strcpy (zeros 80) (printInt level.toInt ++ [0])
  let value ← toText tmpStr
  some (0, setenv env nameDebuglvl value)

def getDebugLevel (env : Environ) : Option Int :=
  match env nameDebuglvl with
  | none => some 0
  | some value => do
    let tmpStr ← strcpy (zeros 80) value.block
    let s ← load tmpStr
    some (atoi s)

/-! ## The macros -/

def ERROR_LVL : Int := 1
def WARN_LVL : Int := 2
def DEBUG_LVL : Int := 3

/-- `"[%s-%d]: "` -/
def lineFmt : List UInt8 := [91, 37, 115, 45, 37, 100, 93, 58, 32]

/-- `"HEX_FORMAT"` -/
def hexFormat : List UInt8 := [72, 69, 88, 95, 70, 79, 82, 77, 65, 84]

/-- The format of a record. The macros read the ten bytes of `HEX_FORMAT` from it. -/
structure LogFormat where
  text : Text
  readable : hexFormat.length ≤ text.block.length

/-- One of the macros: the formats that it calls `lprintf` with. -/
def logMacro (lvl : Int) (tag : List UInt8) (env : Environ) (format : LogFormat) :
    Option (List (List UInt8)) := do
  let level ← getDebugLevel env
  if level ≥ lvl then
    if ← memcmpEq format.text.block hexFormat then some [tag ++ lineFmt, format.text.chars]
    else some [tag ++ lineFmt ++ format.text.chars]
  else some []

/-- `"[ERROR]"`, `"[WARN]"`, `"[DEBUG]"` -/
def errorTag : List UInt8 := [91, 69, 82, 82, 79, 82, 93]
def warnTag : List UInt8 := [91, 87, 65, 82, 78, 93]
def debugTag : List UInt8 := [91, 68, 69, 66, 85, 71, 93]

def eLog : Environ → LogFormat → Option (List (List UInt8)) := logMacro ERROR_LVL errorTag
def wLog : Environ → LogFormat → Option (List (List UInt8)) := logMacro WARN_LVL warnTag
def dLog : Environ → LogFormat → Option (List (List UInt8)) := logMacro DEBUG_LVL debugTag

inductive LevelAction where
  | setDebugLevel (level : Int32)
  /-- `setenv` and `unsetenv`, which `openLogFile` calls for other names -/
  | setenv (name : List UInt8) (value : Option Text)
  | eLog (format : LogFormat)
  | wLog (format : LogFormat)
  | dLog (format : LogFormat)

/-- The environment, and the formats that `lprintf` has been called with. -/
structure LevelLog where
  env : Environ
  formats : List (List UInt8)

def LevelLog.print (s : LevelLog) (formats : List (List UInt8)) : LevelLog :=
  { s with formats := s.formats ++ formats }

def levelStep (s : LevelLog) : LevelAction → Option LevelLog
  | .setDebugLevel level =>
    (Netepoll.setDebugLevel s.env level).map fun r => { s with env := r.2 }
  | .setenv name value => some { s with env := Function.update s.env name value }
  | .eLog format => (Netepoll.eLog s.env format).map s.print
  | .wLog format => (Netepoll.wLog s.env format).map s.print
  | .dLog format => (Netepoll.dLog s.env format).map s.print

/-! ## What the level is -/

/-- The value of `__DEBUGLVL` for a level. -/
def levelText (level : Int32) : Text :=
  ⟨printInt level.toInt, fun h0 => printInt_ne_zero _ 0 h0 rfl⟩

theorem levelText_length (level : Int32) : (levelText level).chars.length ≤ 11 :=
  printInt_length_le (Int32.le_toInt level) (Int.le_of_lt_add_one (Int32.toInt_lt level))

theorem setDebugLevel_eq (env : Environ) (level : Int32) :
    setDebugLevel env level = some (0, setenv env nameDebuglvl (levelText level)) := by
  have hlen := levelText_length level
  have hcopy := (levelText level).holds.strcpy_zeros (n := 80) (by omega)
  have hvalue := (holds_zeros (levelText level).noNul
    (n := 80 - (levelText level).chars.length) (by omega)).toText
  rw [setDebugLevel]
  rw [Text.block, levelText] at hcopy
  rw [levelText] at hvalue
  simp [hcopy, hvalue, levelText]

theorem getDebugLevel_of_level {env : Environ} {level : Int32}
    (h : env nameDebuglvl = some (levelText level)) : getDebugLevel env = some level.toInt := by
  have hlen := levelText_length level
  have hcopy := (levelText level).holds.strcpy_zeros (n := 80) (by omega)
  have hload := (holds_zeros (levelText level).noNul
    (n := 80 - (levelText level).chars.length) (by omega)).load
  have hatoi : atoi (levelText level).chars = level.toInt := by
    have hread := atoi_printInt (Int32.le_toInt level)
      (Int.le_of_lt_add_one (Int32.toInt_lt level)) (Words.ends_nil Decimal.isDigit)
    rwa [List.append_nil] at hread
  simp [getDebugLevel, h, hcopy, hload, hatoi]

theorem getDebugLevel_setenv (env : Environ) (level : Int32) :
    getDebugLevel (setenv env nameDebuglvl (levelText level)) = some level.toInt :=
  getDebugLevel_of_level (Function.update_self ..)

theorem getDebugLevel_update {env : Environ} {name : List UInt8} {value : Option Text}
    (hname : name ≠ nameDebuglvl) :
    getDebugLevel (Function.update env name value) = getDebugLevel env := by
  rw [getDebugLevel, Function.update_of_ne hname.symm, getDebugLevel]

/-! ## What is logged -/

/-- The formats of a record that is let through; a dump has its tag in a call of its own. -/
def recordFormats (tag : List UInt8) (format : LogFormat) : List (List UInt8) :=
  if format.text.block.take hexFormat.length = hexFormat then
    [tag ++ lineFmt, format.text.chars]
  else [tag ++ lineFmt ++ format.text.chars]

theorem logMacro_eq {env : Environ} {level : Int} (h : getDebugLevel env = some level) (lvl : Int)
    (tag : List UInt8) (format : LogFormat) :
    logMacro lvl tag env format = some (if lvl ≤ level then recordFormats tag format else []) := by
  unfold logMacro recordFormats
  by_cases hlvl : lvl ≤ level
  · by_cases hhex : format.text.block.take hexFormat.length = hexFormat
    · simp [h, hlvl, memcmpEq, format.readable, hhex]
    · simp [h, hlvl, memcmpEq, format.readable, hhex]
  · simp [h, hlvl]

/-- The level after an action. -/
def LevelAction.level (level : Int) : LevelAction → Int
  | .setDebugLevel new => new.toInt
  | _ => level

/-- What an action should log at a level. -/
def LevelAction.logs (level : Int) : LevelAction → List (List UInt8)
  | .eLog format => if 1 ≤ level then recordFormats errorTag format else []
  | .wLog format => if 2 ≤ level then recordFormats warnTag format else []
  | .dLog format => if 3 ≤ level then recordFormats debugTag format else []
  | _ => []

/-- What a run should log: each record at the level that was set last. -/
def logsAt (level : Int) : List LevelAction → List (List UInt8)
  | [] => []
  | a :: as => a.logs level ++ logsAt (a.level level) as

def LevelAction.Allowed : LevelAction → Prop
  | .setenv name _ => name ≠ nameDebuglvl
  | _ => True

theorem levelStep_eq {s : LevelLog} {level : Int} (h : getDebugLevel s.env = some level)
    {a : LevelAction} (ha : a.Allowed) :
    ∃ t, levelStep s a = some t ∧ getDebugLevel t.env = some (a.level level) ∧
      t.formats = s.formats ++ a.logs level := by
  cases a with
  | setDebugLevel new =>
    refine ⟨{ s with env := Netepoll.setenv s.env nameDebuglvl (levelText new) }, ?_, ?_, ?_⟩
    · simp [levelStep, setDebugLevel_eq]
    · exact getDebugLevel_setenv s.env new
    · simp [LevelAction.logs]
  | setenv name value =>
    exact ⟨_, rfl, (getDebugLevel_update ha).trans h, by simp [LevelAction.logs]⟩
  | eLog format =>
    have hlog := logMacro_eq h ERROR_LVL errorTag format
    exact ⟨s.print _, congrArg (Option.map s.print) hlog, h, rfl⟩
  | wLog format =>
    have hlog := logMacro_eq h WARN_LVL warnTag format
    exact ⟨s.print _, congrArg (Option.map s.print) hlog, h, rfl⟩
  | dLog format =>
    have hlog := logMacro_eq h DEBUG_LVL debugTag format
    exact ⟨s.print _, congrArg (Option.map s.print) hlog, h, rfl⟩

/-- **Log levels.** However `setDebugLevel` calls, changes of other variables and records
follow each other, each record is logged exactly when its level is not above the one that was
set last, and the level that `getDebugLevel` gives in the end is that one. -/
theorem logged_at_level {env : Environ} {level : Int} (h : getDebugLevel env = some level)
    {as : List LevelAction} (has : ∀ a ∈ as, a.Allowed) (formats : List (List UInt8)) :
    ∃ s, Transition.run levelStep { env := env, formats := formats } as = some s ∧
      s.formats = formats ++ logsAt level as ∧
      getDebugLevel s.env = some (as.foldl LevelAction.level level) := by
  induction as generalizing env level formats with
  | nil => exact ⟨_, rfl, by simp [logsAt], h⟩
  | cons a as ih =>
    have hs : getDebugLevel (LevelLog.mk env formats).env = some level := h
    obtain ⟨t, ht, hlevel, hformats⟩ := levelStep_eq hs (has a List.mem_cons_self)
    obtain ⟨u, hu, hlogs, hend⟩ :=
      ih hlevel (fun b hb => has b (List.mem_cons_of_mem a hb)) t.formats
    refine ⟨u, Transition.run_cons_eq_some.mpr ⟨t, ht, hu⟩, ?_, hend⟩
    rw [hlogs, hformats, List.append_assoc]
    rfl

/-- `"send[fd=%d]"` -/
def sendFormat : LogFormat where
  text := ⟨[115, 101, 110, 100, 91, 102, 100, 61, 37, 100, 93], by decide⟩
  readable := by decide

/-- A debug record before and after the level goes from 3 down to -1. -/
theorem logged_at_level_lowered : ∃ s,
    Transition.run levelStep { env := fun _ => none, formats := [] }
      [.setDebugLevel 3, .dLog sendFormat, .setDebugLevel (-1), .dLog sendFormat] = some s ∧
    s.formats = [debugTag ++ lineFmt ++ sendFormat.text.chars] ∧
    getDebugLevel s.env = some (-1) := by
  have hallowed : ∀ a ∈ [LevelAction.setDebugLevel 3, .dLog sendFormat, .setDebugLevel (-1),
      .dLog sendFormat], a.Allowed := by
    simp [LevelAction.Allowed]
  have hnone : getDebugLevel (fun _ => none) = some 0 := rfl
  exact logged_at_level hnone hallowed []

end Netepoll
