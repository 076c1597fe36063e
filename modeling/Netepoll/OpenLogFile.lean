import Netepoll.Expansion
import Netepoll.Slot
import Netepoll.Lib.Files

/-! `expLogFile`, `openLogFile` and the part of `lprintf` that chooses the log file
(openLogFile.c). A store outside one of the 512-byte arrays has no result. `setenv` always
has room, and `mkdir -p` makes nothing but directories. -/

namespace Netepoll

open CString Files

/-! ## What the code is run on -/

/-- `strftime` on the local time `τ`, and the directory entry of each path. Where the text
and its terminator have no room, an unspecified part of the array is overwritten. -/
structure Platform (τ κ : Type) where
  strftime : τ → List UInt8 → List UInt8
  leftover : τ → List UInt8 → Nat → List UInt8
  resolve : List UInt8 → κ
  noNul : ∀ now format, 0 ∉ format → 0 ∉ strftime now format
  plain : ∀ now format, 37 ∉ format → strftime now format = format
  leftover_le : ∀ now format max, (leftover now format max).length ≤ max

/-- What an open descriptor denotes. -/
inductive OpenFile where
  | other
  | file (ino : Nat)
  deriving DecidableEq

/-- The environment and the local time, the descriptors, and the files. -/
structure Logger (τ κ : Type) where
  env : Environ
  now : τ
  fds : Table OpenFile
  disk : Disk κ UInt8

inductive StatResult where
  | dir
  | notDir
  /-- ENOENT -/
  | noEntry
  | error
  deriving DecidableEq

/-- The results of the calls of one `openLogFile`. -/
structure OpenCalls where
  stat : StatResult
  popen : Bool
  fopen : Bool
  dup2 : Bool
  deriving DecidableEq

/-- `__LOGFILE` -/
def nameLogfile : List UInt8 := [95, 95, 76, 79, 71, 70, 73, 76, 69]

/-- `__LOGFILE_NOW` -/
def nameLogfileNow : List UInt8 := nameLogfile ++ [95, 78, 79, 87]

/-- `__LOGERR` -/
def nameLogerr : List UInt8 := [95, 95, 76, 79, 71, 69, 82, 82]

def setenv (env : Environ) (name : List UInt8) (value : Text) : Environ :=
  Function.update env name (some value)

def unsetenv (env : Environ) (name : List UInt8) : Environ :=
  Function.update env name none

/-- `/`, or `//` where there are exactly two slashes. -/
def rootDir (slashes : List UInt8) : List UInt8 :=
  if slashes.length = 2 then [47, 47] else [47]

/-- The path without its last component. -/
def dirname (path : List UInt8) : List UInt8 :=
  -- from the back: the component behind trailing slashes, then the slashes before it
  let path' := path.reverse.dropWhile (fun c => c == 47)
  let dir := path'.dropWhile (fun c => c != 47)
  let dir' := dir.dropWhile (fun c => c == 47)
  if path = [] then [46]
  else if path' = [] then rootDir path
  else if dir = [] then [46]
  else if dir' = [] then rootDir dir
  else dir'.reverse

/-! ## openLogFile.c and tool.c -/

variable {τ κ : Type}

section Names

variable (P : Platform τ κ)

/-- The return value and `Date`. -/
def getDateStr (now : τ) (date : Block) (format : Option Block) (len : Int) :
    Option (Int × Block) :=
  match format with
  | none => some (-1, date)
  | some format => do
    let f ← load format
    let s := P.strftime now f
    let bytes := if s.length < toSize len then s ++ [0] else P.leftover now f (toSize len)
    let date ← memcpy date 0 bytes bytes.length
    some (0, date)

/-- The return value and `DstLog`. -/
def expLogFile (now : τ) (env : Environ) (srcLog dstLog : Block) (nameLen : Int) :
    Option (Int × Block) := do
  let percent ← index 37 srcLog
  let dollar ← index 36 srcLog
  if percent.isSome || dollar.isSome then
    let (_, e) ← expandEnvStr env srcLog (zeros 512) 511
    let (_, dstLog) ← getDateStr P now dstLog (some e.outBuf) nameLen
    some (0, dstLog)
  else
    let dstLog ← strcpy dstLog srcLog
    some (0, dstLog)

end Names

/-- `mkdir -p ` -/
def mkdirP : List UInt8 := [109, 107, 100, 105, 114, 32, 45, 112, 32]

/-- Whether `openLogFile` goes on to its `fopen`. -/
def makeLogDir (logFilename : Block) (o : OpenCalls) : Option Bool := do
  let logTmp ← strcpy (zeros 512) logFilename
  let path ← load logTmp
  let dirStr ← strcpy (zeros 512) (dirname path ++ [0])
  match o.stat with
  | .dir => some true
  | .noEntry =>
    let dir ← load dirStr
    -- `sprintf` to `cmd_str`
    let _ ← strcpy (zeros 512) (mkdirP ++ dir ++ [0])
    some o.popen
  | .notDir => some false
  | .error => some false

/-- The first `openLogFile` keeps its template. -/
def saveTemplate (env : Environ) (logfile : Text) : Environ :=
  if env nameLogfile = none then setenv env nameLogfile logfile else env

/-- A name that is not the template itself is kept for `lprintf` to compare. -/
def saveName (env : Environ) (logfile name : Text) : Environ :=
  if name.chars ≠ logfile.chars then setenv env nameLogfileNow name
  else unsetenv env nameLogfileNow

section Logging

variable [DecidableEq κ] (P : Platform τ κ)

/-- `fopen(name, "a+")`, which returns the stream of the new descriptor. -/
def Logger.fopen (s : Logger τ κ) (name : List UInt8) : Nat × Logger τ κ :=
  let (ino, disk) := s.disk.openAppend (P.resolve name)
  (s.fds.lowestFree,
    { s with fds := s.fds.put s.fds.lowestFree (some (.file ino)), disk := disk })

def Logger.dup2 (s : Logger τ κ) (fd fd' : Nat) : Logger τ κ :=
  { s with fds := s.fds.put fd' (s.fds.get fd) }

def Logger.fclose (s : Logger τ κ) (fd : Nat) : Logger τ κ :=
  { s with fds := s.fds.put fd none }

/-- The return value, and the state at the return. -/
def openLogFile (s : Logger τ κ) (logfile : Block) (o : OpenCalls) :
    Option (Int × Logger τ κ) := do
  let t ← toText logfile
  let env := saveTemplate s.env t
  let (_, logFilename) ← expLogFile P s.now env logfile (zeros 512) 511
  let name ← toText logFilename
  let s := { s with env := saveName env t name }
  let ready ← makeLogDir logFilename o
  if !ready then some (0, s)
  else if !o.fopen then some (0, s)
  else
    let (fd, s) := s.fopen P name.chars
    if !o.dup2 then some (-1, s.fclose fd)
    else some (0, (s.dup2 fd 2).fclose fd)

/-- `fstat(2, &file_stat)<0 || access(exp_filename, F_OK)`, or else `st_nlink==0`. -/
def Logger.stderrLost (s : Logger τ κ) (name : List UInt8) : Bool :=
  match s.fds.get 2 with
  | none => true
  | some h =>
    (s.disk.entry (P.resolve name)).isNone ||
      match h with
      | .file ino => s.disk.nlink ino == 0
      | .other => false

/-- The part of `lprintf` that switches log files. -/
def switchLogFile (s : Logger τ κ) (o : OpenCalls) : Option (Logger τ κ) :=
  match s.env nameLogfileNow with
  | none => some s
  | some current => do
    -- `strcpy` from a null pointer where `__LOGFILE` is not set
    let logfile ← s.env nameLogfile
    let srcFilename ← strcpy (zeros 512) logfile.block
    let (_, expFilename) ← expLogFile P s.now s.env srcFilename (zeros 512) 511
    let name ← toText expFilename
    if name.chars ≠ current.chars then
      (openLogFile P s srcFilename o).map Prod.snd
    else if s.stderrLost P name.chars then
      (openLogFile P s srcFilename o).map Prod.snd
    else some s

/-- What stands behind the first `]`. -/
def behindBracket (record : List UInt8) : List UInt8 := (record.dropWhile (· != 93)).tail

/-- What follows `\n[time][pid]` in a record: its text, and of a dump some of the title and the
rows. A hex dump of no bytes returns early and has no record at all. -/
def recordText (record : List UInt8) : List UInt8 := behindBracket (behindBracket record)

/-- The bytes of a record on their way to descriptor 2. Where that is closed every print fails,
but for an empty text, and `__LOGERR` is set by the last one alone. -/
def Logger.writeStderr (s : Logger τ κ) (record : List UInt8) : Logger τ κ :=
  match s.fds.get 2 with
  | none =>
    if recordText record = [] then s
    else { s with env := setenv s.env nameLogerr ⟨[49], by decide⟩ }
  | some .other => s
  | some (.file ino) => { s with disk := s.disk.append ino record }

/-- `lprintf`, whose arguments make the bytes of `record`. -/
def lprintf (s : Logger τ κ) (record : List UInt8) (o : OpenCalls) :
    Option (Int × Logger τ κ) := do
  let s ← switchLogFile P s o
  some (0, s.writeStderr record)

end Logging

/-! ## The name of the log file -/

theorem toSize_of_le {n : Nat} (hn : (n : Int) ≤ intMax) : toSize n = n := by
  have hmax : (n : Int) ≤ 2147483647 := hn
  rw [toSize, Int.emod_eq_of_lt (Int.natCast_nonneg n) (by omega), Int.toNat_natCast]

/-- Whether the string has a `%` or a `$`. -/
def Marked (t : List UInt8) : Prop := 37 ∈ t ∨ 36 ∈ t

instance (t : List UInt8) : Decidable (Marked t) := inferInstanceAs (Decidable (_ ∨ _))

/-- The string that `expandEnvStr` leaves in `expand_logfile`, if it returns. -/
@[irreducible] def expanded (env : Environ) (t : List UInt8) : List UInt8 :=
  match expandEnvStr env (t ++ [0]) (zeros 512) 511 with
  | some (_, e) => e.outBuf.takeWhile (fun c => c != 0)
  | none => []

/-- A template whose length is an `int` is expanded piece by piece. -/
theorem expanded_eq (env : Environ) {t : List UInt8} (h0 : 0 ∉ t)
    (ht : (t.length : Int) ≤ intMax) : expanded env t = (fill env 511 (pieces t)).2 := by
  obtain ⟨code, e, hrun, hholds⟩ :=
    expandEnvStr_zeros env (holds_terminated h0) ht (n := 511) (by decide)
  have hrun' : expandEnvStr env (t ++ [0]) (zeros 512) 511 = some (code, e) := hrun
  rw [expanded, hrun']
  exact (holds_takeWhile hholds.zero_mem).unique hholds

theorem expanded_noNul (env : Environ) (t : List UInt8) : 0 ∉ expanded env t := by
  rw [expanded]
  split
  · exact fun hm => absurd (List.all_eq_true.mp List.all_takeWhile 0 hm) (by decide)
  · exact List.not_mem_nil

section Names

variable (P : Platform τ κ)

/-- The string that `strftime` leaves in an array of zeros if it may store `n` bytes. -/
def dateText (now : τ) (format : List UInt8) (n : Nat) : List UInt8 :=
  if (P.strftime now format).length < n then P.strftime now format
  else (P.leftover now format n).takeWhile (fun c => c != 0)

/-- The string that `expLogFile` leaves in an array of zeros. -/
def storedName (now : τ) (env : Environ) (t : List UInt8) (n : Nat) : List UInt8 :=
  if Marked t then dateText P now (expanded env t) n else t

/-- What `expLogFile` needs to return: a template that is copied as it is has room in an
array of `m` bytes, and another one can be expanded. -/
def Expands (env : Environ) (t : List UInt8) (m : Nat) : Prop :=
  if Marked t then (expandEnvStr env (t ++ [0]) (zeros 512) 511).isSome = true
  else t.length < m

instance (env : Environ) (t : List UInt8) (m : Nat) : Decidable (Expands env t m) :=
  inferInstanceAs (Decidable (if Marked t then
    (expandEnvStr env (t ++ [0]) (zeros 512) 511).isSome = true else t.length < m))

omit P in
theorem expands_of_le (env : Environ) {t : List UInt8} {m : Nat} (h0 : 0 ∉ t)
    (hm : Marked t → (t.length : Int) ≤ intMax) (hlen : ¬ Marked t → t.length < m) :
    Expands env t m := by
  rw [Expands]
  split
  · next h =>
    have hout : (511 : Int) ≤ (zeros 512).length := by
      rw [zeros_length]
      decide
    obtain ⟨r, hrun⟩ := expandEnvStr_returns env (holds_terminated h0) (hm h) hout (by decide)
    rw [hrun]
    rfl
  · next h => exact hlen h

/-- `strftime` stays inside the first `n` bytes. -/
theorem getDateStr_holds (now : τ) {f : Block} {format : List UInt8} (h : Holds f format)
    {n m : Nat} (hn : (n : Int) ≤ intMax) (hm : n ≤ m) :
    ∃ blk, getDateStr P now (zeros m) (some f) n = some (0, blk) ∧
      (n < m → Holds blk (dateText P now format n)) := by
  have hleft := P.leftover_le now format n
  rw [getDateStr, h.load]
  simp only [Option.bind_eq_bind, Option.bind_some, toSize_of_le hn]
  rw [dateText]
  by_cases hlen : (P.strftime now format).length < n
  · have hroom : 0 + (P.strftime now format ++ [0]).length ≤ (zeros m).length := by
      rw [List.length_append, List.length_singleton, zeros_length]
      omega
    rw [if_pos hlen, if_pos hlen, memcpy, if_pos ⟨Nat.le_refl _, hroom⟩, List.take_length,
      splice_zeros_string (by omega)]
    exact ⟨_, rfl, fun hlt => holds_zeros (P.noNul now format h.noNul) (by omega)⟩
  · have hroom : 0 + (P.leftover now format n).length ≤ (zeros m).length := by
      rw [zeros_length]
      omega
    rw [if_neg hlen, if_neg hlen, memcpy, if_pos ⟨Nat.le_refl _, hroom⟩, List.take_length,
      splice_zeros]
    exact ⟨_, rfl, fun hlt => holds_append_zeros _ (by omega)⟩

/-- An array with the template in which `expandEnvStr` does not look behind the terminator:
the smallest one, or any if the length is an `int`. -/
def Template (b : Block) (t : List UInt8) : Prop :=
  b = t ++ [0] ∨ (t.length : Int) ≤ intMax

omit P in
theorem expandEnvStr_expanded (env : Environ) {b : Block} {t : List UInt8} (h : Holds b t)
    (hb : Template b t) :
    (expandEnvStr env (t ++ [0]) (zeros 512) 511 = none ∧
      expandEnvStr env b (zeros 512) 511 = none) ∨
    ∃ code e code' e', expandEnvStr env (t ++ [0]) (zeros 512) 511 = some (code', e') ∧
      expandEnvStr env b (zeros 512) 511 = some (code, e) ∧
      Holds e.outBuf (expanded env t) := by
  rcases hb with rfl | ht
  · cases hrun : expandEnvStr env (t ++ [0]) (zeros 512) 511 with
    | none => exact Or.inl ⟨rfl, rfl⟩
    | some r =>
      obtain ⟨code, e⟩ := r
      refine Or.inr ⟨code, e, code, e, rfl, rfl, ?_⟩
      rw [expanded, hrun]
      exact expandEnvStr_terminated (n := 511) hrun
  · obtain ⟨code, e, hrun, hholds⟩ := expandEnvStr_zeros env h ht (n := 511) (by decide)
    obtain ⟨code', e', hrun', -⟩ :=
      expandEnvStr_zeros env (holds_terminated h.noNul) ht (n := 511) (by decide)
    rw [← expanded_eq env h.noNul ht] at hholds
    exact Or.inr ⟨code, e, code', e', hrun', hrun, hholds⟩

/-- `expLogFile` returns 0 whenever it returns. -/
theorem expLogFile_cases (now : τ) (env : Environ) {b : Block} {t : List UInt8} (h : Holds b t)
    (hb : Template b t) {n m : Nat} (hn : (n : Int) ≤ intMax) (hm : n ≤ m) :
    (∃ blk, expLogFile P now env b (zeros m) n = some (0, blk) ∧ Expands env t m ∧
      (n < m → Holds blk (storedName P now env t n))) ∨
    (expLogFile P now env b (zeros m) n = none ∧ ¬ Expands env t m) := by
  obtain ⟨percent, hpercent, hp⟩ := h.exists_index (by decide : (37 : UInt8) ≠ 0)
  obtain ⟨dollar, hdollar, hd⟩ := h.exists_index (by decide : (36 : UInt8) ≠ 0)
  have hmark : (percent.isSome || dollar.isSome) = true ↔ Marked t := by
    rw [Bool.or_eq_true, hp, hd, Marked]
  rw [expLogFile, hpercent, hdollar, storedName, Expands]
  simp only [Option.bind_eq_bind, Option.bind_some, hmark]
  by_cases hmarked : Marked t
  · rw [if_pos hmarked, if_pos hmarked, if_pos hmarked]
    rcases expandEnvStr_expanded env h hb with ⟨hnone, hrun⟩ | ⟨_, e, _, _, hsome, hrun, hformat⟩
    · rw [hrun, hnone]
      exact Or.inr ⟨rfl, Bool.false_ne_true⟩
    · obtain ⟨blk, hdate, hblk⟩ := getDateStr_holds P now hformat hn hm
      rw [hrun, hsome, Option.bind_some, hdate, Option.bind_some]
      exact Or.inl ⟨blk, rfl, rfl, hblk⟩
  · rw [if_neg hmarked, if_neg hmarked, if_neg hmarked, h.strcpy_eq, zeros_length]
    rcases Nat.lt_or_ge t.length m with hlt | hge
    · rw [if_pos hlt, splice_zeros_string hlt]
      exact Or.inl ⟨_, rfl, hlt, fun _ => holds_zeros h.noNul (by omega)⟩
    · rw [if_neg (Nat.not_lt_of_le hge)]
      exact Or.inr ⟨rfl, Nat.not_lt_of_le hge⟩

theorem storedName_noNul (now : τ) (env : Environ) (t : Text) (n : Nat) :
    0 ∉ storedName P now env t.chars n := by
  rw [storedName, dateText]
  split
  · split
    · exact P.noNul now _ (expanded_noNul env _)
    · intro hm
      exact absurd (List.all_eq_true.mp List.all_takeWhile 0 hm) (by decide)
  · exact t.noNul

def storedText (now : τ) (env : Environ) (t : Text) : Text :=
  ⟨storedName P now env t.chars 511, storedName_noNul P now env t 511⟩

theorem storedText_length_le (now : τ) (env : Environ) {t : Text}
    (h : Expands env t.chars 512) : (storedText P now env t).chars.length ≤ 511 := by
  show (storedName P now env t.chars 511).length ≤ 511
  rw [Expands] at h
  rw [storedName, dateText]
  by_cases ht : Marked t.chars
  · rw [if_pos ht]
    split
    · next hlen => exact Nat.le_of_lt hlen
    · exact Nat.le_trans (List.takeWhile_prefix _).length_le (P.leftover_le _ _ _)
  · rw [if_neg ht] at h ⊢
    exact Nat.le_of_lt_succ h

/-- The name that a template stands for, at its full length. -/
def logName (now : τ) (env : Environ) (t : List UInt8) : List UInt8 :=
  if Marked t then P.strftime now (expanded env t) else t

theorem logName_noNul (now : τ) (env : Environ) {t : List UInt8} (h : 0 ∉ t) :
    0 ∉ logName P now env t := by
  rw [logName]
  split
  · exact P.noNul now _ (expanded_noNul env _)
  · exact h

/-- A name that is short enough is stored whole. -/
theorem storedName_of_short (now : τ) (env : Environ) {t : List UInt8}
    (hlen : (logName P now env t).length < 511) :
    storedName P now env t 511 = logName P now env t := by
  rw [logName] at hlen ⊢
  rw [storedName]
  split
  · next hm =>
    rw [if_pos hm] at hlen
    rw [dateText, if_pos hlen]
  · rfl

/-- Without variables, what `strftime` makes of the template; also where it is copied as
it is. -/
theorem logName_noDollar (now : τ) (env : Environ) {t : List UInt8} (h0 : 0 ∉ t) (h : 36 ∉ t)
    (hlen : t.length ≤ 511) : logName P now env t = P.strftime now t := by
  have hint : (t.length : Int) ≤ intMax := Int.le_trans (Int.ofNat_le.mpr hlen) (by decide)
  rw [logName, expanded_eq env h0 hint, pieces_literals h, fill_literals,
    List.take_of_length_le hlen]
  split
  · rfl
  · next hm => rw [P.plain now t fun hp => hm (Or.inl hp)]

def logText (now : τ) (env : Environ) (t : Text) : Text :=
  ⟨logName P now env t.chars, logName_noNul P now env t.noNul⟩

theorem storedText_of_short (now : τ) (env : Environ) {t : Text}
    (hlen : (logName P now env t.chars).length < 511) :
    storedText P now env t = logText P now env t :=
  Text.ext_chars (storedName_of_short P now env hlen)

end Names

/-! ## The directory of the log file -/

theorem rootDir_cases (slashes : List UInt8) :
    rootDir slashes = [47] ∨ rootDir slashes = [47, 47] := by
  rw [rootDir]
  split
  · exact Or.inr rfl
  · exact Or.inl rfl

/-- What `dirname` makes of a path is part of it, or one of `.`, `/` and `//`. -/
theorem dirname_cases (path : List UInt8) :
    dirname path = [46] ∨ (dirname path = [47] ∨ dirname path = [47, 47]) ∨
      dirname path <+: path := by
  have hsuffix : ((path.reverse.dropWhile (fun c => c == 47)).dropWhile
      (fun c => c != 47)).dropWhile (fun c => c == 47) <:+ path.reverse :=
    (List.dropWhile_suffix _).trans ((List.dropWhile_suffix _).trans (List.dropWhile_suffix _))
  simp only [dirname]
  split
  · exact Or.inl rfl
  split
  · exact Or.inr (Or.inl (rootDir_cases _))
  split
  · exact Or.inl rfl
  split
  · exact Or.inr (Or.inl (rootDir_cases _))
  · refine Or.inr (Or.inr ?_)
    have hprefix := List.reverse_prefix.mpr hsuffix
    rwa [List.reverse_reverse] at hprefix

theorem dirname_length_le (path : List UInt8) : (dirname path).length ≤ max 2 path.length := by
  rcases dirname_cases path with h | (h | h) | h
  · rw [h]
    exact Nat.le_trans (by decide : 1 ≤ 2) (Nat.le_max_left ..)
  · rw [h]
    exact Nat.le_trans (by decide : 1 ≤ 2) (Nat.le_max_left ..)
  · rw [h]
    exact Nat.le_max_left ..
  · exact Nat.le_trans h.length_le (Nat.le_max_right ..)

theorem dirname_noNul {path : List UInt8} (h0 : 0 ∉ path) : 0 ∉ dirname path := by
  rcases dirname_cases path with h | (h | h) | h
  · rw [h]
    decide
  · rw [h]
    decide
  · rw [h]
    decide
  · exact fun hm => h0 (h.subset hm)

/-- The directory is there, or `mkdir` has been run. -/
def OpenCalls.dirReady (o : OpenCalls) : Bool :=
  match o.stat with
  | .dir => true
  | .noEntry => o.popen
  | .notDir => false
  | .error => false

/-- The command `mkdir -p` for the directory of `path` fits in its array, if it is needed. -/
def DirFits (path : List UInt8) (o : OpenCalls) : Prop :=
  o.stat = .noEntry → (dirname path).length ≤ 502

instance (path : List UInt8) (o : OpenCalls) : Decidable (DirFits path o) :=
  inferInstanceAs (Decidable (_ → _))

theorem makeLogDir_eq {b : Block} {path : List UInt8} (h : Holds b path)
    (hlen : path.length ≤ 511) (o : OpenCalls) :
    makeLogDir b o = if DirFits path o then some o.dirReady else none := by
  have hpath : Holds (path ++ zeros (512 - path.length)) path := holds_zeros h.noNul (by omega)
  have hle := dirname_length_le path
  have hdir := dirname_noNul h.noNul
  have hdirStr : Holds (dirname path ++ zeros (512 - (dirname path).length)) (dirname path) :=
    holds_zeros hdir (by omega)
  have hcmd : Holds (mkdirP ++ dirname path ++ [0]) (mkdirP ++ dirname path) := by
    refine holds_terminated fun hm => ?_
    rcases List.mem_append.mp hm with hm | hm
    · revert hm
      decide
    · exact hdir hm
  rw [makeLogDir, h.strcpy_zeros (by omega)]
  simp only [Option.bind_eq_bind, Option.bind_some, hpath.load]
  rw [(holds_terminated hdir).strcpy_zeros (by omega), Option.bind_some]
  cases hstat : o.stat with
  | noEntry =>
    simp only [hdirStr.load, Option.bind_some]
    rw [hcmd.strcpy_eq, zeros_length, List.length_append]
    simp only [DirFits, hstat, OpenCalls.dirReady, forall_const]
    have hnine : mkdirP.length = 9 := rfl
    by_cases hfit : (dirname path).length ≤ 502
    · rw [if_pos hfit, if_pos (by omega), Option.bind_some]
    · rw [if_neg hfit, if_neg (by omega), Option.bind_none]
  | _ => simp [DirFits, hstat, OpenCalls.dirReady]

/-! ## Outcomes of openLogFile -/

theorem saveTemplate_logfile (env : Environ) (t : Text) :
    saveTemplate env t nameLogfile = some ((env nameLogfile).getD t) := by
  rw [saveTemplate]
  cases h : env nameLogfile with
  | none =>
    rw [if_pos rfl]
    exact Function.update_self ..
  | some l =>
    rw [if_neg (Option.some_ne_none l)]
    exact h

theorem saveTemplate_of_some {env : Environ} {t u : Text} (h : env nameLogfile = some u) :
    saveTemplate env t = env := by
  rw [saveTemplate, if_neg (by rw [h]; exact Option.some_ne_none u)]

theorem saveName_of_ne (env : Environ) (t name : Text) {n : List UInt8}
    (h : n ≠ nameLogfileNow) : saveName env t name n = env n := by
  rw [saveName]
  split
  · exact Function.update_of_ne h _ _
  · exact Function.update_of_ne h _ _

theorem saveName_now {env : Environ} {t name : Text} (h : name.chars ≠ t.chars) :
    saveName env t name nameLogfileNow = some name := by
  rw [saveName, if_pos h]
  exact Function.update_self ..

/-- Every call succeeds. -/
structure OpenCalls.Succeed (o : OpenCalls) : Prop where
  dirReady : o.dirReady = true
  fopen : o.fopen = true
  dup2 : o.dup2 = true

section Variables

variable (P : Platform τ κ)

/-- `expLogFile` returns, and the `mkdir` command fits in its array. -/
def OpenFits (s : Logger τ κ) (t : Text) (o : OpenCalls) : Prop :=
  Expands (saveTemplate s.env t) t.chars 512 ∧
    DirFits (storedText P s.now (saveTemplate s.env t) t).chars o

instance (s : Logger τ κ) (t : Text) (o : OpenCalls) : Decidable (OpenFits P s t o) :=
  inferInstanceAs (Decidable (_ ∧ _))

/-- The variables as `openLogFile` sets them. -/
def savedEnv (now : τ) (env : Environ) (t : Text) : Environ :=
  saveName (saveTemplate env t) t (storedText P now (saveTemplate env t) t)

theorem savedEnv_logfile (now : τ) (env : Environ) (t : Text) :
    savedEnv P now env t nameLogfile = some ((env nameLogfile).getD t) := by
  rw [savedEnv, saveName_of_ne _ _ _ (by decide), saveTemplate_logfile]

theorem savedEnv_now (now : τ) (env : Environ) (t : Text) :
    (savedEnv P now env t nameLogfileNow).map Text.chars =
      if (storedText P now (saveTemplate env t) t).chars ≠ t.chars then
        some (storedText P now (saveTemplate env t) t).chars
      else none := by
  by_cases h : (storedText P now (saveTemplate env t) t).chars ≠ t.chars
  · rw [if_pos h, savedEnv, saveName_now h]
    rfl
  · rw [if_neg h, savedEnv, saveName, if_neg h]
    have hnow : unsetenv (saveTemplate env t) nameLogfileNow nameLogfileNow = none :=
      Function.update_self ..
    rw [hnow]
    rfl

end Variables

section Opened

variable [DecidableEq κ] (P : Platform τ κ)

/-- The environment and the name with which `openLogFile` comes to its `fopen`. -/
def Logger.named (s : Logger τ κ) (t : Text) : Logger τ κ :=
  let env := saveTemplate s.env t
  { s with env := saveName env t (logText P s.now env t) }

omit [DecidableEq κ] in
theorem named_env (s : Logger τ κ) (t : Text) :
    (s.named P t).env =
      saveName (saveTemplate s.env t) t (logText P s.now (saveTemplate s.env t) t) := rfl

/-- The log file on descriptor 2. -/
def Logger.redirected (s : Logger τ κ) (name : List UInt8) : Logger τ κ :=
  let (fd, s) := s.fopen P name
  (s.dup2 fd 2).fclose fd

/-- The return value and the state at the return. -/
def Logger.opened (s : Logger τ κ) (t : Text) (o : OpenCalls) : Int × Logger τ κ :=
  let name := (storedText P s.now (saveTemplate s.env t) t).chars
  let s := { s with env := savedEnv P s.now s.env t }
  if o.dirReady && o.fopen then
    if o.dup2 then (0, s.redirected P name)
    else (-1, (s.fopen P name).2.fclose s.fds.lowestFree)
  else (0, s)

theorem openLogFile_opened (s : Logger τ κ) {b : Block} {t : Text} (h : Holds b t.chars)
    (hb : Template b t.chars) (o : OpenCalls) :
    openLogFile P s b o = if OpenFits P s t o then some (s.opened P t o) else none := by
  rw [openLogFile, h.toText]
  simp only [Option.bind_eq_bind, Option.bind_some]
  rcases expLogFile_cases P s.now (saveTemplate s.env t) h hb (n := 511) (by decide)
    (by decide : 511 ≤ 512) with ⟨blk, hrun, hfits, hblk⟩ | ⟨hnone, hno⟩
  · have hexp : expLogFile P s.now (saveTemplate s.env t) b (zeros 512) 511 = some (0, blk) := hrun
    have hname : Holds blk (storedText P s.now (saveTemplate s.env t) t).chars :=
      hblk (by decide)
    have hdir := makeLogDir_eq hname (storedText_length_le P s.now _ hfits) o
    rw [hexp, Option.bind_some, hname.toText, Option.bind_some, hdir]
    by_cases hd : DirFits (storedText P s.now (saveTemplate s.env t) t).chars o
    · have hfit : OpenFits P s t o := ⟨hfits, hd⟩
      rw [if_pos hd, if_pos hfit, Option.bind_some, Logger.opened]
      cases o.dirReady <;> cases o.fopen <;> cases o.dup2 <;> rfl
    · have hno : ¬ OpenFits P s t o := fun hf => hd hf.2
      rw [if_neg hd, if_neg hno, Option.bind_none]
  · have hexp : expLogFile P s.now (saveTemplate s.env t) b (zeros 512) 511 = none := hnone
    rw [hexp, if_neg fun hf : OpenFits P s t o => hno hf.1]
    rfl

theorem opened_env (s : Logger τ κ) (t : Text) (o : OpenCalls) :
    (s.opened P t o).2.env = savedEnv P s.now s.env t := by
  rw [Logger.opened]
  cases o.dirReady <;> cases o.fopen <;> cases o.dup2 <;> rfl

theorem opened_succeed (s : Logger τ κ) (t : Text) {o : OpenCalls} (ho : o.Succeed) :
    s.opened P t o = (0, ({ s with env := savedEnv P s.now s.env t } : Logger τ κ).redirected P
      (storedText P s.now (saveTemplate s.env t) t).chars) := by
  simp [Logger.opened, ho.dirReady, ho.fopen, ho.dup2]

omit [DecidableEq κ] in
theorem openFits_of_short {s : Logger τ κ} {t : Text} {o : OpenCalls}
    (hlen : (logName P s.now (saveTemplate s.env t) t.chars).length < 511) :
    OpenFits P s t o ↔ Expands (saveTemplate s.env t) t.chars 512 ∧
      DirFits (logName P s.now (saveTemplate s.env t) t.chars) o := by
  rw [OpenFits, storedText_of_short P _ _ hlen]
  rfl

/-- A call that succeeds, for a name that is stored whole. -/
theorem openLogFile_eq (s : Logger τ κ) {b : Block} {t : Text} (h : Holds b t.chars)
    (hb : Template b t.chars) {o : OpenCalls} (ho : o.Succeed) {name : List UInt8}
    (hname : name = logName P s.now (saveTemplate s.env t) t.chars) (hlen : name.length < 511) :
    openLogFile P s b o =
      if Expands (saveTemplate s.env t) t.chars 512 ∧ DirFits name o then
        some (0, (s.named P t).redirected P name) else none := by
  subst hname
  rw [openLogFile_opened P s h hb, opened_succeed P s t ho, savedEnv,
    storedText_of_short P _ _ hlen]
  simp only [openFits_of_short P hlen]
  rfl

theorem redirected_env (s : Logger τ κ) (name : List UInt8) :
    (s.redirected P name).env = s.env := rfl

theorem redirected_get_two (s : Logger τ κ) (name : List UInt8) :
    (s.redirected P name).fds.get 2 =
      if s.fds.lowestFree = 2 then none
      else some (.file (s.disk.openAppend (P.resolve name)).1) := by
  simp only [Logger.redirected, Logger.fopen, Logger.dup2, Logger.fclose]
  by_cases hfd : s.fds.lowestFree = 2
  · rw [if_pos hfd, hfd, Table.get_put_self]
  · rw [if_neg hfd, Table.get_put_ne _ _ hfd, Table.get_put_self, Table.get_put_self]

end Opened

end Netepoll
