import Netepoll.DebugLevel

/-! `getInit` (getInit.c): the names made from the program name, the options, and the four
settings of the ini file. The file is read by `fscanf` with `%s` and `%d`, so what counts is
the place of a word and not the name in front of it. -/

namespace Netepoll

open CString Decimal Words

/-- The global variables that `getInit` sets. -/
structure Settings where
  debug : Int32
  /-- `HostPort[40]` -/
  hostPort : Block
  timeOut : Int32
  /-- `ProgName[30]` -/
  progName : Block
  /-- `IniFile[256]` -/
  iniFile : Block
  /-- `CfgFile[256]` -/
  cfgFile : Block

/-- What `getopt(argc, argv, "vI:F:")` returns, with its `optarg`. -/
inductive Opt where
  | version
  | ini (optarg : Text)
  | cfg (optarg : Text)
  | unknown

/-- How a call of `getInit` ends. -/
inductive InitEnd where
  | returned (ret : Int)
  | exited (code : Int)
  deriving DecidableEq

/-! ## fscanf -/

/-- A byte that `%s` stops at. -/
def isBlack (c : UInt8) : Bool := !isSpace c

/-- `%s` into an array: whether there was a word, the array, and what is left of the file. -/
def scanStr (dst : Block) (file : List UInt8) : Option (Bool × Block × List UInt8) :=
  let word := (file.dropWhile isSpace).takeWhile isBlack
  if word = [] then some (false, dst, file.dropWhile isSpace)
  else if word.length < dst.length then
    some (true, splice dst 0 (word ++ [0]), (file.dropWhile isSpace).dropWhile isBlack)
  -- the word and its terminator do not fit
  else none

/-- `%d` into an `int`, which keeps its value where there is no number. -/
def scanInt (v : Int32) (file : List UInt8) : Int32 × List UInt8 :=
  match readInt file with
  | (some n, file) => (Int32.ofInt (toLong n), file)
  | (none, file) => (v, file)

/-- `fscanf(fp, "%s%d", tmp, &v)` -/
def fscanfInt (tmp : Block) (v : Int32) (file : List UInt8) :
    Option (Block × Int32 × List UInt8) := do
  let (ok, tmp, file) ← scanStr tmp file
  if ok then
    let (v, file) := scanInt v file
    some (tmp, v, file)
  else some (tmp, v, file)

/-- `fscanf(fp, "%s%s", tmp, dst)` -/
def fscanfStr (tmp dst : Block) (file : List UInt8) : Option (Block × Block × List UInt8) := do
  let (ok, tmp, file) ← scanStr tmp file
  if ok then
    let (_, dst, file) ← scanStr dst file
    some (tmp, dst, file)
  else some (tmp, dst, file)

/-- The four calls of `fscanf`: `log_file` and the global variables after them. -/
def readIni (file : List UInt8) (tmp logFile : Block) (g : Settings) :
    Option (Block × Settings) := do
  let (tmp, debug, file) ← fscanfInt tmp g.debug file
  let (tmp, logFile, file) ← fscanfStr tmp logFile file
  let (tmp, hostPort, file) ← fscanfStr tmp g.hostPort file
  let (_, timeOut, _) ← fscanfInt tmp g.timeOut file
  some (logFile, { g with debug := debug, hostPort := hostPort, timeOut := timeOut })

/-! ## getInit -/

/-- `HOME` -/
def nameHome : List UInt8 := [72, 79, 77, 69]

/-- `/etc/` -/
def etcDir : List UInt8 := [47, 101, 116, 99, 47]

/-- `.ini` -/
def iniSuffix : List UInt8 := [46, 105, 110, 105]

/-- `.cfg` -/
def cfgSuffix : List UInt8 := [46, 99, 102, 103]

/-- The last component of a path. -/
def basename (path : List UInt8) : List UInt8 :=
  let path' := path.reverse.dropWhile (fun c => c == 47)
  if path = [] then [46]
  else if path' = [] then [47]
  else (path'.takeWhile fun c => c != 47).reverse

/-- The loop over the options: how `getInit` ends in it, if it does. -/
def getOpts : List Opt → Settings → Option (Option InitEnd × Settings)
  | [], g => some (none, g)
  | .version :: _, g => some (some (.exited 0), g)
  | .ini optarg :: opts, g => do
    let iniFile ← strcpy g.iniFile optarg.block
    getOpts opts { g with iniFile := iniFile }
  | .cfg optarg :: opts, g => do
    let cfgFile ← strcpy g.cfgFile optarg.block
    getOpts opts { g with cfgFile := cfgFile }
  | .unknown :: _, g => some (some (.returned (-1)), g)

/-- The end of `getInit`, by the result of `fork`. -/
def forkEnd (pid : Int) : InitEnd :=
  if pid = 0 then .returned 0 else if pid = -1 then .exited (-1) else .exited 0

/-- What a call of `getInit` finds: its arguments, the files that can be read, the bytes that
are in `log_file` before, and the results of the calls it makes. -/
structure InitCall where
  argv0 : Text
  opts : List Opt
  files : List UInt8 → Option (List UInt8)
  logFile : Block
  openCalls : OpenCalls
  pid : Int

section Logging

variable {τ κ : Type} [DecidableEq κ] (P : Platform τ κ)

/-- `if (Debug) openLogFile(log_file)` -/
def openIfDebug (s : Logger τ κ) (debug : Int32) (logFile : Block) (o : OpenCalls) :
    Option (Logger τ κ) :=
  if debug = 0 then some s else (openLogFile P s logFile o).map Prod.snd

def getInit (s : Logger τ κ) (g : Settings) (c : InitCall) :
    Option (InitEnd × Settings × Logger τ κ) := do
  let tmp ← strcpy (zeros 256) c.argv0.block
  let path ← load tmp
  let progName ← strcpy (zeros 30) (basename path ++ [0])
  let prog ← load progName
  let iniFile ← strcpy g.iniFile (printStr (s.env nameHome) ++ etcDir ++ prog ++ iniSuffix ++ [0])
  let cfgFile ← strcpy g.cfgFile (printStr (s.env nameHome) ++ etcDir ++ prog ++ cfgSuffix ++ [0])
  let (stop, g) ←
    getOpts c.opts { g with progName := progName, iniFile := iniFile, cfgFile := cfgFile }
  match stop with
  | some stop => some (stop, g, s)
  | none =>
    let name ← load g.iniFile
    match c.files name with
    | none => some (.returned (-1), g, s)
    | some file =>
      let (logFile, g) ← readIni file tmp c.logFile g
      let (_, env) ← setDebugLevel s.env g.debug
      let s ← openIfDebug P { s with env := env } g.debug logFile c.openCalls
      some (forkEnd c.pid, g, s)

end Logging

/-! ## Reading an ini file -/

/-- A word that `%s` reads into an array of `room` bytes. -/
structure WordFor (room : Nat) where
  text : Text
  black : ∀ c ∈ text.chars, isBlack c = true
  ne_nil : text.chars ≠ []
  fits : text.chars.length < room

/-- A line of an ini file without its value: its name, the blanks behind the name, and those
behind the value. -/
structure IniLine where
  name : WordFor 256
  sep : List UInt8
  gap : List UInt8
  sep_space : ∀ c ∈ sep, isSpace c = true
  sep_ne_nil : sep ≠ []
  gap_space : ∀ c ∈ gap, isSpace c = true
  gap_ne_nil : gap ≠ []

def IniLine.text (l : IniLine) (value : List UInt8) : List UInt8 :=
  l.name.text.chars ++ l.sep ++ value ++ l.gap

theorem ends_black {gap rest : List UInt8} (h : ∀ c ∈ gap, isSpace c = true) (hne : gap ≠ []) :
    Ends isBlack (gap ++ rest) := by
  cases gap with
  | nil => exact absurd rfl hne
  | cons c gap =>
    have hc : isBlack c = false := by simp [isBlack, h c List.mem_cons_self]
    exact ends_cons hc

theorem ends_digit {gap rest : List UInt8} (h : ∀ c ∈ gap, isSpace c = true) (hne : gap ≠ []) :
    Ends Decimal.isDigit (gap ++ rest) := by
  cases gap with
  | nil => exact absurd rfl hne
  | cons c gap =>
    have hc : Decimal.isDigit c = false := by
      by_contra hd
      have hspace := not_isSpace_of_isDigit (by simpa using hd)
      rw [h c List.mem_cons_self] at hspace
      cases hspace
    exact ends_cons hc

/-- A word is read into its array. -/
theorem scanStr_word {room : Nat} (w : WordFor room) {dst : Block} (hdst : dst.length = room)
    {blank rest : List UInt8} (hblank : ∀ c ∈ blank, isSpace c = true)
    (hrest : Ends isBlack rest) :
    scanStr dst (blank ++ w.text.chars ++ rest) =
      some (true, splice dst 0 (w.text.chars ++ [0]), rest) := by
  have hskip : (w.text.chars ++ rest).dropWhile isSpace = w.text.chars ++ rest := by
    cases hw : w.text.chars with
    | nil => exact absurd hw w.ne_nil
    | cons c cs =>
      have hc := w.black c (by rw [hw]; exact List.mem_cons_self)
      have hspace : isSpace c = false := by simpa [isBlack] using hc
      rw [List.cons_append, List.dropWhile_cons, hspace]
      rfl
  rw [List.append_assoc, scanStr, List.dropWhile_append_of_pos hblank, hskip,
    takeWhile_append w.black hrest, dropWhile_append w.black hrest, if_neg w.ne_nil,
    if_pos (by rw [hdst]; exact w.fits)]

theorem ofInt_toLong (v : Int32) : Int32.ofInt (toLong v.toInt) = v := by
  have hlow := Int32.le_toInt v
  have hhigh := Int32.toInt_lt v
  have hlong : toLong v.toInt = v.toInt := by
    unfold toLong
    omega
  rw [hlong, Int32.ofInt_toInt]

theorem scanInt_printInt (v old : Int32) {blank rest : List UInt8}
    (hblank : ∀ c ∈ blank, isSpace c = true) (hrest : Ends Decimal.isDigit rest) :
    scanInt old (blank ++ printInt v.toInt ++ rest) = (v, rest) := by
  rw [scanInt, readInt_printInt v.toInt hblank hrest]
  simp only [ofInt_toLong]

/-- The name of a line, up to its value. -/
theorem scanStr_name (l : IniLine) {tmp : Block} (htmp : tmp.length = 256)
    {blank value rest : List UInt8} (hblank : ∀ c ∈ blank, isSpace c = true) :
    scanStr tmp (blank ++ (l.text value ++ rest)) =
      some (true, splice tmp 0 (l.name.text.chars ++ [0]), l.sep ++ value ++ (l.gap ++ rest)) := by
  have hsplit : blank ++ (l.text value ++ rest) =
      blank ++ l.name.text.chars ++ (l.sep ++ value ++ (l.gap ++ rest)) := by
    simp only [IniLine.text, List.append_assoc]
  have hends : Ends isBlack (l.sep ++ value ++ (l.gap ++ rest)) := by
    rw [List.append_assoc]
    exact ends_black l.sep_space l.sep_ne_nil
  rw [hsplit, scanStr_word l.name htmp hblank hends]

theorem fscanfInt_line (l : IniLine) {tmp : Block} (htmp : tmp.length = 256) (v old : Int32)
    {blank rest : List UInt8} (hblank : ∀ c ∈ blank, isSpace c = true) :
    fscanfInt tmp old (blank ++ (l.text (printInt v.toInt) ++ rest)) =
      some (splice tmp 0 (l.name.text.chars ++ [0]), v, l.gap ++ rest) := by
  have hvalue := scanInt_printInt v old l.sep_space
    (ends_digit l.gap_space l.gap_ne_nil : Ends Decimal.isDigit (l.gap ++ rest))
  rw [fscanfInt, scanStr_name l htmp hblank]
  simp only [Option.bind_eq_bind, Option.bind_some, if_true, hvalue]

theorem fscanfStr_line (l : IniLine) {tmp : Block} (htmp : tmp.length = 256) {room : Nat}
    (w : WordFor room) {dst : Block} (hdst : dst.length = room)
    {blank rest : List UInt8} (hblank : ∀ c ∈ blank, isSpace c = true) :
    fscanfStr tmp dst (blank ++ (l.text w.text.chars ++ rest)) =
      some (splice tmp 0 (l.name.text.chars ++ [0]), splice dst 0 (w.text.chars ++ [0]),
        l.gap ++ rest) := by
  have hends : Ends isBlack (l.gap ++ rest) := ends_black l.gap_space l.gap_ne_nil
  have hvalue := scanStr_word w hdst l.sep_space hends
  rw [fscanfStr, scanStr_name l htmp hblank]
  simp only [Option.bind_eq_bind, Option.bind_some, if_true, hvalue]

/-- The settings of an ini file, and the lines they stand in. -/
structure IniFile where
  blank : List UInt8
  blank_space : ∀ c ∈ blank, isSpace c = true
  debugLine : IniLine
  debug : Int32
  logLine : IniLine
  logFile : WordFor 512
  hostLine : IniLine
  hostPort : WordFor 40
  timeLine : IniLine
  timeOut : Int32
  rest : List UInt8

def IniFile.text (f : IniFile) : List UInt8 :=
  f.blank ++ (f.debugLine.text (printInt f.debug.toInt) ++
    (f.logLine.text f.logFile.text.chars ++ (f.hostLine.text f.hostPort.text.chars ++
      (f.timeLine.text (printInt f.timeOut.toInt) ++ f.rest))))

theorem splice_zero_length {dst : Block} {bs : List UInt8} {n : Nat} (hdst : dst.length = n)
    (h : bs.length ≤ n) : (splice dst 0 bs).length = n := by
  rw [splice_length (by rw [hdst]; omega), hdst]

/-- **Round trip.** The four settings are read as they stand in the file, whatever the names in
front of them and the blanks between them are. -/
theorem readIni_text (f : IniFile) {tmp logFile : Block} {g : Settings} (htmp : tmp.length = 256)
    (hlog : logFile.length = 512) (hhost : g.hostPort.length = 40) :
    readIni f.text tmp logFile g =
      some (splice logFile 0 (f.logFile.text.chars ++ [0]),
        { g with
          debug := f.debug
          hostPort := splice g.hostPort 0 (f.hostPort.text.chars ++ [0])
          timeOut := f.timeOut }) := by
  have hlen (l : IniLine) {tmp : Block} (h : tmp.length = 256) :
      (splice tmp 0 (l.name.text.chars ++ [0])).length = 256 := by
    refine splice_zero_length h ?_
    rw [List.length_append, List.length_singleton]
    exact l.name.fits
  have htmp₁ := hlen f.debugLine htmp
  have htmp₂ := hlen f.logLine htmp₁
  have htmp₃ := hlen f.hostLine htmp₂
  rw [readIni, IniFile.text, fscanfInt_line f.debugLine htmp f.debug g.debug f.blank_space]
  simp only [Option.bind_eq_bind, Option.bind_some]
  rw [fscanfStr_line f.logLine htmp₁ f.logFile hlog f.debugLine.gap_space, Option.bind_some,
    fscanfStr_line f.hostLine htmp₂ f.hostPort hhost f.logLine.gap_space, Option.bind_some,
    fscanfInt_line f.timeLine htmp₃ f.timeOut g.timeOut f.hostLine.gap_space, Option.bind_some]

/-! ## A call of getInit -/

theorem basename_noNul {path : List UInt8} (h : 0 ∉ path) : 0 ∉ basename path := by
  unfold basename
  simp only
  split
  · decide
  · split
    · decide
    · intro h0
      have htake := List.mem_reverse.mp h0
      have hdrop := (List.takeWhile_prefix _).subset htake
      exact h (List.mem_reverse.mp ((List.dropWhile_suffix _).subset hdrop))

/-- A string copied over the head of an array. -/
theorem strcpy_fits {s : List UInt8} (h0 : 0 ∉ s) {dst : Block} {n : Nat} (hdst : dst.length = n)
    (hlen : s.length < n) :
    ∃ b, strcpy dst (s ++ [0]) = some b ∧ Holds b s ∧ b.length = n := by
  have hroom : s.length < dst.length := by omega
  have hcopy := (holds_terminated h0).strcpy_eq dst
  rw [if_pos hroom] at hcopy
  obtain ⟨b, hb, hholds⟩ := (holds_terminated h0).strcpy_holds hroom
  refine ⟨b, hb, hholds, ?_⟩
  rw [hcopy] at hb
  cases hb
  exact splice_zero_length hdst (by rw [List.length_append, List.length_singleton]; omega)

/-- An option with a path that `IniFile` or `CfgFile` has room for. -/
def Opt.Fits : Opt → Prop
  | .ini optarg => optarg.chars.length < 256
  | .cfg optarg => optarg.chars.length < 256
  | .version => False
  | .unknown => False

/-- The path of the ini file after the options. -/
def iniPath : List UInt8 → List Opt → List UInt8
  | path, [] => path
  | _, .ini optarg :: opts => iniPath optarg.chars opts
  | path, _ :: opts => iniPath path opts

theorem getOpts_fits {opts : List Opt} (h : ∀ o ∈ opts, o.Fits) {g : Settings} {path : List UInt8}
    (hini : g.iniFile.length = 256) (hcfg : g.cfgFile.length = 256) (hpath : Holds g.iniFile path) :
    ∃ iniFile cfgFile,
      getOpts opts g = some (none, { g with iniFile := iniFile, cfgFile := cfgFile }) ∧
      Holds iniFile (iniPath path opts) := by
  induction opts generalizing g path with
  | nil => exact ⟨g.iniFile, g.cfgFile, rfl, hpath⟩
  | cons o opts ih =>
    have hrest : ∀ o ∈ opts, o.Fits := fun o ho => h o (List.mem_cons_of_mem _ ho)
    have ho := h o List.mem_cons_self
    cases o with
    | version => exact ho.elim
    | unknown => exact ho.elim
    | ini optarg =>
      obtain ⟨b, hb, hholds, hlen⟩ := strcpy_fits optarg.noNul hini ho
      obtain ⟨iniFile, cfgFile, hrun, hend⟩ :=
        ih hrest (g := { g with iniFile := b }) hlen hcfg hholds
      refine ⟨iniFile, cfgFile, ?_, hend⟩
      rw [getOpts, Text.block, hb, Option.bind_eq_bind, Option.bind_some, hrun]
    | cfg optarg =>
      obtain ⟨b, hb, -, hlen⟩ := strcpy_fits optarg.noNul hcfg ho
      obtain ⟨iniFile, cfgFile, hrun, hend⟩ :=
        ih hrest (g := { g with cfgFile := b }) hini hlen hpath
      refine ⟨iniFile, cfgFile, ?_, hend⟩
      rw [getOpts, Text.block, hb, Option.bind_eq_bind, Option.bind_some, hrun]

/-- The global variables have the sizes of netepoll.h. -/
structure Settings.Sized (g : Settings) : Prop where
  hostPort : g.hostPort.length = 40
  iniFile : g.iniFile.length = 256
  cfgFile : g.cfgFile.length = 256

/-- `$HOME/etc/` and the program name, with a suffix. -/
def etcPath (env : Environ) (argv0 : Text) (suffix : List UInt8) : List UInt8 :=
  printStr (env nameHome) ++ etcDir ++ basename argv0.chars ++ suffix

/-- The names and paths of a call have room in their arrays. -/
structure InitCall.Fits (c : InitCall) (env : Environ) : Prop where
  argv0 : c.argv0.chars.length < 256
  progName : (basename c.argv0.chars).length < 30
  iniFile : (etcPath env c.argv0 iniSuffix).length < 256
  cfgFile : (etcPath env c.argv0 cfgSuffix).length < 256
  opts : ∀ o ∈ c.opts, o.Fits
  logFile : c.logFile.length = 512

theorem etcPath_noNul (env : Environ) (argv0 : Text) {suffix : List UInt8} (h : 0 ∉ suffix) :
    0 ∉ etcPath env argv0 suffix := by
  have hname := basename_noNul argv0.noNul
  have hhome := printStr_noNul (env nameHome)
  have hetc : 0 ∉ etcDir := by decide
  simp only [etcPath, List.mem_append, not_or]
  exact ⟨⟨⟨hhome, hetc⟩, hname⟩, h⟩

section Logging

variable {τ κ : Type} [DecidableEq κ] (P : Platform τ κ) {s : Logger τ κ} {g : Settings}
  {c : InitCall}

/-- `getInit` up to the end of the options. -/
theorem getInit_opened (hg : g.Sized) (hc : c.Fits s.env) {file : List UInt8}
    (hfile : c.files (iniPath (etcPath s.env c.argv0 iniSuffix) c.opts) = some file) :
    ∃ tmp g', tmp.length = 256 ∧ g'.hostPort = g.hostPort ∧
      getInit P s g c = (readIni file tmp c.logFile g').bind fun r =>
        (setDebugLevel s.env r.2.debug).bind fun e =>
          (openIfDebug P { s with env := e.2 } r.2.debug r.1 c.openCalls).bind fun s' =>
            some (forkEnd c.pid, r.2, s') := by
  obtain ⟨tmp, htmp, hpath, htmplen⟩ :=
    strcpy_fits c.argv0.noNul (zeros_length 256) hc.argv0
  obtain ⟨progName, hprog, hname, -⟩ :=
    strcpy_fits (basename_noNul c.argv0.noNul) (zeros_length 30) hc.progName
  obtain ⟨iniFile, hini, hinipath, hinilen⟩ :=
    strcpy_fits (etcPath_noNul s.env c.argv0 (by decide)) hg.iniFile hc.iniFile
  obtain ⟨cfgFile, hcfg, -, hcfglen⟩ :=
    strcpy_fits (etcPath_noNul s.env c.argv0 (by decide)) hg.cfgFile hc.cfgFile
  obtain ⟨iniFile', cfgFile', hopts, hfinal⟩ := getOpts_fits hc.opts
    (g := { g with progName := progName, iniFile := iniFile, cfgFile := cfgFile })
    hinilen hcfglen hinipath
  refine ⟨tmp, { g with progName := progName, iniFile := iniFile', cfgFile := cfgFile' }, htmplen,
    rfl, ?_⟩
  simp only [etcPath] at hini hcfg
  simp only [getInit, Text.block, htmp, hpath.load, hprog, hname.load, hini, hcfg, hopts,
    hfinal.load, hfile, Option.bind_eq_bind, Option.bind_some]

theorem opened_debuglvl (s : Logger τ κ) (t : Text) (o : OpenCalls) :
    (s.opened P t o).2.env nameDebuglvl = s.env nameDebuglvl := by
  rw [opened_env, savedEnv, saveName_of_ne _ _ _ (by decide), saveTemplate]
  split
  · exact Function.update_of_ne (by decide) ..
  · rfl

/-- The state with the debug level of the ini file. -/
def Logger.levelled (s : Logger τ κ) (debug : Int32) : Logger τ κ :=
  { s with env := setenv s.env nameDebuglvl (levelText debug) }

/-- `getInit` finds the file that its last `-I` or the program name says, and sets what stands
in the file. The debug level that is in force from then on is the one of the file, and unless
that level is 0 the state is the one that `openLogFile` leaves for the log file of the file. -/
theorem getInit_reads (hg : g.Sized) (hc : c.Fits s.env) (f : IniFile)
    (hfile : c.files (iniPath (etcPath s.env c.argv0 iniSuffix) c.opts) = some f.text)
    (hlog : f.debug ≠ 0 → OpenFits P (s.levelled f.debug) f.logFile.text c.openCalls) :
    ∃ g' s', getInit P s g c = some (forkEnd c.pid, g', s') ∧
      g'.debug = f.debug ∧ Holds g'.hostPort f.hostPort.text.chars ∧ g'.timeOut = f.timeOut ∧
      getDebugLevel s'.env = some f.debug.toInt ∧
      s' = if f.debug = 0 then s.levelled f.debug
        else ((s.levelled f.debug).opened P f.logFile.text c.openCalls).2 := by
  obtain ⟨tmp, g', htmp, hhost, hrun⟩ := getInit_opened P hg hc hfile
  have hread := readIni_text f htmp hc.logFile (g := g') (by rw [hhost]; exact hg.hostPort)
  have hholds {n : Nat} (w : WordFor n) (dst : Block) :
      Holds (splice dst 0 (w.text.chars ++ [0])) w.text.chars :=
    ⟨w.text.noNul, dst.drop (w.text.chars ++ [0]).length, by
      rw [splice_zero, List.append_assoc]; rfl⟩
  have hlevel : getDebugLevel (s.levelled f.debug).env = some f.debug.toInt :=
    getDebugLevel_setenv s.env f.debug
  rw [hrun, hread, Option.bind_some, setDebugLevel_eq, Option.bind_some, openIfDebug]
  refine ⟨{ g' with
      debug := f.debug
      hostPort := splice g'.hostPort 0 (f.hostPort.text.chars ++ [0])
      timeOut := f.timeOut }, ?_⟩
  by_cases hzero : f.debug = 0
  · refine ⟨s.levelled f.debug, ?_, rfl, hholds f.hostPort _, rfl, hlevel, (if_pos hzero).symm⟩
    rw [if_pos hzero]
    rfl
  · have hint : (f.logFile.text.chars.length : Int) ≤ intMax :=
      Int.le_trans (Int.ofNat_le.mpr (Nat.le_of_lt f.logFile.fits)) (by decide)
    have hopen := openLogFile_opened P (s.levelled f.debug) (hholds f.logFile c.logFile)
      (Or.inr hint) c.openCalls
    rw [if_pos (hlog hzero)] at hopen
    refine ⟨((s.levelled f.debug).opened P f.logFile.text c.openCalls).2, ?_, rfl,
      hholds f.hostPort _, rfl, ?_, (if_neg hzero).symm⟩
    · rw [if_neg hzero]
      show ((openLogFile P (s.levelled f.debug) _ c.openCalls).map Prod.snd).bind _ = _
      rw [hopen]
      rfl
    · have hsame := opened_debuglvl P (s.levelled f.debug) f.logFile.text c.openCalls
      rw [getDebugLevel, hsame, ← getDebugLevel, hlevel]

end Logging

end Netepoll
