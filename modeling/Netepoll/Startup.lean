import Netepoll.GetInit
import Netepoll.ListenLoop
import Netepoll.LatestLog

/-! The start of the program (netepoll.c): `getInit` reads the ini file, and `initlistensocket`
opens the socket that the file asks for. -/

namespace Netepoll

open CString Decimal Inet

section Startup

variable {τ κ : Type} [DecidableEq κ] (P : Platform τ κ) {s : Logger τ κ} {g : Settings}
  {c : InitCall}

/-- **From the ini file to the socket.** `getInit` succeeds with the settings of the file, the
debug level of the file is in force, unless that level is 0 `openLogFile` has been called with the
log file of the file, and whatever `initlistensocket` has to put up with before its loop ends, the
server then listens at the address of the file, on the only descriptor that is new. -/
theorem startup_listens (hg : g.Sized) (hc : c.Fits s.env) (f : IniFile)
    (hfile : c.files (iniPath (etcPath s.env c.argv0 iniSuffix) c.opts) = some f.text)
    (hlog : f.debug ≠ 0 → OpenFits P (s.levelled f.debug) f.logFile.text c.openCalls)
    {addr : SockaddrIn} (haddr : HostPortText f.hostPort.text.chars addr) :
    ∃ g' s', getInit P s g c = some (forkEnd c.pid, g', s') ∧
      g'.debug = f.debug ∧ Holds g'.hostPort f.hostPort.text.chars ∧ g'.timeOut = f.timeOut ∧
      getDebugLevel s'.env = some f.debug.toInt ∧
      s' = (if f.debug = 0 then s.levelled f.debug
        else ((s.levelled f.debug).opened P f.logFile.text c.openCalls).2) ∧
      ∀ n as l, Transition.run (listenTurn g'.hostPort) (.start n) as = some l →
        0 ≤ l.listenFd → n.Opened l.net l.listenFd.toNat (listener addr) := by
  obtain ⟨g', s', hrun, hdebug, hhost, htime, hlevel, hlogged⟩ :=
    getInit_reads P hg hc f hfile hlog
  have hlen : f.hostPort.text.chars.length < 128 := Nat.lt_trans f.hostPort.fits (by decide)
  refine ⟨g', s', hrun, hdebug, hhost, htime, hlevel, hlogged, fun n as l hl hend => ?_⟩
  obtain ⟨hlistens, -⟩ := listens_run hhost hlen (listens_start n _) hl
  obtain ⟨k, -, hopen, -⟩ := hlistens.ends hend
  rw [addressOf_eq haddr] at hopen
  exact hopen

end Startup

/-- `Debug`, some blanks, and the end of the line. -/
def debugLine : IniLine where
  name := ⟨⟨[68, 101, 98, 117, 103], by decide⟩, List.all_eq_true.mp rfl, by decide, by decide⟩
  sep := [32, 32, 32]
  gap := [10]
  sep_space := List.all_eq_true.mp rfl
  sep_ne_nil := by decide
  gap_space := List.all_eq_true.mp rfl
  gap_ne_nil := by decide

/-- Level 3, a log file for each day of the week, port 7789 and 30 seconds. All four lines have
the name `Debug`, which no call looks at. -/
def weekIni : IniFile where
  blank := []
  blank_space := List.all_eq_true.mp rfl
  debugLine := debugLine
  debug := 3
  logLine := debugLine
  logFile := ⟨weekTemplate, List.all_eq_true.mp rfl, by decide, by decide⟩
  hostLine := debugLine
  hostPort := ⟨⟨[55, 55, 56, 57], by decide⟩, List.all_eq_true.mp rfl, by decide, by decide⟩
  timeLine := debugLine
  timeOut := 30
  rest := []

/-- `p -I a` -/
def weekCall : InitCall where
  argv0 := ⟨[112], by decide⟩
  opts := [.ini ⟨[97], by decide⟩]
  files := fun name => if name = [97] then some weekIni.text else none
  logFile := zeros 512
  openCalls := goodCalls
  pid := 0

def zeroSettings : Settings where
  debug := 0
  hostPort := zeros 40
  timeOut := 0
  progName := zeros 30
  iniFile := zeros 256
  cfgFile := zeros 256

theorem startup_listens_week : ∃ g s,
    getInit weekPlatform freshLogger zeroSettings weekCall = some (.returned 0, g, s) ∧
    Holds g.hostPort [55, 55, 56, 57] ∧ g.timeOut = 30 ∧ getDebugLevel s.env = some 3 ∧
    s.fds.get 2 ≠ none ∧
    ∀ n as l, Transition.run (listenTurn g.hostPort) (.start n) as = some l → 0 ≤ l.listenFd →
      l.net.fds.get l.listenFd.toNat = some (listener { sAddr := INADDR_ANY, port := 7789 }) := by
  have hsized : zeroSettings.Sized := ⟨zeros_length 40, zeros_length 256, zeros_length 256⟩
  have hfits : weekCall.Fits freshLogger.env :=
    ⟨by decide, by decide, by decide, by decide, by simp [weekCall, Opt.Fits], zeros_length 512⟩
  have hopen : OpenFits weekPlatform (freshLogger.levelled 3) weekTemplate goodCalls :=
    openFits_week _ (by decide)
  have haddr : HostPortText weekIni.hostPort.text.chars { sAddr := INADDR_ANY, port := 7789 } := by
    have hport : weekIni.hostPort.text.chars = printNat 7789 := by decide
    rw [hport]
    exact .port 7789 (by decide)
  obtain ⟨g, s, hrun, -, hhost, htime, hlevel, hlogged, hlistens⟩ :=
    startup_listens weekPlatform hsized hfits weekIni rfl (fun _ => hopen) haddr
  rw [if_neg (by decide)] at hlogged
  refine ⟨g, s, hrun, hhost, htime, hlevel, ?_, fun n as l hl hend => (hlistens n as l hl hend).now⟩
  rw [hlogged]
  exact (opened_stderr weekPlatform _ _ goodCalls_succeed).mpr (by decide)

end Netepoll
