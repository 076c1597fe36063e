import Netepoll.Redirect

/-! Which log file a program writes to that calls `openLogFile` more than once, or inherits
the variables of the log file. The template of the latest call and the name that descriptor
2 was opened with last are ghost state. -/

namespace Netepoll

open CString Files Transition

variable {τ κ : Type} (P : Platform τ κ)

structure LogProgram (τ κ : Type) where
  logger : Logger τ κ
  /-- the template of the latest `openLogFile` that the program called -/
  latest : Option Text
  /-- the name that descriptor 2 was opened with last -/
  opened : List UInt8

def LogProgram.latestAfter (s : LogProgram τ κ) : LogAction τ → Option Text
  | .openLogFile t _ => some t
  | _ => s.latest

def LogProgram.openedAfter (s : LogProgram τ κ) : LogAction τ → List UInt8
  | .openLogFile t _ =>
    (storedText P s.logger.now (saveTemplate s.logger.env t) t).chars
  | .lprintf _ _ => (s.logger.reopens P).getD s.opened
  | _ => s.opened

variable [DecidableEq κ]

def programStep (s : LogProgram τ κ) (a : LogAction τ) : Option (LogProgram τ κ) :=
  (logStep P s.logger a).map fun logger => ⟨logger, s.latestAfter a, s.openedAfter P a⟩

/-- Calls of `openLogFile` whose opens succeed, calls of `lprintf` with something to write
whose opens succeed, and events that leave descriptor 2, the two variables and the names of
the files alone. -/
def Ordinary (s : LogProgram τ κ) : LogAction τ → Prop
  | .openLogFile _ o => o.Succeed
  | .lprintf record o => record ≠ [] ∧ (s.logger.reopens P ≠ none → o.Succeed)
  | .clock _ => True
  | .environ name _ => name ≠ nameLogfile ∧ name ≠ nameLogfileNow
  | .create _ => True
  | .unlink _ => False
  | .descriptors fds => fds.get 2 = s.logger.fds.get 2

/-- The record is added to the file that the expansion of `t` names, and nothing to any
other. -/
def RecordLands (s : Logger τ κ) (t : Text) (record : List UInt8) (o : OpenCalls) : Prop :=
  ∃ s' ino, lprintf P s record o = some (0, s') ∧
    s'.disk.entry (P.resolve (fullName P s.now s.env t.chars)) = some ino ∧
    s'.disk.content = Function.update s.disk.content ino (s.disk.content ino ++ record)

def LandsLatest (s : LogProgram τ κ) : LogAction τ → Prop
  | .lprintf record o => ∀ t, s.latest = some t → RecordLands P s.logger t record o
  | _ => True

omit [DecidableEq κ] in
/-- Descriptor 2 is open when `lprintf` writes. With `__LOGFILE_NOW` set it is opened again
if it is closed, and that fails where `fopen` gets descriptor 2 itself. -/
def Logger.StderrOpen (s : Logger τ κ) : Prop :=
  match s.env nameLogfileNow with
  | none => s.fds.get 2 ≠ none
  | some _ => s.fds.lowestFree ≠ 2

omit [DecidableEq κ] in
/-- The latest template expands to the file of the name that `lprintf` goes by: with
`__LOGFILE_NOW` set, what it makes of the template in `__LOGFILE`, which has room in its
array, as has the `mkdir` command if one is needed; without, the name of the file that is
open. -/
def NamesLatest (s : LogProgram τ κ) : LogAction τ → Prop
  | .lprintf _ o => ∀ t, s.latest = some t → s.logger.StderrOpen ∧
      match s.logger.env nameLogfileNow with
      | none => P.resolve s.opened = P.resolve (fullName P s.logger.now s.logger.env t.chars)
      | some _ => ∃ l, s.logger.env nameLogfile = some l ∧ l.chars.length ≤ 511 ∧
          (∀ name, s.logger.reopens P = some name → DirFits name o) ∧
          P.resolve (storedText P s.logger.now s.logger.env l).chars =
            P.resolve (fullName P s.logger.now s.logger.env t.chars)
  | _ => True

omit [DecidableEq κ] in
/-- Descriptor 2, if it is open, has the file under the name it was opened with, which is the
one in `__LOGFILE_NOW` if there is one. -/
structure OpenedLast (s : LogProgram τ κ) : Prop where
  target : s.logger.fds.get 2 ≠ none → ∃ ino, s.logger.fds.get 2 = some (.file ino) ∧
    s.logger.disk.entry (P.resolve s.opened) = some ino
  current : ∀ name, s.logger.env nameLogfileNow = some name → name.chars = s.opened

/-! ## What lprintf does before it writes -/

/-- `openLogFile` leaves descriptor 2 closed if its `fopen` gets that number. -/
theorem opened_stderr (s : Logger τ κ) (t : Text) {o : OpenCalls} (ho : o.Succeed) :
    (s.opened P t o).2.fds.get 2 ≠ none ↔ s.fds.lowestFree ≠ 2 := by
  rw [opened_succeed P s t ho]
  show (Logger.redirected P _ _).fds.get 2 ≠ none ↔ _
  rw [redirected_get_two]
  show (if s.fds.lowestFree = 2 then none else _) ≠ none ↔ _
  split
  · next hfree => exact iff_of_false (fun h => h rfl) (fun h => h hfree)
  · next hfree => exact iff_of_true (Option.some_ne_none _) hfree

theorem openedLast_opened (s : LogProgram τ κ) (t : Text) {o : OpenCalls} (ho : o.Succeed)
    (latest : Option Text) :
    OpenedLast P ⟨(s.logger.opened P t o).2, latest,
        (storedText P s.logger.now (saveTemplate s.logger.env t) t).chars⟩ ∧
      (s.logger.opened P t o).2.disk.content = s.logger.disk.content := by
  have hopen := opened_stderr P s.logger t ho
  rw [opened_succeed P s.logger t ho] at hopen ⊢
  refine ⟨⟨fun h => (redirected_redirects P _ (hopen.mp h)).stderr, fun name hname => ?_⟩,
    Disk.openAppend_content _ _⟩
  have hnow := savedEnv_now P s.logger.now s.logger.env t
  rw [show savedEnv P s.logger.now s.logger.env t nameLogfileNow = some name from hname,
    Option.map_some] at hnow
  split at hnow
  · exact Option.some.inj hnow
  · cases hnow

omit [DecidableEq κ] in
/-- A closed descriptor 2 is opened again. -/
theorem reopens_of_closed {s : Logger τ κ} {current l : Text}
    (hn : s.env nameLogfileNow = some current) (hl : s.env nameLogfile = some l)
    (hclosed : s.fds.get 2 = none) : s.reopens P ≠ none := by
  have hlost : s.stderrLost P (storedText P s.now s.env l).chars = true := by
    rw [Logger.stderrLost, hclosed]
  rw [reopens_eq P hn hl, if_pos (Or.inr hlost)]
  exact Option.some_ne_none _

/-- The state in which `lprintf` writes, and the name it has open then. -/
theorem openedLast_switch {s : LogProgram τ κ} (h : OpenedLast P s) {record : List UInt8}
    {o : OpenCalls} (ha : Ordinary P s (.lprintf record o)) {u : Logger τ κ}
    (hu : switchLogFile P s.logger o = some u) :
    OpenedLast P ⟨u, s.latest, s.openedAfter P (.lprintf record o)⟩ ∧
      u.disk.content = s.logger.disk.content ∧
      (u.fds.get 2 ≠ none ↔ s.logger.StderrOpen) := by
  cases hn : s.logger.env nameLogfileNow with
  | none =>
    have hnone : s.logger.reopens P = none := by rw [Logger.reopens, hn]
    rw [switchLogFile, hn] at hu
    cases hu
    rw [LogProgram.openedAfter, hnone, Logger.StderrOpen, hn]
    exact ⟨h, rfl, Iff.rfl⟩
  | some current =>
    cases hl : s.logger.env nameLogfile with
    | none =>
      rw [switchLogFile, hn, hl] at hu
      cases hu
    | some l =>
      rw [switchLogFile_reopens P hn hl] at hu
      rw [Logger.StderrOpen, hn]
      split at hu
      · cases hu
        rw [LogProgram.openedAfter]
        rcases reopens_cases P hn hl with hname | ⟨hnone, -⟩
        · have ho := ha.2 (by rw [hname]; exact Option.some_ne_none _)
          obtain ⟨hlast, hsame⟩ := openedLast_opened P s l ho s.latest
          rw [hname, if_neg (Option.some_ne_none _), ← storedText_saveTemplate P hl]
          exact ⟨hlast, hsame, opened_stderr P s.logger l ho⟩
        · have hopen : s.logger.fds.get 2 ≠ none := fun hclosed =>
            reopens_of_closed P hn hl hclosed hnone
          rw [hnone, if_pos rfl]
          exact ⟨h, rfl, iff_of_true hopen (Table.lowestFree_ne hopen)⟩
      · cases hu

/-- Where `lprintf` comes to its first write. -/
theorem switchLogFile_returns_iff {s : LogProgram τ κ} (h : OpenedLast P s) (o : OpenCalls)
    (full : List UInt8) :
    (∃ u, switchLogFile P s.logger o = some u) ∧
        P.resolve ((s.logger.reopens P).getD s.opened) = P.resolve full ↔
      match s.logger.env nameLogfileNow with
      | none => P.resolve s.opened = P.resolve full
      | some _ => ∃ l, s.logger.env nameLogfile = some l ∧ l.chars.length ≤ 511 ∧
          (∀ name, s.logger.reopens P = some name → DirFits name o) ∧
          P.resolve (storedText P s.logger.now s.logger.env l).chars = P.resolve full := by
  cases hn : s.logger.env nameLogfileNow with
  | none =>
    have hnone : s.logger.reopens P = none := by rw [Logger.reopens, hn]
    rw [switchLogFile, hn, hnone]
    exact and_iff_right ⟨_, rfl⟩
  | some current =>
    cases hl : s.logger.env nameLogfile with
    | none =>
      rw [switchLogFile, hn, hl]
      refine iff_of_false ?_ ?_
      · rintro ⟨⟨u, hu⟩, -⟩
        cases hu
      · rintro ⟨l, hl, -⟩
        cases hl
    | some l =>
      have hopened : (s.logger.reopens P).getD s.opened =
          (storedText P s.logger.now s.logger.env l).chars := by
        rcases reopens_cases P hn hl with hname | ⟨hnone, hcurrent⟩
        · rw [hname, Option.getD_some]
        · rw [hnone, Option.getD_none, hcurrent, h.current current hn]
      rw [hopened, switchLogFile_reopens P hn hl]
      constructor
      · rintro ⟨⟨u, hu⟩, hname⟩
        split at hu
        · next hfits => exact ⟨l, rfl, hfits.1, hfits.2, hname⟩
        · cases hu
      · rintro ⟨l', hl', hlen, hdir, hname⟩
        cases hl'
        rw [if_pos ⟨hlen, hdir⟩]
        exact ⟨⟨_, rfl⟩, hname⟩

/-! ## Writing -/

omit [DecidableEq κ] in
theorem writeStderr_file {u : Logger τ κ} {ino : Nat} (h : u.fds.get 2 = some (.file ino))
    (record : List UInt8) :
    u.writeStderr record = { u with disk := u.disk.append ino record } := by
  rw [Logger.writeStderr, h]

omit [DecidableEq κ] in
/-- Without descriptor 2 nothing is written, and nothing changes but `__LOGERR`. -/
theorem writeStderr_closed {u : Logger τ κ} (h : u.fds.get 2 = none) (record : List UInt8) :
    (u.writeStderr record).disk = u.disk ∧ (u.writeStderr record).fds = u.fds ∧
      (u.writeStderr record).env nameLogfileNow = u.env nameLogfileNow := by
  rw [Logger.writeStderr, h]
  dsimp only
  split
  · exact ⟨rfl, rfl, rfl⟩
  · have hsame : setenv u.env nameLogerr ⟨[49], by decide⟩ nameLogfileNow =
        u.env nameLogfileNow := Function.update_of_ne (by decide) _ _
    exact ⟨rfl, rfl, hsame⟩

omit [DecidableEq κ] in
theorem openedLast_write {s : LogProgram τ κ} (h : OpenedLast P s) (record : List UInt8) :
    OpenedLast P { s with logger := s.logger.writeStderr record } := by
  by_cases hopen : s.logger.fds.get 2 = none
  · obtain ⟨-, hfds, hsame⟩ := writeStderr_closed hopen record
    exact ⟨fun h => absurd (hfds ▸ hopen) h, fun name hname => h.current name (hsame ▸ hname)⟩
  · obtain ⟨ino, htwo, hentry⟩ := h.target hopen
    rw [writeStderr_file htwo record]
    refine ⟨fun _ => ⟨ino, htwo, ?_⟩, h.current⟩
    show (s.logger.disk.append ino record).entry _ = some ino
    rw [Disk.append_entry, hentry]

omit [DecidableEq κ] in
/-- Records go to the file of the name that was opened last, if descriptor 2 is open, and so
to the file of `full` if and only if that is the same file. -/
theorem write_lands_iff {s : LogProgram τ κ} (h : OpenedLast P s) {record : List UInt8}
    (hrecord : record ≠ []) (full : List UInt8) :
    (∃ ino, (s.logger.writeStderr record).disk.entry (P.resolve full) = some ino ∧
      (s.logger.writeStderr record).disk.content =
        Function.update s.logger.disk.content ino (s.logger.disk.content ino ++ record)) ↔
      s.logger.fds.get 2 ≠ none ∧ P.resolve s.opened = P.resolve full := by
  by_cases hopen : s.logger.fds.get 2 = none
  · refine iff_of_false ?_ fun hno => hno.1 hopen
    rintro ⟨ino, -, hcontent⟩
    rw [(writeStderr_closed hopen record).1] at hcontent
    have hgrown := congrFun hcontent ino
    rw [Function.update_self, List.self_eq_append_right] at hgrown
    exact hrecord hgrown
  obtain ⟨ino, htwo, hentry⟩ := h.target hopen
  have hborn := s.logger.disk.entry_lt _ _ hentry
  have hcontent : (s.logger.writeStderr record).disk.content =
      Function.update s.logger.disk.content ino (s.logger.disk.content ino ++ record) := by
    rw [writeStderr_file htwo record]
    exact Disk.append_content hborn record
  have hentries : (s.logger.writeStderr record).disk.entry = s.logger.disk.entry := by
    rw [writeStderr_file htwo record]
    exact Disk.append_entry _ _ _
  rw [hcontent, hentries, and_iff_right hopen]
  constructor
  · rintro ⟨ino', hentry', hsame⟩
    obtain rfl := update_append_inj hrecord hsame
    exact s.logger.disk.entry_inj _ _ _ hentry hentry'
  · intro hname
    exact ⟨ino, hname ▸ hentry, rfl⟩

/-! ## Runs -/

/-- Until the program calls `openLogFile` nothing is asked of the state. -/
def Opened (s : LogProgram τ κ) : Prop := s.latest = none ∨ OpenedLast P s

theorem landsLatest_iff {s : LogProgram τ κ} {a : LogAction τ} (h : Opened P s)
    (ha : Ordinary P s a) : LandsLatest P s a ↔ NamesLatest P s a := by
  cases a with
  | lprintf record o =>
    rcases h with hnone | h
    · simp [LandsLatest, NamesLatest, hnone]
    refine forall_congr' fun t => imp_congr_right fun ht => ?_
    rw [← switchLogFile_returns_iff P h o]
    constructor
    · rintro ⟨s', ino, hrun, hentry, hcontent⟩
      rw [lprintf] at hrun
      obtain ⟨u, hu, hs'⟩ := Option.bind_eq_some_iff.mp hrun
      cases hs'
      obtain ⟨hready, hsame, hopen⟩ := openedLast_switch P h ha hu
      rw [← hsame] at hcontent
      obtain ⟨htwo, hname⟩ := (write_lands_iff P hready ha.1 _).mp ⟨ino, hentry, hcontent⟩
      exact ⟨hopen.mp htwo, ⟨u, hu⟩, hname⟩
    · rintro ⟨hstderr, ⟨u, hu⟩, hname⟩
      obtain ⟨hready, hsame, hopen⟩ := openedLast_switch P h ha hu
      obtain ⟨ino, hentry, hcontent⟩ :=
        (write_lands_iff P hready ha.1 _).mpr ⟨hopen.mpr hstderr, hname⟩
      refine ⟨u.writeStderr record, ino, ?_, hentry, ?_⟩
      · rw [lprintf, hu]
        rfl
      · rw [← hsame]
        exact hcontent
  | _ => exact Iff.rfl

theorem opened_step {s s' : LogProgram τ κ} {a : LogAction τ} (h : Opened P s)
    (ha : Ordinary P s a) (hs : programStep P s a = some s') : Opened P s' := by
  obtain ⟨logger, hlog, rfl⟩ := Option.map_eq_some_iff.mp hs
  cases a with
  | openLogFile t o =>
    rw [logStep, openLogFile_opened P s.logger t.holds (Or.inl rfl)] at hlog
    split at hlog
    · cases hlog
      exact Or.inr (openedLast_opened P s t ha (some t)).1
    · cases hlog
  | lprintf record o =>
    rcases h with hnone | h
    · exact Or.inl hnone
    obtain ⟨⟨code, l⟩, hrun, rfl⟩ := Option.map_eq_some_iff.mp hlog
    rw [lprintf] at hrun
    obtain ⟨u, hu, hl⟩ := Option.bind_eq_some_iff.mp hrun
    cases hl
    exact Or.inr (openedLast_write P (openedLast_switch P h ha hu).1 record)
  | clock now =>
    cases hlog
    exact h.imp_right fun h => ⟨h.target, h.current⟩
  | environ name value =>
    cases hlog
    refine h.imp_right fun h => ⟨h.target, fun current hc => h.current current ?_⟩
    exact (Function.update_of_ne ha.2.symm _ _).symm.trans hc
  | create path =>
    cases hlog
    refine h.imp_right fun h => ⟨fun hopen => ?_, h.current⟩
    obtain ⟨ino, htwo, hentry⟩ := h.target hopen
    exact ⟨ino, htwo, Disk.create_entry hentry _⟩
  | unlink path => exact absurd ha id
  | descriptors fds =>
    cases hlog
    refine h.imp_right fun h => ⟨fun hopen => ?_, h.current⟩
    obtain ⟨ino, htwo, hentry⟩ := h.target (ha ▸ hopen)
    exact ⟨ino, ha.trans htwo, hentry⟩

/-- From any state of the variables, whatever the program calls: every `lprintf` adds its
record to the file that the latest template names if and only if descriptor 2 is open then
and that is the file of the name that `lprintf` goes by. -/
theorem landsLatest_along_iff {s : LogProgram τ κ} (hlatest : s.latest = none)
    {as : List (LogAction τ)} (hordinary : Along (programStep P) (Ordinary P) s as) :
    Along (programStep P) (LandsLatest P) s as ↔ Along (programStep P) (NamesLatest P) s as :=
  along_iff_along (fun _ _ _ h ha hs => opened_step P h ha hs)
    (fun _ _ h ha => landsLatest_iff P h ha) (Or.inl hlatest) hordinary

/-! ## One template and two -/

omit [DecidableEq κ] in
/-- It is enough that `__LOGFILE` has the latest template, and that its expansion fits. -/
theorem namesLatest_of_template {s : LogProgram τ κ} {t current : Text}
    (hlatest : s.latest = some t) (hn : s.logger.env nameLogfileNow = some current)
    (hl : s.logger.env nameLogfile = some t) (hlen : t.chars.length ≤ 511)
    (hfits : NameFits P s.logger.now s.logger.env t.chars 511)
    (hfree : s.logger.fds.lowestFree ≠ 2) (record : List UInt8) {o : OpenCalls}
    (ho : o.stat ≠ .noEntry) : NamesLatest P s (.lprintf record o) := by
  intro u hu
  rw [hlatest] at hu
  cases hu
  have hint : (t.chars.length : Int) ≤ intMax := Int.le_trans (Int.ofNat_le.mpr hlen) (by decide)
  rw [Logger.StderrOpen, hn]
  refine ⟨hfree, t, hl, hlen, fun name _ h => absurd h ho, ?_⟩
  exact congrArg P.resolve (storedName_of_room P t.noNul (fun _ => hint) hfits)

/-- `m%u` -/
def otherTemplate : Text := ⟨[109, 37, 117], by decide⟩

/-- A letter and the day of the week. -/
theorem nameFits_week {c : UInt8} (h36 : c ≠ 36) (h37 : c ≠ 37) (now : Fin 7) (env : Environ) :
    NameFits weekPlatform now env [c, 37, 117] 511 ∧
      fullName weekPlatform now env [c, 37, 117] = [c, UInt8.ofNat (49 + now)] := by
  have hno : 36 ∉ [c, 37, 117] := by simp [h36.symm]
  have hname : weekPlatform.strftime now [c, 37, 117] = [c, UInt8.ofNat (49 + now)] := by
    have hplain := weekday.eq_2 now c [37, 117] (by simp [h37])
    exact hplain
  refine ⟨nameFits_of_no_dollar weekPlatform hno (by simp) ?_, ?_⟩
  · rw [hname]
    simp
  · rw [fullName_no_dollar weekPlatform now env hno, hname]

/-- The state after a call with one of the two templates. -/
def LogProgram.afterOpen (s : LogProgram (Fin 7) (List UInt8)) (t : Text) :
    LogProgram (Fin 7) (List UInt8) :=
  ⟨(s.logger.opened weekPlatform t goodCalls).2, some t,
    (storedText weekPlatform s.logger.now (saveTemplate s.logger.env t) t).chars⟩

theorem programStep_open (s : LogProgram (Fin 7) (List UInt8)) {t : Text}
    (h : t.chars.length < 512) :
    programStep weekPlatform s (.openLogFile t goodCalls) = some (s.afterOpen t) := by
  have hint : (t.chars.length : Int) ≤ intMax :=
    Int.le_trans (Int.ofNat_le.mpr (Nat.le_of_lt h)) (by decide)
  have hfits : OpenFits weekPlatform s.logger t goodCalls :=
    ⟨expands_of_le _ t.noNul (fun _ => hint) fun _ => h, fun hstat => nomatch hstat⟩
  rw [programStep, logStep, openLogFile_opened weekPlatform s.logger t.holds (Or.inl rfl),
    if_pos hfits]
  rfl

/-- Nothing is logged yet. -/
def freshProgram : LogProgram (Fin 7) (List UInt8) := ⟨freshLogger, none, []⟩

theorem storedText_week {c : UInt8} (h36 : c ≠ 36) (h37 : c ≠ 37) (now : Fin 7) (env : Environ)
    {t : Text} (ht : t.chars = [c, 37, 117]) :
    (storedText weekPlatform now env t).chars = [c, UInt8.ofNat (49 + now)] := by
  obtain ⟨hfits, hname⟩ := nameFits_week h36 h37 now env
  have hint : (t.chars.length : Int) ≤ intMax := by
    rw [ht]
    simp [intMax]
  rw [← ht] at hfits hname
  show storedName weekPlatform now env t.chars 511 = _
  rw [storedName_of_room weekPlatform t.noNul (fun _ => hint) hfits, hname]

/-- The name differs from the template, so it is kept for `lprintf`. -/
theorem afterOpen_now {s : LogProgram (Fin 7) (List UInt8)} {c : UInt8} (h36 : c ≠ 36)
    (h37 : c ≠ 37) {t : Text} (ht : t.chars = [c, 37, 117]) :
    ∃ current, (s.afterOpen t).logger.env nameLogfileNow = some current := by
  have hnow := savedEnv_now weekPlatform s.logger.now s.logger.env t
  rw [storedText_week h36 h37 _ _ ht, if_pos (by rw [ht]; simp)] at hnow
  obtain ⟨current, hcurrent, -⟩ := Option.map_eq_some_iff.mp hnow
  exact ⟨current, (congrFun (opened_env ..) _).trans hcurrent⟩

theorem afterOpen_logfile (s : LogProgram (Fin 7) (List UInt8)) (t : Text) :
    (s.afterOpen t).logger.env nameLogfile = some ((s.logger.env nameLogfile).getD t) :=
  (congrFun (opened_env ..) _).trans (savedEnv_logfile ..)

theorem openedLast_afterOpen (s : LogProgram (Fin 7) (List UInt8)) (t : Text) :
    OpenedLast weekPlatform (s.afterOpen t) :=
  (openedLast_opened weekPlatform s t goodCalls_succeed (some t)).1

/-- The log file of Monday, the end of the day, a record for the log file of Tuesday. -/
theorem landsLatest_along_iff_week :
    Along (programStep weekPlatform) (LandsLatest weekPlatform) freshProgram
      [.openLogFile weekTemplate goodCalls, .clock 1, .lprintf [10, 65] goodCalls] := by
  have hordinary : Along (programStep weekPlatform) (Ordinary weekPlatform) freshProgram
      [.openLogFile weekTemplate goodCalls, .clock 1, .lprintf [10, 65] goodCalls] :=
    ⟨goodCalls_succeed, fun _ _ => ⟨trivial, fun _ _ =>
      ⟨⟨by decide, fun _ => goodCalls_succeed⟩, fun _ _ => trivial⟩⟩⟩
  refine (landsLatest_along_iff weekPlatform rfl hordinary).mpr
    ⟨trivial, fun u hu => ⟨trivial, fun v hv => ⟨?_, fun _ _ => trivial⟩⟩⟩
  rw [programStep_open _ (by decide)] at hu
  cases hu
  cases hv
  obtain ⟨current, hcurrent⟩ := afterOpen_now (s := freshProgram) (c := 108) (by decide)
    (by decide) (t := weekTemplate) rfl
  apply namesLatest_of_template weekPlatform (t := weekTemplate)
  · rfl
  · exact hcurrent
  · exact afterOpen_logfile freshProgram weekTemplate
  · decide
  · exact (nameFits_week (by decide) (by decide) _ _).1
  · decide
  · decide

/-- After `l%u` and `m%u` the records go to the log file of the first template. -/
theorem not_landsLatest :
    ¬ ∀ (s : LogProgram (Fin 7) (List UInt8)) (as : List (LogAction (Fin 7))), s.latest = none →
      Along (programStep weekPlatform) (Ordinary weekPlatform) s as →
      Along (programStep weekPlatform) (LandsLatest weekPlatform) s as := by
  intro hall
  have hsecond := openedLast_afterOpen (freshProgram.afterOpen weekTemplate) otherTemplate
  have hstep := programStep_open freshProgram (t := weekTemplate) (by decide)
  have hstep' := programStep_open (freshProgram.afterOpen weekTemplate) (t := otherTemplate)
    (by decide)
  have hlprintf : Ordinary weekPlatform ((freshProgram.afterOpen weekTemplate).afterOpen
      otherTemplate) (.lprintf [10, 65] goodCalls) := ⟨by decide, fun _ => goodCalls_succeed⟩
  have hlands := hall freshProgram [.openLogFile weekTemplate goodCalls,
    .openLogFile otherTemplate goodCalls, .lprintf [10, 65] goodCalls] rfl
    ⟨goodCalls_succeed, fun u hu => by
      rw [hstep] at hu
      cases hu
      refine ⟨goodCalls_succeed, fun v hv => ?_⟩
      rw [hstep'] at hv
      cases hv
      exact ⟨hlprintf, fun _ _ => trivial⟩⟩
  have hnames := (landsLatest_iff weekPlatform (Or.inr hsecond) hlprintf).mp
    ((hlands.2 _ hstep).2 _ hstep').1
  obtain ⟨-, hname⟩ := hnames otherTemplate rfl
  obtain ⟨current, hcurrent⟩ := afterOpen_now (s := freshProgram.afterOpen weekTemplate)
    (c := 109) (by decide) (by decide) (t := otherTemplate) rfl
  rw [hcurrent] at hname
  obtain ⟨l, hl, -, -, hsame⟩ := hname
  rw [afterOpen_logfile, afterOpen_logfile] at hl
  cases hl
  have hstored := storedText_week (c := 108) (by decide) (by decide)
    ((freshProgram.afterOpen weekTemplate).afterOpen otherTemplate).logger.now
    ((freshProgram.afterOpen weekTemplate).afterOpen otherTemplate).logger.env
    (t := weekTemplate) rfl
  have hfull := (nameFits_week (c := 109) (by decide) (by decide)
    ((freshProgram.afterOpen weekTemplate).afterOpen otherTemplate).logger.now
    ((freshProgram.afterOpen weekTemplate).afterOpen otherTemplate).logger.env).2
  have hhead := (hstored.symm.trans hsame).trans hfull
  exact absurd (List.cons.inj hhead).1 (by decide)

end Netepoll
