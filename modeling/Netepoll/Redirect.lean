import Netepoll.LogNames

/-! Every outcome of `openLogFile`: what it returns, and what it leaves on descriptor 2 and
in the two variables of the log file. -/

namespace Netepoll

open CString Files

variable {τ κ : Type} [DecidableEq κ] (P : Platform τ κ)

/-! ## Outcomes -/

theorem opened_stopped (s : Logger τ κ) (t : Text) {o : OpenCalls}
    (ho : ¬ (o.dirReady = true ∧ o.fopen = true)) :
    s.opened P t o = (0, { s with env := savedEnv P s.now s.env t }) := by
  simp [Logger.opened, ho]

theorem opened_dup2 (s : Logger τ κ) (t : Text) {o : OpenCalls} (hdir : o.dirReady = true)
    (hopen : o.fopen = true) (hdup : o.dup2 = false) :
    s.opened P t o = (-1, (({ s with env := savedEnv P s.now s.env t } : Logger τ κ).fopen P
      (storedText P s.now (saveTemplate s.env t) t).chars).2.fclose s.fds.lowestFree) := by
  simp [Logger.opened, hdir, hopen, hdup]

/-! ## Descriptors -/

/-- Descriptor 2 has the file under `name`, and the others are as before. -/
structure Redirects (s s' : Logger τ κ) (name : List UInt8) : Prop where
  stderr : ∃ ino, s'.fds.get 2 = some (.file ino) ∧ s'.disk.entry (P.resolve name) = some ino
  others : ∀ d, d ≠ 2 → s'.fds.get d = s.fds.get d

theorem redirected_get_ne (s : Logger τ κ) (name : List UInt8) {d : Nat} (h : d ≠ 2) :
    (s.redirected P name).fds.get d = s.fds.get d := by
  simp only [Logger.redirected, Logger.fopen, Logger.dup2, Logger.fclose]
  by_cases hd : s.fds.lowestFree = d
  · rw [hd, Table.get_put_self, ← hd, Table.get_lowestFree]
  · rw [Table.get_put_ne _ _ hd, Table.get_put_ne _ _ (Ne.symm h), Table.get_put_ne _ _ hd]

theorem redirected_entry (s : Logger τ κ) (name : List UInt8) :
    (s.redirected P name).disk.entry (P.resolve name) =
      some (s.disk.openAppend (P.resolve name)).1 :=
  Disk.openAppend_entry _ _

theorem redirected_redirects {s : Logger τ κ} (name : List UInt8) (h : s.fds.lowestFree ≠ 2) :
    Redirects P s (s.redirected P name) name :=
  ⟨⟨_, (redirected_get_two P s name).trans (if_neg h), redirected_entry P s name⟩,
    fun _ hd => redirected_get_ne P s name hd⟩

/-- A successful `openLogFile` redirects descriptor 2 unless its `fopen` gets that very
number: then it closes it at the end. -/
theorem openLogFile_redirects_iff {s s' : Logger τ κ} {t : Text} {o : OpenCalls}
    (ho : o.Succeed) (hrun : openLogFile P s t.block o = some (0, s')) :
    Redirects P s s' (storedText P s.now (saveTemplate s.env t) t).chars ↔
      s.fds.lowestFree ≠ 2 := by
  rw [openLogFile_opened P s t.holds (Or.inl rfl), opened_succeed P s t ho] at hrun
  split at hrun
  · cases hrun
    constructor
    · rintro ⟨⟨ino, htwo, -⟩, -⟩ hfree
      rw [redirected_get_two, if_pos hfree] at htwo
      cases htwo
    · intro h
      obtain ⟨hstderr, hothers⟩ := redirected_redirects P
        (s := { s with env := savedEnv P s.now s.env t }) _ h
      exact ⟨hstderr, hothers⟩
  · cases hrun

/-- The log file of Monday, with a terminal on descriptors 0 to 2. -/
theorem openLogFile_redirects_iff_week :
    Redirects weekPlatform freshLogger (freshLogger.firstOpened weekPlatform weekTemplate)
      (storedText weekPlatform 0 (saveTemplate freshLogger.env weekTemplate) weekTemplate).chars :=
  (openLogFile_redirects_iff weekPlatform goodCalls_succeed
    (openLogFile_freshLogger (by decide) (by decide)
      (by rw [logName_weekTemplate]; decide))).mpr (by decide)

/-- Descriptors 0 and 1 are open, and 2 is not. -/
def noStderrLogger : Logger (Fin 7) (List UInt8) :=
  { freshLogger with fds := [some .other, some .other] }

theorem openFits_week (s : Logger (Fin 7) (List UInt8)) {o : OpenCalls} (ho : o.stat ≠ .noEntry) :
    OpenFits weekPlatform s weekTemplate o :=
  ⟨expands_of_le _ (by decide) (fun _ => by decide) fun _ => by decide, fun h => absurd h ho⟩

/-- `fopen` gets descriptor 2, and the `fclose` at the end closes it. -/
theorem not_openLogFile_redirects :
    ¬ ∀ (s s' : Logger (Fin 7) (List UInt8)) (t : Text) (o : OpenCalls), o.Succeed →
      openLogFile weekPlatform s t.block o = some (0, s') →
      Redirects weekPlatform s s'
        (storedText weekPlatform s.now (saveTemplate s.env t) t).chars := by
  intro hall
  have hrun := openLogFile_opened weekPlatform noStderrLogger weekTemplate.holds (Or.inl rfl)
    goodCalls
  rw [if_pos (openFits_week _ (by decide)), opened_succeed _ _ _ goodCalls_succeed] at hrun
  obtain ⟨⟨ino, htwo, -⟩, -⟩ := hall _ _ _ _ goodCalls_succeed hrun
  rw [redirected_get_two, if_pos (by decide)] at htwo
  cases htwo

/-! ## Failures -/

/-- Descriptor 2 and the two variables are as before. -/
structure SameLogging (s s' : Logger τ κ) : Prop where
  stderr : s'.fds.get 2 = s.fds.get 2
  logfile : s'.env nameLogfile = s.env nameLogfile
  current : s'.env nameLogfileNow = s.env nameLogfileNow

/-- Descriptor 2 has the file that the expansion of `t` names. -/
def LogsTo (s s' : Logger τ κ) (t : Text) : Prop :=
  ∃ ino, s'.fds.get 2 = some (.file ino) ∧
    s'.disk.entry (P.resolve (fullName P s.now (saveTemplate s.env t) t.chars)) = some ino

/-- The call returns. It reports -1 for a failure and leaves the logging state alone, and
reports 0 only with the log on descriptor 2. -/
def FailureContained (s : Logger τ κ) (t : Text) (o : OpenCalls) : Prop :=
  ∃ code s', openLogFile P s t.block o = some (code, s') ∧
    (¬ o.Succeed → code = -1 ∧ SameLogging s s') ∧ (code = 0 → LogsTo P s s' t)

omit [DecidableEq κ] in
/-- Nothing of a name that has to be expanded is lost on its way to `log_filename`. -/
def StoredWhole (now : τ) (env : Environ) (t : List UInt8) : Prop :=
  Marked t → (t.length : Int) ≤ intMax ∧ NameFits P now env t 511

omit [DecidableEq κ] in
/-- A template that is copied as it is and the `mkdir` command fit in their arrays. -/
def ArraysSuffice (s : Logger τ κ) (t : Text) (o : OpenCalls) : Prop :=
  (¬ Marked t.chars → t.chars.length < 512) ∧
    DirFits (fullName P s.now (saveTemplate s.env t) t.chars) o

omit [DecidableEq κ] in
/-- The calls succeed, and `fopen` does not get descriptor 2. -/
structure GoesThrough (s : Logger τ κ) (o : OpenCalls) : Prop where
  succeed : o.Succeed
  notStderr : s.fds.lowestFree ≠ 2

omit [DecidableEq κ] in
/-- Only `dup2` fails, and the variables already have the template and the name. -/
structure OnlyDup2Fails (s : Logger τ κ) (t : Text) (o : OpenCalls) : Prop where
  dirReady : o.dirReady = true
  fopen : o.fopen = true
  dup2 : o.dup2 = false
  logfile : s.env nameLogfile ≠ none
  current : (s.env nameLogfileNow).map Text.chars =
    if fullName P s.now (saveTemplate s.env t) t.chars ≠ t.chars then
      some (fullName P s.now (saveTemplate s.env t) t.chars)
    else none

omit [DecidableEq κ] in
theorem storedText_whole {now : τ} {env : Environ} {t : Text}
    (h : StoredWhole P now env t.chars) :
    (storedText P now env t).chars = fullName P now env t.chars := by
  show storedName P now env t.chars 511 = _
  by_cases hm : Marked t.chars
  · exact storedName_of_room P t.noNul (fun hm => (h hm).1) (h hm).2
  · rw [storedName, if_neg hm, fullName_plain P now env hm]

omit [DecidableEq κ] in
theorem openFits_whole {s : Logger τ κ} {t : Text} {o : OpenCalls}
    (h : StoredWhole P s.now (saveTemplate s.env t) t.chars) :
    OpenFits P s t o ↔ ArraysSuffice P s t o := by
  rw [OpenFits, ArraysSuffice, storedText_whole P h]
  refine and_congr_left fun _ => ⟨fun hexp hm => ?_, fun hlen => ?_⟩
  · rwa [Expands, if_neg hm] at hexp
  · exact expands_of_le _ t.noNul (fun hm => (h hm).1) hlen

theorem sameLogging_dup2 {s : Logger τ κ} {t : Text}
    (h : StoredWhole P s.now (saveTemplate s.env t) t.chars) (name : List UInt8) :
    SameLogging s ((({ s with env := savedEnv P s.now s.env t } : Logger τ κ).fopen P
        name).2.fclose s.fds.lowestFree) ↔
      s.env nameLogfile ≠ none ∧ (s.env nameLogfileNow).map Text.chars =
        if fullName P s.now (saveTemplate s.env t) t.chars ≠ t.chars then
          some (fullName P s.now (saveTemplate s.env t) t.chars)
        else none := by
  have hlogfile : savedEnv P s.now s.env t nameLogfile = s.env nameLogfile ↔
      s.env nameLogfile ≠ none := by
    rw [savedEnv_logfile]
    cases s.env nameLogfile with
    | none => simp
    | some l => simp
  rw [← hlogfile, ← storedText_whole P h, ← savedEnv_now P s.now s.env t, Text.map_chars_inj]
  constructor
  · exact fun h => ⟨h.logfile, h.current.symm⟩
  · rintro ⟨hl, hn⟩
    refine ⟨?_, hl, hn.symm⟩
    simp only [Logger.fopen, Logger.fclose]
    by_cases htwo : s.fds.lowestFree = 2
    · rw [htwo, Table.get_put_self, ← htwo, Table.get_lowestFree]
    · rw [Table.get_put_ne _ _ htwo, Table.get_put_ne _ _ htwo]

theorem logsTo_redirected_iff {s : Logger τ κ} {t : Text} :
    LogsTo P s (({ s with env := savedEnv P s.now s.env t } : Logger τ κ).redirected P
        (fullName P s.now (saveTemplate s.env t) t.chars)) t ↔ s.fds.lowestFree ≠ 2 := by
  have htwo := redirected_get_two P ({ s with env := savedEnv P s.now s.env t } : Logger τ κ)
    (fullName P s.now (saveTemplate s.env t) t.chars)
  have hentry := redirected_entry P ({ s with env := savedEnv P s.now s.env t } : Logger τ κ)
    (fullName P s.now (saveTemplate s.env t) t.chars)
  constructor
  · rintro ⟨ino, hino, -⟩ hfree
    rw [htwo, if_pos hfree] at hino
    cases hino
  · intro hfree
    exact ⟨_, htwo.trans (if_neg hfree), hentry⟩

/-- Where the name is stored whole, failures are reported and contained if and only if
nothing fails, or only `dup2` fails with nothing left to change. -/
theorem failureContained_iff (s : Logger τ κ) (t : Text) (o : OpenCalls)
    (hwhole : StoredWhole P s.now (saveTemplate s.env t) t.chars) :
    FailureContained P s t o ↔
      ArraysSuffice P s t o ∧ (GoesThrough s o ∨ OnlyDup2Fails P s t o) := by
  rw [FailureContained, openLogFile_opened P s t.holds (Or.inl rfl), ← openFits_whole P hwhole]
  by_cases hfit : ¬ OpenFits P s t o
  · rw [if_neg hfit]
    exact iff_of_false (fun ⟨_, _, h, _⟩ => by cases h) (fun h => hfit h.1)
  rw [not_not] at hfit
  rw [if_pos hfit]
  by_cases hready : ¬ (o.dirReady = true ∧ o.fopen = true)
  · rw [opened_stopped P s t hready]
    refine iff_of_false ?_ ?_
    · rintro ⟨code, s', h, hfail, -⟩
      cases h
      exact absurd (hfail fun ho => hready ⟨ho.dirReady, ho.fopen⟩).1 (by decide)
    · rintro ⟨-, h | h⟩
      · exact hready ⟨h.succeed.dirReady, h.succeed.fopen⟩
      · exact hready ⟨h.dirReady, h.fopen⟩
  obtain ⟨hdir, hopen⟩ := not_not.mp hready
  cases hdup : o.dup2 with
  | true =>
    have ho : o.Succeed := ⟨hdir, hopen, hdup⟩
    rw [opened_succeed P s t ho, storedText_whole P hwhole]
    constructor
    · rintro ⟨code, s', h, -, hlogs⟩
      cases h
      exact ⟨hfit, Or.inl ⟨ho, (logsTo_redirected_iff P).mp (hlogs rfl)⟩⟩
    · rintro ⟨-, h | h⟩
      · exact ⟨0, _, rfl, fun hno => absurd ho hno, fun _ =>
          (logsTo_redirected_iff P).mpr h.notStderr⟩
      · rw [h.dup2] at hdup
        cases hdup
  | false =>
    have hno : ¬ o.Succeed := fun ho => by
      rw [ho.dup2] at hdup
      cases hdup
    rw [opened_dup2 P s t hdir hopen hdup]
    constructor
    · rintro ⟨code, s', h, hfail, -⟩
      cases h
      obtain ⟨hl, hn⟩ := (sameLogging_dup2 P hwhole _).mp (hfail hno).2
      exact ⟨hfit, Or.inr ⟨hdir, hopen, hdup, hl, hn⟩⟩
    · rintro ⟨-, h | h⟩
      · exact absurd h.succeed hno
      · exact ⟨-1, _, rfl, fun _ => ⟨rfl, (sameLogging_dup2 P hwhole _).mpr ⟨h.logfile, h.current⟩⟩,
          fun h0 => absurd h0 (by decide)⟩

/-- `l%u` where nothing fails. -/
theorem failureContained_iff_week :
    FailureContained weekPlatform freshLogger weekTemplate goodCalls := by
  refine (failureContained_iff weekPlatform freshLogger weekTemplate goodCalls fun _ =>
    ⟨by decide, ?_⟩).mpr
    ⟨⟨fun _ => by decide, fun h => nomatch h⟩, Or.inl ⟨goodCalls_succeed, by decide⟩⟩
  exact nameFits_of_no_dollar weekPlatform (by decide) (by decide) (by decide)

/-- `stat` fails for another reason than a missing directory. -/
theorem not_failureContained :
    ¬ ∀ (s : Logger (Fin 7) (List UInt8)) (t : Text) (o : OpenCalls),
      FailureContained weekPlatform s t o := by
  intro hall
  obtain ⟨code, s', hrun, hfail, -⟩ := hall freshLogger weekTemplate ⟨.error, true, true, true⟩
  rw [openLogFile_opened _ _ weekTemplate.holds (Or.inl rfl),
    if_pos (openFits_week _ (by decide)), opened_stopped _ _ _ (by decide)] at hrun
  cases hrun
  exact absurd (hfail fun ho => absurd ho.dirReady (by decide)).1 (by decide)

end Netepoll
