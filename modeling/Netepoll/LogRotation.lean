import Netepoll.Lib.Transition
import Netepoll.OpenLogFile

/-! Log rotation: `lprintf` calls with the events between them. Descriptor 2 keeps the file
that was opened under the name in `__LOGFILE_NOW`, which is still there or has lost its
name; the link count tells the two apart. -/

namespace Netepoll

open CString Files Transition

/-- What happens to the process: its own calls, and what comes between them. -/
inductive LogAction (τ : Type) where
  | openLogFile (t : Text) (o : OpenCalls)
  | lprintf (record : List UInt8) (o : OpenCalls)
  | clock (now : τ)
  | environ (name : List UInt8) (value : Option Text)
  | create (path : List UInt8)
  | unlink (path : List UInt8)
  /-- the rest of the program opens and closes descriptors -/
  | descriptors (fds : Table OpenFile)

variable {τ κ : Type} [DecidableEq κ] (P : Platform τ κ)

/-- One call or one event. A store outside an array has no result. -/
def logStep (s : Logger τ κ) : LogAction τ → Option (Logger τ κ)
  | .openLogFile t o => (openLogFile P s t.block o).map Prod.snd
  | .lprintf record o => (lprintf P s record o).map Prod.snd
  | .clock now => some { s with now := now }
  | .environ name value => some { s with env := Function.update s.env name value }
  | .create path => some { s with disk := s.disk.create (P.resolve path) }
  | .unlink path => some { s with disk := s.disk.unlink (P.resolve path) }
  | .descriptors fds => some { s with fds := fds }

/-- The name that `t` stands for now. -/
def Logger.expands (s : Logger τ κ) (t : Text) : List UInt8 := logName P s.now s.env t.chars

/-- `lprintf` finds that it has to open the log file again. -/
def Logger.Switches (s : Logger τ κ) (t : Text) : Prop :=
  (s.env nameLogfileNow).map Text.chars ≠ some (s.expands P t) ∨
    s.stderrLost P (s.expands P t) = true

instance (s : Logger τ κ) (t : Text) : Decidable (s.Switches P t) :=
  inferInstanceAs (Decidable (_ ∨ _))

/-- A call with an expansion that fits and is not the template, whose opens succeed; an
event that leaves descriptor 2 and the variables of the log file alone. -/
def Allowed (t : Text) (s : Logger τ κ) : LogAction τ → Prop
  | .openLogFile _ _ => False
  | .lprintf _ o =>
    (s.expands P t).length < 511 ∧ s.expands P t ≠ t.chars ∧ (s.Switches P t → o.Succeed)
  | .environ name _ => name ≠ nameLogfile ∧ name ≠ nameLogfileNow
  | .descriptors fds => fds.get 2 = s.fds.get 2
  | _ => True

/-- The record is added to the file that the expansion names, and nothing to any other. -/
def Lands (t : Text) (s : Logger τ κ) : LogAction τ → Prop
  | .lprintf record o => ∃ s' ino, lprintf P s record o = some (0, s') ∧
      s'.disk.entry (P.resolve (s.expands P t)) = some ino ∧
      s'.disk.content = Function.update s.disk.content ino (s.disk.content ino ++ record)
  | _ => True

/-- The template and, when it is needed, the `mkdir` command fit in their arrays. -/
def Fits (t : Text) (s : Logger τ κ) : LogAction τ → Prop
  | .lprintf _ o =>
    t.chars.length ≤ 511 ∧ (s.Switches P t → DirFits (s.expands P t) o)
  | _ => True

instance (t : Text) (s : Logger τ κ) (record : List UInt8) (o : OpenCalls) :
    Decidable (Fits P t s (.lprintf record o)) :=
  inferInstanceAs (Decidable (_ ∧ (_ → _)))

/-- Descriptor 2 has the file that was opened under the name in `__LOGFILE_NOW`. -/
structure Tracks (t : Text) (s : Logger τ κ) : Prop where
  logfile : s.env nameLogfile = some t
  current : ∃ name ino, s.env nameLogfileNow = some name ∧ s.fds.get 2 = some (.file ino) ∧
    s.disk.OpenedAt (P.resolve name.chars) ino

/-! ## What lprintf does before it writes -/

/-- The template does not fit in `src_filename`. -/
theorem switchLogFile_long {s : Logger τ κ} {t current : Text} (hl : s.env nameLogfile = some t)
    (hn : s.env nameLogfileNow = some current) (hlong : 511 < t.chars.length) (o : OpenCalls) :
    switchLogFile P s o = none := by
  rw [switchLogFile, hn]
  simp only [hl, Option.bind_eq_bind, Option.bind_some]
  rw [t.holds.strcpy_eq, zeros_length, if_neg (by omega), Option.bind_none]

omit [DecidableEq κ] in
/-- The name under which `lprintf` opens the log file again, if it does. -/
def Logger.reopens (s : Logger τ κ) : Option (List UInt8) :=
  match s.env nameLogfileNow, s.env nameLogfile with
  | some current, some l =>
    let name := (storedText P s.now s.env l).chars
    if name ≠ current.chars ∨ s.stderrLost P name = true then some name else none
  | _, _ => none

omit [DecidableEq κ] in
theorem storedText_saveTemplate {s : Logger τ κ} {l : Text} (hl : s.env nameLogfile = some l) :
    storedText P s.now (saveTemplate s.env l) l = storedText P s.now s.env l := by
  rw [saveTemplate_of_some hl]

omit [DecidableEq κ] in
theorem reopens_eq {s : Logger τ κ} {current l : Text}
    (hn : s.env nameLogfileNow = some current) (hl : s.env nameLogfile = some l) :
    s.reopens P = if (storedText P s.now s.env l).chars ≠ current.chars ∨
        s.stderrLost P (storedText P s.now s.env l).chars = true then
      some (storedText P s.now s.env l).chars else none := by
  rw [Logger.reopens, hn, hl]

omit [DecidableEq κ] in
/-- Either way `lprintf` goes by what it makes of the template in `__LOGFILE`. -/
theorem reopens_cases {s : Logger τ κ} {current l : Text}
    (hn : s.env nameLogfileNow = some current) (hl : s.env nameLogfile = some l) :
    s.reopens P = some (storedText P s.now s.env l).chars ∨
      (s.reopens P = none ∧ (storedText P s.now s.env l).chars = current.chars) := by
  rw [reopens_eq P hn hl]
  split
  · exact Or.inl rfl
  · next hno => exact Or.inr ⟨rfl, not_not.mp (not_or.mp hno).1⟩

/-- The log file is opened again, or not, with all that `lprintf` needs for it. -/
theorem switchLogFile_reopens {s : Logger τ κ} {current l : Text}
    (hn : s.env nameLogfileNow = some current) (hl : s.env nameLogfile = some l) (o : OpenCalls) :
    switchLogFile P s o =
      if l.chars.length ≤ 511 ∧ (∀ name, s.reopens P = some name → DirFits name o) then
        some (if s.reopens P = none then s else (s.opened P l o).2)
      else none := by
  rcases Nat.lt_or_ge 511 l.chars.length with hlong | hshort
  · rw [switchLogFile_long P hl hn hlong, if_neg fun h => Nat.not_lt_of_le h.1 hlong]
  have hsrc : Holds (l.chars ++ zeros (512 - l.chars.length)) l.chars :=
    holds_zeros l.noNul (by omega)
  have hcopy := l.holds.strcpy_zeros (n := 512) (by omega)
  have hint : (l.chars.length : Int) ≤ intMax := Int.le_trans (Int.ofNat_le.mpr hshort) (by decide)
  have hfit : Expands s.env l.chars 512 :=
    expands_of_le s.env l.noNul (fun _ => hint) fun _ => Nat.lt_succ_of_le hshort
  obtain ⟨blk, hexp, hname⟩ : ∃ blk, expLogFile P s.now s.env
      (l.chars ++ zeros (512 - l.chars.length)) (zeros 512) 511 = some (0, blk) ∧
      Holds blk (storedText P s.now s.env l).chars := by
    rcases expLogFile_cases P s.now s.env hsrc (Or.inr hint) (n := 511) (by decide)
      (by decide : 511 ≤ 512) with ⟨blk, hrun, -, hblk⟩ | ⟨-, hno⟩
    · exact ⟨blk, hrun, hblk (by decide)⟩
    · exact absurd hfit hno
  have hopen := openLogFile_opened P s hsrc (Or.inr hint) o
  have hfits : OpenFits P s l o ↔ DirFits (storedText P s.now s.env l).chars o := by
    rw [OpenFits, storedText_saveTemplate P hl, saveTemplate_of_some hl]
    exact and_iff_right hfit
  rw [switchLogFile, hn]
  simp only [hl, Option.bind_eq_bind, Option.bind_some]
  rw [hcopy, Option.bind_some, hexp, Option.bind_some, hname.toText, Option.bind_some]
  have hagain : (if (storedText P s.now s.env l).chars ≠ current.chars then
        (openLogFile P s (l.chars ++ zeros (512 - l.chars.length)) o).map Prod.snd
      else if s.stderrLost P (storedText P s.now s.env l).chars = true then
        (openLogFile P s (l.chars ++ zeros (512 - l.chars.length)) o).map Prod.snd
      else some s) = if s.reopens P = none then some s
        else (openLogFile P s (l.chars ++ zeros (512 - l.chars.length)) o).map Prod.snd := by
    rw [reopens_eq P hn hl]
    grind
  refine hagain.trans ?_
  rcases reopens_cases P hn hl with hsome | ⟨hnone, -⟩
  · have hdir : (∀ name, s.reopens P = some name → DirFits name o) ↔
        DirFits (storedText P s.now s.env l).chars o := by
      simp [hsome]
    have hagain : s.reopens P ≠ none := by
      rw [hsome]
      exact Option.some_ne_none _
    rw [if_neg hagain, if_neg hagain, hopen]
    simp only [hfits, hdir, and_iff_right hshort]
    split <;> rfl
  · have hfit : ∀ name, s.reopens P = some name → DirFits name o := fun name hname => by
      rw [hnone] at hname
      cases hname
    rw [if_pos hnone, if_pos hnone, if_pos ⟨hshort, hfit⟩]

omit [DecidableEq κ] in
/-- The log file is opened again exactly when `lprintf` finds that it has to be. -/
theorem reopens_expands {s : Logger τ κ} {t current : Text}
    (hn : s.env nameLogfileNow = some current) (hl : s.env nameLogfile = some t)
    (hlen : (s.expands P t).length < 511) :
    s.reopens P = if s.Switches P t then some (s.expands P t) else none := by
  have hname : (storedText P s.now s.env t).chars = s.expands P t :=
    storedName_of_short P s.now s.env hlen
  have hsw : s.expands P t ≠ current.chars ∨ s.stderrLost P (s.expands P t) = true ↔
      s.Switches P t := by
    rw [Logger.Switches, hn, Option.map_some, ne_eq, ne_eq, Option.some.injEq, eq_comm]
  rw [reopens_eq P hn hl, hname]
  simp only [hsw]

/-- The state in which `lprintf` writes. -/
def Logger.switched (s : Logger τ κ) (t : Text) : Logger τ κ :=
  if s.Switches P t then (s.named P t).redirected P (s.expands P t) else s

/-- `lprintf` comes to its first write unless an array is too small. -/
theorem switchLogFile_switched {s : Logger τ κ} {t : Text} (h : Tracks P t s)
    {record : List UInt8} {o : OpenCalls} (ha : Allowed P t s (.lprintf record o)) :
    switchLogFile P s o =
      if Fits P t s (.lprintf record o) then some (s.switched P t) else none := by
  obtain ⟨hlen, -, ho⟩ := ha
  obtain ⟨name, -, hn, -⟩ := h.current
  have hstored : storedText P s.now s.env t = logText P s.now s.env t :=
    storedText_of_short P s.now s.env hlen
  rw [switchLogFile_reopens P hn h.logfile, reopens_expands P hn h.logfile hlen, Logger.switched]
  by_cases hs : s.Switches P t
  · have hopened : (s.opened P t o).2 = (s.named P t).redirected P (s.expands P t) := by
      rw [opened_succeed P s t (ho hs), savedEnv, saveTemplate_of_some h.logfile, hstored,
        Logger.named, saveTemplate_of_some h.logfile]
      rfl
    have hfits : (t.chars.length ≤ 511 ∧
        ∀ name, some (s.expands P t) = some name → DirFits name o) ↔
          Fits P t s (.lprintf record o) := by
      simp [Fits, hs]
    rw [if_pos hs, if_pos hs, if_neg (Option.some_ne_none _), hopened]
    simp only [hfits]
  · have hfits : (t.chars.length ≤ 511 ∧
        ∀ name, none = some name → DirFits name o) ↔ Fits P t s (.lprintf record o) := by
      simp [Fits, hs]
    rw [if_neg hs, if_neg hs, if_pos rfl]
    simp only [hfits]

/-- What `lprintf` has made sure of before it writes. -/
structure ReadyToWrite (t : Text) (s u : Logger τ κ) : Prop where
  logfile : u.env nameLogfile = some t
  current : ∃ name, u.env nameLogfileNow = some name ∧ name.chars = s.expands P t
  target : ∃ ino, u.fds.get 2 = some (.file ino) ∧
    u.disk.entry (P.resolve (s.expands P t)) = some ino
  content : u.disk.content = s.disk.content

omit [DecidableEq κ] in
theorem readyToWrite_stay {s : Logger τ κ} {t : Text} (h : Tracks P t s) (hs : ¬ s.Switches P t) :
    ReadyToWrite P t s s := by
  obtain ⟨name, ino, hn, hfd, hat⟩ := h.current
  rw [Logger.Switches, not_or, not_not, hn, Option.map_some, Option.some.injEq] at hs
  obtain ⟨hname, hlost⟩ := hs
  refine ⟨h.logfile, ⟨name, hn, hname⟩, ⟨ino, hfd, ?_⟩, rfl⟩
  -- the link count says that the name still has the file
  have hlink : s.disk.nlink ino ≠ 0 := by
    intro h0
    simp [Logger.stderrLost, hfd, h0] at hlost
  rw [← hname]
  exact hat.linked.resolve_left hlink

theorem readyToWrite_redirected {s : Logger τ κ} {t : Text} (h : Tracks P t s)
    (hne : s.expands P t ≠ t.chars) :
    ReadyToWrite P t s ((s.named P t).redirected P (s.expands P t)) := by
  obtain ⟨name, ino, hn, hfd, hat⟩ := h.current
  have henv : (s.named P t).env = saveName s.env t (logText P s.now s.env t) := by
    rw [named_env, saveTemplate_of_some h.logfile]
  have htwo : s.fds.lowestFree ≠ 2 := Table.lowestFree_ne (by rw [hfd]; simp)
  refine ⟨?_, ⟨logText P s.now s.env t, ?_, rfl⟩,
    ⟨(s.disk.openAppend (P.resolve (s.expands P t))).1, ?_, ?_⟩, ?_⟩
  · rw [redirected_env, henv, saveName_of_ne _ _ _ (by decide), h.logfile]
  · rw [redirected_env, henv, saveName_now hne]
  · exact (redirected_get_two P _ _).trans (if_neg htwo)
  · exact Disk.openAppend_entry _ _
  · exact Disk.openAppend_content _ _

theorem readyToWrite_switched {s : Logger τ κ} {t : Text} (h : Tracks P t s)
    (hne : s.expands P t ≠ t.chars) : ReadyToWrite P t s (s.switched P t) := by
  rw [Logger.switched]
  split
  · exact readyToWrite_redirected P h hne
  · next hs => exact readyToWrite_stay P h hs

omit [DecidableEq κ] in
theorem ReadyToWrite.writeStderr {s u : Logger τ κ} {t : Text} (h : ReadyToWrite P t s u)
    (record : List UInt8) :
    Tracks P t (u.writeStderr record) ∧ ∃ ino,
      (u.writeStderr record).disk.entry (P.resolve (s.expands P t)) = some ino ∧
      (u.writeStderr record).disk.content =
        Function.update s.disk.content ino (s.disk.content ino ++ record) := by
  obtain ⟨name, hn, hname⟩ := h.current
  obtain ⟨ino, hfd, hentry⟩ := h.target
  have hborn := u.disk.entry_lt _ _ hentry
  have hat : u.disk.OpenedAt (P.resolve name.chars) ino := ⟨hborn, Or.inr (hname ▸ hentry)⟩
  have hw : u.writeStderr record = { u with disk := u.disk.append ino record } := by
    rw [Logger.writeStderr, hfd]
  rw [hw]
  refine ⟨⟨h.logfile, name, ino, hn, hfd, hat.append ino record⟩, ino, ?_, ?_⟩
  · show (u.disk.append ino record).entry _ = some ino
    rw [Disk.append_entry, hentry]
  · show (u.disk.append ino record).content = _
    rw [Disk.append_content hborn, h.content]

/-! ## Runs -/

theorem lprintf_switched {s : Logger τ κ} {t : Text} (h : Tracks P t s) {record : List UInt8}
    {o : OpenCalls} (ha : Allowed P t s (.lprintf record o)) :
    lprintf P s record o =
      if Fits P t s (.lprintf record o) then some (0, (s.switched P t).writeStderr record)
      else none := by
  rw [lprintf, switchLogFile_switched P h ha]
  split <;> rfl

theorem lands_iff_fits {s : Logger τ κ} {t : Text} {a : LogAction τ} (h : Tracks P t s)
    (ha : Allowed P t s a) : Lands P t s a ↔ Fits P t s a := by
  cases a with
  | lprintf record o =>
    have hcall := lprintf_switched P h ha
    constructor
    · rintro ⟨s', ino, hs', -⟩
      by_contra hfit
      rw [hcall, if_neg hfit] at hs'
      cases hs'
    · intro hfit
      obtain ⟨-, ino, hentry, hcontent⟩ := (readyToWrite_switched P h ha.2.1).writeStderr P record
      exact ⟨_, ino, hcall.trans (if_pos hfit), hentry, hcontent⟩
  | _ => exact Iff.rfl

theorem tracks_step {s s' : Logger τ κ} {t : Text} {a : LogAction τ} (h : Tracks P t s)
    (ha : Allowed P t s a) (hs : logStep P s a = some s') : Tracks P t s' := by
  obtain ⟨name, ino, hn, hfd, hat⟩ := h.current
  cases a with
  | openLogFile u o => exact absurd ha id
  | lprintf record o =>
    rw [logStep, lprintf_switched P h ha] at hs
    split at hs
    · cases hs
      exact ((readyToWrite_switched P h ha.2.1).writeStderr P record).1
    · cases hs
  | clock now =>
    cases hs
    exact ⟨h.logfile, name, ino, hn, hfd, hat⟩
  | environ name' value =>
    cases hs
    refine ⟨?_, name, ino, ?_, hfd, hat⟩
    · exact (Function.update_of_ne ha.1.symm _ _).trans h.logfile
    · exact (Function.update_of_ne ha.2.symm _ _).trans hn
  | create path =>
    cases hs
    exact ⟨h.logfile, name, ino, hn, hfd, hat.create _⟩
  | unlink path =>
    cases hs
    exact ⟨h.logfile, name, ino, hn, hfd, hat.unlink _⟩
  | descriptors fds =>
    cases hs
    exact ⟨h.logfile, name, ino, hn, ha.trans hfd, hat⟩

/-- The state after a first `openLogFile` that succeeds. -/
def Logger.firstOpened (s : Logger τ κ) (t : Text) : Logger τ κ :=
  (s.named P t).redirected P (logName P s.now (saveTemplate s.env t) t.chars)

theorem tracks_firstOpened {s₀ : Logger τ κ} {t : Text} (hunset : s₀.env nameLogfile = none)
    (hne : logName P s₀.now (saveTemplate s₀.env t) t.chars ≠ t.chars)
    (hfree : s₀.fds.lowestFree ≠ 2) : Tracks P t (s₀.firstOpened P t) := by
  refine ⟨?_, logText P s₀.now (saveTemplate s₀.env t) t, _, saveName_now hne,
    (redirected_get_two P _ _).trans (if_neg hfree), Disk.openedAt_openAppend _ _⟩
  rw [Logger.firstOpened, redirected_env, named_env, saveName_of_ne _ _ _ (by decide),
    saveTemplate_logfile, hunset]
  rfl

/-- The first `openLogFile` of a program with nothing in `__LOGFILE`, whatever happens after
it: it succeeds, and every `lprintf` adds its record to the file that the expansion names, if
and only if the template expands, the directory for each `mkdir` has 502 bytes at most, and
the template 511 where `lprintf` is called. -/
theorem lprintf_lands_iff {s₀ : Logger τ κ} {t : Text} {o : OpenCalls}
    (hunset : s₀.env nameLogfile = none) (ho : o.Succeed)
    (hlen : (logName P s₀.now (saveTemplate s₀.env t) t.chars).length < 511)
    (hne : logName P s₀.now (saveTemplate s₀.env t) t.chars ≠ t.chars)
    (hfree : s₀.fds.lowestFree ≠ 2) {as : List (LogAction τ)}
    (hallowed : Along (logStep P) (Allowed P t) (s₀.firstOpened P t) as) :
    (∃ s, openLogFile P s₀ t.block o = some (0, s) ∧ Along (logStep P) (Lands P t) s as) ↔
      OpenFits P s₀ t o ∧ Along (logStep P) (Fits P t) (s₀.firstOpened P t) as := by
  have hopen := openLogFile_eq P s₀ t.holds (Or.inl rfl) ho rfl hlen
  have hrun := along_iff_along (fun _ _ _ h ha hs => tracks_step P h ha hs)
    (fun _ _ h ha => lands_iff_fits P h ha) (tracks_firstOpened P hunset hne hfree) hallowed
  rw [hopen, openFits_of_short P hlen]
  split
  · next hfits =>
    rw [← hrun, and_iff_right hfits]
    constructor
    · rintro ⟨s, hs, hlands⟩
      cases hs
      exact hlands
    · exact fun hlands => ⟨_, rfl, hlands⟩
  · next hno =>
    refine iff_of_false ?_ fun h => hno h.1
    rintro ⟨s, hs, -⟩
    cases hs

/-! ## A log file for each day of the week -/

/-- `strftime` on a format with no conversion but `%u`. -/
def weekday (now : Fin 7) : List UInt8 → List UInt8
  | 37 :: 117 :: cs => UInt8.ofNat (49 + now) :: weekday now cs
  | c :: cs => c :: weekday now cs
  | [] => []

theorem weekday_noNul (now : Fin 7) (format : List UInt8) (h : 0 ∉ format) :
    0 ∉ weekday now format := by
  induction format using weekday.induct with
  | case1 cs ih =>
    have hdigit : ∀ d : Fin 7, (0 : UInt8) ≠ UInt8.ofNat (49 + d) := by decide
    rw [weekday, List.mem_cons, not_or]
    exact ⟨hdigit now, ih fun hm => h (List.mem_cons_of_mem _ (List.mem_cons_of_mem _ hm))⟩
  | case2 c cs hno ih =>
    rw [weekday.eq_2 _ _ _ hno, List.mem_cons, not_or]
    exact ⟨fun hc => h (hc ▸ List.mem_cons_self), ih (List.not_mem_of_not_mem_cons h)⟩
  | case3 => exact List.not_mem_nil

theorem weekday_plain (now : Fin 7) (format : List UInt8) (h : 37 ∉ format) :
    weekday now format = format := by
  induction format using weekday.induct with
  | case1 cs ih => exact absurd List.mem_cons_self h
  | case2 c cs hno ih => rw [weekday.eq_2 _ _ _ hno, ih (List.not_mem_of_not_mem_cons h)]
  | case3 => rfl

def weekPlatform : Platform (Fin 7) (List UInt8) where
  strftime := weekday
  leftover := fun _ _ _ => []
  resolve := id
  noNul := weekday_noNul
  plain := weekday_plain
  leftover_le := fun _ _ _ => Nat.zero_le _

/-- Monday, no variable set, no file, and a terminal on the first three descriptors. -/
def freshLogger : Logger (Fin 7) (List UInt8) where
  env := fun _ => none
  now := 0
  fds := [some .other, some .other, some .other]
  disk := ⟨fun _ => none, fun _ => 0, fun _ => [], 0, fun _ _ h => (by cases h),
    fun _ _ _ h => (by cases h), fun _ _ h => (by cases h), fun _ _ => rfl⟩

def goodCalls : OpenCalls := ⟨.dir, true, true, true⟩

theorem goodCalls_succeed : goodCalls.Succeed := ⟨rfl, rfl, rfl⟩

theorem openLogFile_freshLogger {t : Text} (hint : (t.chars.length : Int) ≤ intMax)
    (hm : Marked t.chars)
    (hlen : (logName weekPlatform 0 (saveTemplate freshLogger.env t) t.chars).length < 511) :
    openLogFile weekPlatform freshLogger t.block goodCalls =
      some (0, freshLogger.firstOpened weekPlatform t) := by
  have hfits : Expands (saveTemplate freshLogger.env t) t.chars 512 :=
    expands_of_le _ t.noNul (fun _ => hint) fun hno => absurd hm hno
  rw [openLogFile_eq weekPlatform freshLogger t.holds (Or.inl rfl) goodCalls_succeed rfl hlen]
  exact if_pos ⟨hfits, fun h => nomatch h⟩

/-- `l%u` -/
def weekTemplate : Text := ⟨[108, 37, 117], by decide⟩

theorem logName_weekTemplate (now : Fin 7) (env : Environ) :
    logName weekPlatform now env weekTemplate.chars = [108, UInt8.ofNat (49 + now)] :=
  logName_noDollar weekPlatform now env (by decide) (by decide) (by decide)

/-- The file is removed, the day ends, and the next record goes to the file of Tuesday. -/
theorem lprintf_lands_iff_week :
    ∃ s, openLogFile weekPlatform freshLogger weekTemplate.block goodCalls = some (0, s) ∧
      Along (logStep weekPlatform) (Lands weekPlatform weekTemplate) s
        [.unlink [108, 49], .clock 1, .lprintf [10, 65] goodCalls] := by
  have hfits : OpenFits weekPlatform freshLogger weekTemplate goodCalls :=
    ⟨expands_of_le _ (by decide) (fun _ => by decide) fun _ => by decide, fun h => nomatch h⟩
  refine (lprintf_lands_iff weekPlatform rfl goodCalls_succeed ?_ ?_ (by decide) ?_).mpr
    ⟨hfits, ?_⟩
  · rw [logName_weekTemplate]
    decide
  · rw [logName_weekTemplate]
    decide
  · refine ⟨trivial, fun u hu => ⟨trivial, fun v hv => ⟨⟨?_, ?_, fun _ => goodCalls_succeed⟩, ?_⟩⟩⟩
    · rw [Logger.expands, logName_weekTemplate]
      exact (by decide : 2 < 511)
    · rw [Logger.expands, logName_weekTemplate]
      exact fun h => absurd (congrArg List.length h) (by decide : ¬ 2 = 3)
    · exact fun _ _ => trivial
  · refine ⟨trivial, fun u hu => ⟨trivial, fun v hv => ⟨⟨by decide, ?_⟩, fun _ _ => trivial⟩⟩⟩
    exact fun _ h => by cases h

/-! ## A template that is too long for `lprintf` -/

/-- `l` and 1200 times `$`, each of which stands for nothing. -/
def longTemplate : Text :=
  ⟨108 :: List.replicate 1200 36, fun h => by
    rcases List.mem_cons.mp h with h | h
    · cases h
    · exact absurd (List.eq_of_mem_replicate h) (by decide)⟩

theorem pieces_dollar_signs (n : Nat) :
    pieces (List.replicate n 36) = List.replicate n (.var []) := by
  induction n with
  | zero => exact pieces_none rfl
  | succ n ih =>
    have hnext : nextPiece (List.replicate (n + 1) 36) = some (.var [], 1) := by
      cases n with
      | zero => rfl
      | succ n => rfl
    rw [pieces_some hnext, List.replicate_succ, List.drop_succ_cons, List.drop_zero, ih,
      List.replicate_succ]

theorem fill_nothing {env : Environ} (h : env [] = none) (room n : Nat) :
    (fill env room (List.replicate n (.var []))).2 = [] := by
  have htext : bodyText env [] = [] := by simp [bodyText, h]
  have hcut : (Piece.var []).cut env = [] := by rw [Piece.cut, Piece.text, htext, List.take_nil]
  induction n with
  | zero => rfl
  | succ n ih =>
    cases room with
    | zero => exact congrArg Prod.snd (fill_zero env _)
    | succ room =>
      have href : ¬ (Piece.var []).Refused := Nat.not_lt_zero _
      have hneed : (Piece.var []).need env ≤ room + 1 := by
        rw [Piece.need, hcut]
        exact Nat.succ_le_succ (Nat.zero_le room)
      rw [List.replicate_succ, fill_fits _ href hneed, hcut, List.length_nil, Nat.sub_zero, ih]
      rfl

theorem longTemplate_length : longTemplate.chars.length = 1201 := by
  rw [longTemplate, List.length_cons, List.length_replicate]

theorem marked_longTemplate : Marked longTemplate.chars :=
  Or.inr (List.mem_cons_of_mem _ (List.mem_replicate.mpr ⟨by decide, rfl⟩))

theorem logName_longTemplate (now : Fin 7) {env : Environ} (h : env [] = none) :
    logName weekPlatform now env longTemplate.chars = [108] := by
  have hint : (longTemplate.chars.length : Int) ≤ intMax := by
    rw [longTemplate_length]
    decide
  have hnext : nextPiece longTemplate.chars = some (.literal 108, 1) := rfl
  have hdrop : longTemplate.chars.drop 1 = List.replicate 1200 36 := rfl
  have hcut : (Piece.literal 108).cut env = [108] := rfl
  rw [logName, if_pos marked_longTemplate, expanded_eq env longTemplate.noNul hint,
    pieces_some hnext, hdrop, pieces_dollar_signs,
    fill_fits _ id (by rw [Piece.need]; decide), hcut, fill_nothing h]
  rfl

/-- The first `lprintf` copies 1201 bytes and a terminator to `src_filename`. -/
theorem not_lprintf_lands :
    ¬ ∀ (P : Platform (Fin 7) (List UInt8)) (s₀ : Logger (Fin 7) (List UInt8)) (t : Text)
      (o : OpenCalls) (as : List (LogAction (Fin 7))),
      s₀.env nameLogfile = none → s₀.env nameLogfileNow = none →
      37 ∈ t.chars ∨ 36 ∈ t.chars → o.Succeed →
      (logName P s₀.now (saveTemplate s₀.env t) t.chars).length < 511 →
      logName P s₀.now (saveTemplate s₀.env t) t.chars ≠ t.chars → s₀.fds.lowestFree ≠ 2 →
      Along (logStep P) (Allowed P t) (s₀.firstOpened P t) as →
      ∃ s, openLogFile P s₀ t.block o = some (0, s) ∧ Along (logStep P) (Lands P t) s as := by
  intro h
  have hsaved : saveTemplate freshLogger.env longTemplate [] = none := rfl
  have hname := logName_longTemplate freshLogger.now hsaved
  have hint : (longTemplate.chars.length : Int) ≤ intMax := by
    rw [longTemplate_length]
    decide
  have hne : [108] ≠ longTemplate.chars := fun heq => by
    have := congrArg List.length heq
    rw [longTemplate_length] at this
    cases this
  have hlen : (logName weekPlatform freshLogger.now (saveTemplate freshLogger.env longTemplate)
      longTemplate.chars).length < 511 := by
    rw [hname]
    decide
  have hne' := fun heq => hne (hname.symm.trans heq)
  have hexp : (freshLogger.firstOpened weekPlatform longTemplate).expands weekPlatform
      longTemplate = [108] := by
    rw [Logger.expands]
    refine logName_longTemplate _ ?_
    rw [Logger.firstOpened, redirected_env, named_env, saveName_of_ne _ _ _ (by decide)]
    exact hsaved
  have hallowed : Along (logStep weekPlatform) (Allowed weekPlatform longTemplate)
      (freshLogger.firstOpened weekPlatform longTemplate) [.lprintf [10] goodCalls] := by
    refine ⟨⟨?_, ?_, fun _ => goodCalls_succeed⟩, fun _ _ => trivial⟩
    · rw [hexp]
      decide
    · rw [hexp]
      exact hne
  have hlands := h weekPlatform freshLogger longTemplate goodCalls [.lprintf [10] goodCalls]
    rfl rfl marked_longTemplate goodCalls_succeed hlen hne' (by decide) hallowed
  obtain ⟨s, hopen, hland, -⟩ := hlands
  rw [openLogFile_freshLogger hint marked_longTemplate hlen] at hopen
  obtain rfl := (Prod.mk.inj (Option.some.inj hopen)).2
  have htracks := tracks_firstOpened weekPlatform rfl hne' (by decide)
  have hfits := ((lands_iff_fits weekPlatform htracks hallowed.1).mp hland).1
  rw [longTemplate_length] at hfits
  omega

end Netepoll
