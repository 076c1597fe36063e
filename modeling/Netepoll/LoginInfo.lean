import Netepoll.Lib.CString
import Netepoll.Lib.Lines
import Netepoll.Lib.Scanf
import Mathlib.Data.List.DropRight

/-! `getLoginInfo` (getLoginInfo.c): `dblogin.ini` is read in pieces of at most 79 bytes, and
its entries are lines. -/

namespace Netepoll

open CString Lines Scanf Words

/-! ## getLoginInfo.c and tool.c -/

/-- The strings in the three output buffers, which are large enough. -/
structure Login where
  DB_name : List UInt8
  User_name : List UInt8
  Passwd : List UInt8
  deriving DecidableEq

def Login.texts (out : Login) : List (List UInt8) := [out.DB_name, out.User_name, out.Passwd]

def isspace (c : UInt8) : Bool := c == 32 || (9 ≤ c && c ≤ 13)

/-- `%[^:]` -/
def upToColon : Directive UInt8 := .field (fun _ => false) fun c => c != 58

/-- `%s` -/
def nextWord : Directive UInt8 := .field isspace fun c => !isspace c

/-- `"%[^:]:%[^:]:%s"` when the entry has a colon at `[3]`, else `"%s%s%s"`. -/
def entryFormat (separator : Option UInt8) : List (Directive UInt8) :=
  if separator = some 58 then [upToColon, .literal 58, upToColon, .literal 58, nextWord]
  else [nextWord, nextWord, nextWord]

/-- `sscanf(buf, format, DB_name, User_name, Passwd)`; how many it stores is not looked at. -/
def sscanf (buf : Block) (format : List (Directive UInt8)) (out : Login) : Option Login := do
  let ws := fields format (← load buf)
  some ⟨ws.getD 0 out.DB_name, ws.getD 1 out.User_name, ws.getD 2 out.Passwd⟩

/-- `l + 1` after the loop of `deleRhtSpace`. -/
def rhtSpaceLoop (string : List UInt8) : Nat → Nat
  | 0 => 0
  | l + 1 => if string[l]? = some 32 then rhtSpaceLoop string l else l + 1

def deleRhtSpace (string : List UInt8) : List UInt8 :=
  string.take (rhtSpaceLoop string string.length)

/-- What `fgets(buf, size, fp)` stores, and the rest of the file. -/
def fgets (size : Nat) (fp : List UInt8) : Option (List UInt8 × List UInt8) :=
  if fp = [] then none else some (readPiece 10 (size - 1) fp)

/-- `#`, a space, a tab or a newline at `buf[0]` -/
def skipped (c : UInt8) : Bool := c == 35 || c == 32 || c == 9 || c == 10

def loginLoop (option : UInt8) : Nat → List UInt8 → Login → Option (Int × Login)
  | 0, _, _ => none
  | fuel + 1, fp, out =>
    match fgets 80 fp with
    | none => some (-42, out)
    | some (piece, fp) => do
      let buf := splice (zeros 81) 0 (piece ++ [0])
      if skipped (← buf[0]?) then loginLoop option fuel fp out
      else if (← buf[1]?) = option then do
        let out ← sscanf (buf.drop 4) (entryFormat buf[3]?) out
        some (0, ⟨deleRhtSpace out.DB_name, deleRhtSpace out.User_name, deleRhtSpace out.Passwd⟩)
      else loginLoop option fuel fp out

/-- `/etc/dblogin.ini` -/
def dbloginIni : List UInt8 :=
  [47, 101, 116, 99, 47, 100, 98, 108, 111, 103, 105, 110, 46, 105, 110, 105]

/-- `fopen` has the contents of the files that can be read. There is no result when the name is
too long for `cfg_filename[512]`. -/
def getLoginInfo (home : Option Text) (fopen : List UInt8 → Option (List UInt8)) (option : UInt8)
    (out : Login) : Option (Int × Login) :=
  if 512 ≤ (printStr home).length + dbloginIni.length then none
  else
    match fopen (printStr home ++ dbloginIni) with
    | none => some (-33, out)
    | some fp => loginLoop option (fp.length + 1) fp out

/-! ## Entries -/

def lines (content : List UInt8) : List (List UInt8) := cutAt (lineEnd 10) [] content

def isEntry (option : UInt8) (ln : List UInt8) : Bool :=
  !skipped (ln.getD 0 0) && ln[1]? == some option

/-- The text of a line from the fifth byte on, without the newline. -/
def lineText (ln : List UInt8) : List UInt8 := (ln.drop 4).takeWhile fun c => c != 10

/-- The text cut at every `:` when the line has one at `[3]`, else its words. -/
def lineFields (ln : List UInt8) : List (List UInt8) :=
  if ln[3]? = some 58 then (lineText ln).splitOn 58 else words isspace (lineText ln)

def firstThree (ws : List (List UInt8)) : Option (List (List UInt8)) :=
  if (ws.take 3).length = 3 ∧ [] ∉ ws.take 3 then some (ws.take 3) else none

/-- The fields of the matching entry, when it has all three. -/
def entryFields (option : UInt8) (content : List UInt8) : Option (List (List UInt8)) := do
  let ln ← (lines content).find? (isEntry option)
  firstThree (lineFields ln)

def trimRight (s : List UInt8) : List UInt8 := s.rdropWhile (· == 32)

/-- `dblogin.ini`, when it can be opened -/
def loginFile (home : Option Text) (fopen : List UInt8 → Option (List UInt8)) :
    Option (List UInt8) :=
  fopen (printStr home ++ dbloginIni)

/-- `getLoginInfo` returns the fields of the matching entry, and an error without one, whatever
the output buffers hold before. -/
def LoginExact (home : Option Text) (fopen : List UInt8 → Option (List UInt8)) (option : UInt8) :
    Prop :=
  ∀ out, ∃ code out', getLoginInfo home fopen option out = some (code, out') ∧
    match (loginFile home fopen).bind (entryFields option) with
    | some ws => code = 0 ∧ out'.texts = ws.map trimRight
    | none => code < 0

/-! ## What the formats read -/

/-- A word, the spaces in front of it, and what is left behind it. -/
def NextWord (gap word rest : List UInt8) : Prop :=
  (∀ c ∈ gap, isspace c = true) ∧ word ≠ [] ∧ (∀ c ∈ word, isspace c = false) ∧
    Ends (fun c => !isspace c) rest

theorem readField_nextWord {s word rest : List UInt8} :
    readField isspace (fun c => !isspace c) s = some (word, rest) ↔
      ∃ gap, s = gap ++ (word ++ rest) ∧ NextWord gap word rest := by
  simp only [readField_iff, Bool.not_eq_true']
  refine exists_congr fun gap => and_congr_right fun _ => ?_
  constructor
  · rintro ⟨hgap, -, hne, hword, hrest⟩
    exact ⟨hgap, hne, hword, hrest⟩
  · rintro ⟨hgap, hne, hword, hrest⟩
    refine ⟨hgap, fun c hc => hword c ?_, hne, hword, hrest⟩
    rw [List.head?_append_of_ne_nil _ hne] at hc
    exact List.mem_of_mem_head? hc

theorem words_nextWord {s word : List UInt8} {ws : List (List UInt8)} :
    words isspace s = word :: ws ↔
      ∃ gap rest, s = gap ++ (word ++ rest) ∧ NextWord gap word rest ∧ ws = words isspace rest := by
  simp only [words_eq_cons_iff, NextWord, and_assoc]

/-- `DB_name User_name Passwd` with spaces around them -/
def ThreeWords (ws : List (List UInt8)) (used rest : List UInt8) : Prop :=
  ∃ gap₁ name gap₂ user gap₃ passwd, ws = [name, user, passwd] ∧
    used = gap₁ ++ (name ++ (gap₂ ++ (user ++ (gap₃ ++ passwd)))) ∧
    NextWord gap₁ name (gap₂ ++ (user ++ (gap₃ ++ (passwd ++ rest)))) ∧
    NextWord gap₂ user (gap₃ ++ (passwd ++ rest)) ∧ NextWord gap₃ passwd rest

/-- `%[^:]` with a colon behind it -/
theorem readField_upToColon {s word rest : List UInt8} :
    readField (fun _ => false) (fun c => c != 58) s = some (word, 58 :: rest) ↔
      s = word ++ 58 :: rest ∧ word ≠ [] ∧ 58 ∉ word := by
  rw [readField_iff]
  constructor
  · rintro ⟨gap, rfl, hgap, -, hne, hword, -⟩
    cases gap with
    | nil => exact ⟨rfl, hne, fun hmem => absurd (hword _ hmem) (by decide)⟩
    | cons c gap => exact absurd (hgap c List.mem_cons_self) Bool.false_ne_true
  · rintro ⟨rfl, hne, hword⟩
    refine ⟨[], rfl, nofun, fun _ _ => rfl, hne, fun c hc => ?_, ends_cons rfl⟩
    simpa using fun h : c = 58 => hword (h ▸ hc)

/-- `DB_name:User_name:Passwd` -/
theorem scan_colons_iff {s rest : List UInt8} {ws : List (List UInt8)} :
    scan (entryFormat (some 58)) s = some (ws, rest) ↔
      ∃ name user gap passwd, ws = [name, user, passwd] ∧
        s = name ++ 58 :: (user ++ 58 :: (gap ++ (passwd ++ rest))) ∧
        (name ≠ [] ∧ 58 ∉ name) ∧ (user ≠ [] ∧ 58 ∉ user) ∧ NextWord gap passwd rest := by
  rw [entryFormat, if_pos rfl]
  constructor
  · intro h
    obtain ⟨name, s₁, ws₁, hname, h₁, rfl⟩ := scan_field h
    obtain ⟨s₂, rfl, h₂⟩ := scan_literal h₁
    obtain ⟨user, s₃, ws₃, huser, h₃, rfl⟩ := scan_field h₂
    obtain ⟨s₄, rfl, h₄⟩ := scan_literal h₃
    obtain ⟨passwd, s₅, ws₅, hpasswd, h₅, rfl⟩ := scan_field h₄
    cases h₅
    obtain ⟨rfl, hdb⟩ := readField_upToColon.mp hname
    obtain ⟨rfl, hus⟩ := readField_upToColon.mp huser
    obtain ⟨gap, rfl, hword⟩ := readField_nextWord.mp hpasswd
    exact ⟨name, user, gap, passwd, rfl, rfl, hdb, hus, hword⟩
  · rintro ⟨name, user, gap, passwd, rfl, rfl, hname, huser, hword⟩
    refine scan_field_of (readField_upToColon.mpr ⟨rfl, hname⟩) (scan_literal_of ?_)
    refine scan_field_of (readField_upToColon.mpr ⟨rfl, huser⟩) (scan_literal_of ?_)
    exact scan_field_of (readField_nextWord.mpr ⟨gap, rfl, hword⟩) rfl

theorem scan_words_iff {separator : Option UInt8} (h : separator ≠ some 58)
    {s rest : List UInt8} {ws : List (List UInt8)} :
    scan (entryFormat separator) s = some (ws, rest) ↔
      ∃ used, s = used ++ rest ∧ ThreeWords ws used rest := by
  rw [entryFormat, if_neg h]
  constructor
  · intro h
    obtain ⟨name, s₁, ws₁, hname, h₁, rfl⟩ := scan_field h
    obtain ⟨user, s₂, ws₂, huser, h₂, rfl⟩ := scan_field h₁
    obtain ⟨passwd, s₃, ws₃, hpasswd, h₃, rfl⟩ := scan_field h₂
    cases h₃
    obtain ⟨gap₁, rfl, hdb⟩ := readField_nextWord.mp hname
    obtain ⟨gap₂, rfl, hus⟩ := readField_nextWord.mp huser
    obtain ⟨gap₃, rfl, hword⟩ := readField_nextWord.mp hpasswd
    refine ⟨_, ?_, gap₁, name, gap₂, user, gap₃, passwd, rfl, rfl, hdb, hus, hword⟩
    simp only [List.append_assoc]
  · rintro ⟨-, rfl, gap₁, name, gap₂, user, gap₃, passwd, rfl, rfl, hname, huser, hpasswd⟩
    refine scan_field_of (readField_nextWord.mpr ⟨gap₁, ?_, hname⟩) ?_
    · simp only [List.append_assoc]
    refine scan_field_of (readField_nextWord.mpr ⟨gap₂, rfl, huser⟩) ?_
    exact scan_field_of (readField_nextWord.mpr ⟨gap₃, rfl, hpasswd⟩) rfl

/-! ## What the fields of a line are -/

theorem firstThree_iff {parts ws : List (List UInt8)} : firstThree parts = some ws ↔
    ∃ name user passwd more, parts = name :: user :: passwd :: more ∧ ws = [name, user, passwd] ∧
      name ≠ [] ∧ user ≠ [] ∧ passwd ≠ [] := by
  rw [firstThree]
  constructor
  · intro h
    obtain ⟨⟨hlen, hne⟩, hws⟩ := Option.ite_none_right_eq_some.mp h
    cases hws
    match parts, hlen, hne with
    | name :: user :: passwd :: more, _, hne =>
      refine ⟨name, user, passwd, more, rfl, rfl, ?_, ?_, ?_⟩ <;> rintro rfl <;> simp at hne
  · rintro ⟨name, user, passwd, more, rfl, rfl, hname, huser, hpasswd⟩
    rw [if_pos ⟨rfl, by simp [hname.symm, huser.symm, hpasswd.symm]⟩]
    rfl

theorem threeWords_of_ends {ws : List (List UInt8)} {used rest rest' : List UInt8}
    (h : ThreeWords ws used rest) (hrest : Ends (fun c => !isspace c) rest') :
    ThreeWords ws used rest' := by
  obtain ⟨gap₁, name, gap₂, user, gap₃, passwd, hws, hused, hname, huser, hpasswd⟩ := h
  have hends (gap word front more : List UInt8) (hne : word ≠ [])
      (hends : Ends (fun c => !isspace c) (gap ++ (word ++ front))) :
      Ends (fun c => !isspace c) (gap ++ (word ++ more)) := by
    obtain ⟨c, word, rfl⟩ := List.exists_cons_of_ne_nil hne
    cases gap <;> exact hends
  exact ⟨gap₁, name, gap₂, user, gap₃, passwd, hws, hused,
    ⟨hname.1, hname.2.1, hname.2.2.1, hends _ _ _ _ huser.2.1 hname.2.2.2⟩,
    ⟨huser.1, huser.2.1, huser.2.2.1, hends _ _ _ _ hpasswd.2.1 huser.2.2.2⟩,
    hpasswd.1, hpasswd.2.1, hpasswd.2.2.1, hrest⟩

theorem firstThree_words_iff {s : List UInt8} {ws : List (List UInt8)} :
    firstThree (words isspace s) = some ws ↔
      ∃ used rest, s = used ++ rest ∧ ThreeWords ws used rest := by
  rw [firstThree_iff]
  constructor
  · rintro ⟨name, user, passwd, more, hwords, rfl, -⟩
    obtain ⟨gap₁, s₁, rfl, hname, h₁⟩ := words_nextWord.mp hwords
    obtain ⟨gap₂, s₂, rfl, huser, h₂⟩ := words_nextWord.mp h₁.symm
    obtain ⟨gap₃, s₃, rfl, hpasswd, -⟩ := words_nextWord.mp h₂.symm
    refine ⟨_, s₃, ?_, gap₁, name, gap₂, user, gap₃, passwd, rfl, rfl, hname, huser, hpasswd⟩
    simp only [List.append_assoc]
  · rintro ⟨-, rest, rfl, gap₁, name, gap₂, user, gap₃, passwd, rfl, rfl, hname, huser, hpasswd⟩
    refine ⟨name, user, passwd, words isspace rest, ?_, rfl, hname.2.1, huser.2.1, hpasswd.2.1⟩
    refine words_nextWord.mpr ⟨gap₁, _, ?_, hname, ?_⟩
    · simp only [List.append_assoc]
    exact (words_nextWord.mpr ⟨gap₂, _, rfl, huser,
      (words_nextWord.mpr ⟨gap₃, rest, rfl, hpasswd, rfl⟩).symm⟩).symm

/-- Words in front of the newline. -/
theorem wordFields_iff {ln : List UInt8} {ws : List (List UInt8)} :
    firstThree (words isspace (lineText ln)) = some ws ↔
      ∃ used rest, ln.drop 4 = used ++ rest ∧ ThreeWords ws used rest ∧ 10 ∉ used := by
  have hsplit := List.takeWhile_append_dropWhile (p := fun c => c != 10) (l := ln.drop 4)
  rw [firstThree_words_iff, lineText]
  constructor
  · rintro ⟨used, rest, htext, hthree⟩
    refine ⟨used, rest ++ (ln.drop 4).dropWhile fun c => c != 10, ?_, ?_, fun hnl => ?_⟩
    · rw [← List.append_assoc, ← htext, hsplit]
    · refine threeWords_of_ends hthree ?_
      have hend := ends_dropWhile (fun c => c != 10) (ln.drop 4)
      cases rest with
      | nil =>
        intro c hc
        have hnl : c = 10 := by simpa using hend c hc
        rw [hnl]
        rfl
      | cons c rest =>
        obtain ⟨_, _, _, _, _, _, -, -, -, -, hpasswd⟩ := hthree
        exact hpasswd.2.2.2
    · have hmem : (10 : UInt8) ∈ (ln.drop 4).takeWhile fun c => c != 10 :=
        htext ▸ List.mem_append_left _ hnl
      exact absurd (List.mem_takeWhile_imp hmem) (by decide)
  · rintro ⟨used, rest, htext, hthree, hnl⟩
    have hused : ∀ c ∈ used, (c != 10) = true := fun c hc => by
      simpa using fun h : c = 10 => hnl (h ▸ hc)
    refine ⟨used, rest.takeWhile fun c => c != 10, ?_, threeWords_of_ends hthree ?_⟩
    · rw [htext, List.takeWhile_append_of_pos hused]
    · obtain ⟨_, _, _, _, _, _, -, -, -, -, hpasswd⟩ := hthree
      exact ends_of_beginning hpasswd.2.2.2 (List.takeWhile_prefix _)

/-- Neither a separator nor the end of the line -/
def fieldByte (c : UInt8) : Bool := c != 58 && c != 10

theorem ends_fieldByte {rest : List UInt8} :
    Ends fieldByte rest ↔ ∀ c ∈ rest.head?, c = 58 ∨ c = 10 := by
  simp [Ends, fieldByte, ← Bool.not_eq_true, or_iff_not_imp_left]

def Field (w : List UInt8) : Prop := w ≠ [] ∧ ∀ c ∈ w, fieldByte c = true

theorem field_iff {w : List UInt8} : Field w ↔ w ≠ [] ∧ 58 ∉ w ∧ 10 ∉ w := by
  have hbytes : (∀ c ∈ w, fieldByte c = true) ↔ 58 ∉ w ∧ 10 ∉ w := by
    simp only [fieldByte, Bool.and_eq_true, bne_iff_ne, ne_eq]
    exact ⟨fun h => ⟨fun hm => (h _ hm).1 rfl, fun hm => (h _ hm).2 rfl⟩,
      fun h c hc => ⟨fun he => h.1 (he ▸ hc), fun he => h.2 (he ▸ hc)⟩⟩
  rw [Field, hbytes]

theorem firstThree_splitOn_iff {s : List UInt8} {ws : List (List UInt8)} :
    firstThree (s.splitOn 58) = some ws ↔
      ∃ name user passwd rest, ws = [name, user, passwd] ∧
        s = name ++ 58 :: (user ++ 58 :: (passwd ++ rest)) ∧ (name ≠ [] ∧ 58 ∉ name) ∧
        (user ≠ [] ∧ 58 ∉ user) ∧ (passwd ≠ [] ∧ 58 ∉ passwd) ∧ Ends (fun c => c != 58) rest := by
  rw [firstThree_iff]
  constructor
  · rintro ⟨name, user, passwd, more, hparts, rfl, hname, huser, hpasswd⟩
    obtain ⟨hname58, ⟨-, hnil⟩ | ⟨s₁, rfl, h₁⟩⟩ := splitOn_eq_cons_iff.mp hparts
    · cases hnil
    obtain ⟨huser58, ⟨-, hnil⟩ | ⟨s₂, rfl, h₂⟩⟩ := splitOn_eq_cons_iff.mp h₁.symm
    · cases hnil
    obtain ⟨hpasswd58, rest, rfl, hrest⟩ := exists_splitOn_eq_cons_iff.mp ⟨more, h₂.symm⟩
    exact ⟨name, user, passwd, rest, rfl, rfl, ⟨hname, hname58⟩, ⟨huser, huser58⟩,
      ⟨hpasswd, hpasswd58⟩, hrest⟩
  · rintro ⟨name, user, passwd, rest, rfl, rfl, hname, huser, hpasswd, hrest⟩
    obtain ⟨more, hmore⟩ := exists_splitOn_eq_cons_iff.mpr ⟨hpasswd.2, rest, rfl, hrest⟩
    refine ⟨name, user, passwd, more, ?_, rfl, hname.1, huser.1, hpasswd.1⟩
    rw [List.splitOn_append_cons_self_of_not_mem hname.2,
      List.splitOn_append_cons_self_of_not_mem huser.2, hmore]

/-- Parts between colons in front of the newline. -/
theorem colonFields_iff {ln : List UInt8} {ws : List (List UInt8)} :
    firstThree ((lineText ln).splitOn 58) = some ws ↔
      ∃ name user passwd rest, ws = [name, user, passwd] ∧
        ln.drop 4 = name ++ 58 :: (user ++ 58 :: (passwd ++ rest)) ∧
        Field name ∧ Field user ∧ Field passwd ∧ Ends fieldByte rest := by
  have hsplit := List.takeWhile_append_dropWhile (p := fun c => c != 10) (l := ln.drop 4)
  rw [firstThree_splitOn_iff]
  constructor
  · rintro ⟨name, user, passwd, rest, rfl, htext, hname, huser, hpasswd, hrest⟩
    have hnl : ∀ c ∈ lineText ln, c ≠ 10 := fun c hc => by simpa using List.mem_takeWhile_imp hc
    simp only [htext, List.mem_append, List.mem_cons] at hnl
    refine ⟨name, user, passwd, rest ++ (ln.drop 4).dropWhile fun c => c != 10, rfl, ?_,
      field_iff.mpr ⟨hname.1, hname.2, fun h => hnl 10 (by simp [h]) rfl⟩,
      field_iff.mpr ⟨huser.1, huser.2, fun h => hnl 10 (by simp [h]) rfl⟩,
      field_iff.mpr ⟨hpasswd.1, hpasswd.2, fun h => hnl 10 (by simp [h]) rfl⟩,
      ends_fieldByte.mpr fun c hc => ?_⟩
    · calc ln.drop 4
          = lineText ln ++ (ln.drop 4).dropWhile fun c => c != 10 := hsplit.symm
        _ = _ := by simp only [htext, List.append_assoc, List.cons_append]
    · cases rest with
      | nil => exact .inr (by simpa using ends_dropWhile (fun c => c != 10) (ln.drop 4) c hc)
      | cons d rest => exact .inl (by simpa using hrest c hc)
  · rintro ⟨name, user, passwd, rest, rfl, htext, hname, huser, hpasswd, hrest⟩
    obtain ⟨hname, hname58, hname10⟩ := field_iff.mp hname
    obtain ⟨huser, huser58, huser10⟩ := field_iff.mp huser
    obtain ⟨hpasswd, hpasswd58, hpasswd10⟩ := field_iff.mp hpasswd
    have hused : ∀ c ∈ name ++ 58 :: (user ++ 58 :: passwd), (c != 10) = true := by
      simp only [bne_iff_ne, ne_eq]
      rintro c hc rfl
      simp [hname10, huser10, hpasswd10] at hc
    have hfront : (name ++ 58 :: (user ++ 58 :: passwd) ++ rest).takeWhile (fun c => c != 10) =
        name ++ 58 :: (user ++ 58 :: passwd) ++ rest.takeWhile fun c => c != 10 :=
      List.takeWhile_append_of_pos hused
    refine ⟨name, user, passwd, rest.takeWhile fun c => c != 10, rfl, ?_, ⟨hname, hname58⟩,
      ⟨huser, huser58⟩, ⟨hpasswd, hpasswd58⟩, fun c hc => ?_⟩
    · simp only [List.append_assoc, List.cons_append] at hfront
      rw [lineText, htext, hfront]
    · have hend := ends_of_beginning hrest (List.takeWhile_prefix fun c => c != 10) c hc
      have hnl := List.mem_takeWhile_imp (List.mem_of_mem_head? hc)
      rwa [fieldByte, hnl, Bool.and_true] at hend

/-! ## Pieces -/

/-- What the calls of `fgets` store: the lines, cut after 79 bytes. -/
def filePieces (content : List UInt8) : List (List UInt8) := cutAt (pieceEnd 10 79) [] content

/-- A piece that the loop takes for an entry; a piece of one byte has a 0 behind it. -/
def looksLikeEntry (option : UInt8) (piece : List UInt8) : Bool :=
  !skipped (piece.getD 0 0) && piece.getD 1 0 == option

/-- The string at `buf + 4`. -/
def entryText (piece : List UInt8) : List UInt8 := (piece.drop 4).takeWhile fun c => c != 0

def storeFields (ws : List (List UInt8)) (out : Login) : Login :=
  ⟨deleRhtSpace (ws.getD 0 out.DB_name), deleRhtSpace (ws.getD 1 out.User_name),
    deleRhtSpace (ws.getD 2 out.Passwd)⟩

theorem take_rhtSpaceLoop (s : List UInt8) {n : Nat} (hn : n ≤ s.length) :
    s.take (rhtSpaceLoop s n) = trimRight (s.take n) := by
  induction n with
  | zero => rfl
  | succ n ih =>
    have hlast : s[n]? = some s[n] := List.getElem?_eq_getElem hn
    have htake : s.take (n + 1) = s.take n ++ [s[n]] := List.take_succ_eq_append_getElem hn
    rw [rhtSpaceLoop, hlast, trimRight, htake, List.rdropWhile_concat]
    by_cases hspace : s[n] = 32
    · rw [if_pos (congrArg some hspace), if_pos (beq_iff_eq.mpr hspace), ih (by omega)]
      rfl
    · have hne : ¬ some s[n] = some 32 := fun h => hspace (Option.some.inj h)
      rw [if_neg hne, if_neg (by simpa using hspace), htake]

theorem deleRhtSpace_eq (s : List UInt8) : deleRhtSpace s = trimRight s := by
  rw [deleRhtSpace, take_rhtSpaceLoop s (Nat.le_refl _), List.take_length]

theorem buf_eq {piece : List UInt8} (h : piece.length ≤ 79) :
    splice (zeros 81) 0 (piece ++ [0]) = piece ++ zeros (81 - piece.length) :=
  splice_zeros_string (by omega)

theorem buf_getElem? {piece : List UInt8} (h : piece.length ≤ 79) {i : Nat} (hi : i < 81) :
    (splice (zeros 81) 0 (piece ++ [0]))[i]? = some (piece.getD i 0) := by
  rw [buf_eq h, List.getD_eq_getElem?_getD]
  rcases Nat.lt_or_ge i piece.length with hlt | hge
  · rw [List.getElem?_append_left hlt, List.getElem?_eq_getElem hlt]
    rfl
  · rw [List.getElem?_append_right hge, List.getElem?_eq_none hge, zeros,
      List.getElem?_replicate_of_lt (by omega)]
    rfl

theorem load_entryText {piece : List UInt8} (h : piece.length ≤ 79) :
    load ((splice (zeros 81) 0 (piece ++ [0])).drop 4) = some (entryText piece) := by
  have hdrop : (splice (zeros 81) 0 (piece ++ [0])).drop 4 =
      piece.drop 4 ++ zeros (81 - piece.length - (4 - piece.length)) := by
    rw [buf_eq h, List.drop_append, zeros, zeros, List.drop_replicate]
  rw [hdrop]
  exact (holds_append_zeros _ (by omega)).load

theorem entryFormat_getD (piece : List UInt8) :
    entryFormat (some (piece.getD 3 0)) = entryFormat piece[3]? := by
  rw [List.getD_eq_getElem?_getD]
  cases piece[3]? <;> rfl

theorem sscanf_eq {piece : List UInt8} (h : piece.length ≤ 79) (format : List (Directive UInt8))
    (out : Login) : sscanf ((splice (zeros 81) 0 (piece ++ [0])).drop 4) format out =
      some ⟨(fields format (entryText piece)).getD 0 out.DB_name,
        (fields format (entryText piece)).getD 1 out.User_name,
        (fields format (entryText piece)).getD 2 out.Passwd⟩ := by
  rw [sscanf, load_entryText h]
  rfl

theorem loginLoop_step (option : UInt8) (fuel : Nat) {content piece rest : List UInt8}
    (h : fgets 80 content = some (piece, rest)) (hlen : piece.length ≤ 79) (out : Login) :
    loginLoop option (fuel + 1) content out =
      if looksLikeEntry option piece then
        some (0, storeFields (fields (entryFormat piece[3]?) (entryText piece)) out)
      else loginLoop option fuel rest out := by
  rw [loginLoop, h, looksLikeEntry]
  simp only [Option.bind_eq_bind, buf_getElem? hlen (show 0 < 81 by decide),
    buf_getElem? hlen (show 1 < 81 by decide), buf_getElem? hlen (show 3 < 81 by decide),
    Option.bind_some, entryFormat_getD, sscanf_eq hlen]
  cases hskip : skipped (piece.getD 0 0) with
  | true => rfl
  | false =>
    rw [if_neg Bool.false_ne_true]
    by_cases hopt : piece.getD 1 0 = option
    · rw [if_pos hopt, if_pos (by simpa using hopt)]
      rfl
    · rw [if_neg hopt, if_neg (by simpa using hopt)]

/-- The loop takes the first piece that looks like an entry. -/
theorem loginLoop_eq (option : UInt8) {fuel : Nat} {content : List UInt8}
    (hfuel : content.length < fuel) (out : Login) :
    loginLoop option fuel content out =
      match (filePieces content).find? (looksLikeEntry option) with
      | none => some (-42, out)
      | some piece =>
        some (0, storeFields (fields (entryFormat piece[3]?) (entryText piece)) out) := by
  induction fuel generalizing content with
  | zero => omega
  | succ fuel ih =>
    by_cases hend : content = []
    · subst hend
      rfl
    · have hget : fgets 80 content = some (readPiece 10 79 content) := if_neg hend
      have hlen := readPiece_length_le 10 79 content
      have hrest := readPiece_length_lt 10 (show 0 < 79 by decide) hend
      have hpieces : filePieces content = (readPiece 10 79 content).1 ::
          filePieces (readPiece 10 79 content).2 :=
        cutAt_readPiece rfl (by decide) (.inr hend)
      rw [loginLoop_step option fuel hget hlen, hpieces, List.find?_cons, ih (by omega)]
      cases looksLikeEntry option (readPiece 10 79 content).1 <;> rfl

/-! ## Which files are read right -/

/-- `used` ends within the first 79 bytes of a line, with no NUL and no newline in it. -/
def Seen (used : List UInt8) : Prop := used.length ≤ 75 ∧ 0 ∉ used ∧ 10 ∉ used

/-- Three fields with only spaces between the last one and the next `:` or the end of the line;
the last one is a word, and the piece ends with it when a `:` comes at once. -/
def ColonsInReach (ln : List UInt8) : Prop :=
  ∃ name user passwd pad rest,
    ln.drop 4 = name ++ 58 :: (user ++ 58 :: (passwd ++ (pad ++ rest))) ∧
    Field name ∧ Field user ∧ Field passwd ∧ (∀ c ∈ passwd, isspace c = false) ∧
    (∀ c ∈ pad, c = 32) ∧ Ends fieldByte rest ∧
    Seen (name ++ 58 :: (user ++ 58 :: passwd)) ∧
    ((pad ++ rest).head? = some 58 → (name ++ 58 :: (user ++ 58 :: passwd)).length = 75)

/-- Three words. -/
def WordsInReach (ln : List UInt8) : Prop :=
  ∃ ws used rest, ln.drop 4 = used ++ rest ∧ ThreeWords ws used rest ∧ Seen used

def InReach (ln : List UInt8) : Prop :=
  if ln[3]? = some 58 then ColonsInReach ln else WordsInReach ln

/-- The first piece that looks like an entry is the beginning of the matching entry. -/
def ReadRight (option : UInt8) (content : List UInt8) : Prop :=
  ∀ piece, (filePieces content).find? (looksLikeEntry option) = some piece →
    ∃ ln, (lines content).find? (isEntry option) = some ln ∧ piece = ln.take 79 ∧ InReach ln

/-- There is a matching entry, but the first piece that looks like one is something else. -/
def Misplaced (option : UInt8) (content : List UInt8) : Prop :=
  ∃ piece ln, (filePieces content).find? (looksLikeEntry option) = some piece ∧
    (lines content).find? (isEntry option) = some ln ∧ piece ≠ ln.take 79

/-- The code's format reads the fields of the line off the line's first piece. -/
def SeesFields (ln : List UInt8) : Prop :=
  ∃ ws ws' r, scan (entryFormat ln[3]?) (entryText (ln.take 79)) = some (ws, r) ∧
    firstThree (lineFields ln) = some ws' ∧ ws.map trimRight = ws'.map trimRight

theorem trimRight_nextWord {w : List UInt8} (h : ∀ c ∈ w, (!isspace c) = true) :
    trimRight w = w := by
  refine List.rdropWhile_eq_self_iff.mpr fun hne => ?_
  have hlast := h _ (List.getLast_mem hne)
  intro hspace
  rw [beq_iff_eq.mp hspace] at hlast
  cases hlast

/-- Either format ends with a word, and no word ends with a space. -/
theorem entryFormat_last (separator : Option UInt8) :
    ∀ d ∈ (entryFormat separator).getLast?, d = nextWord := by
  intro d hd
  rw [entryFormat] at hd
  split at hd
  · exact (Option.some.inj hd).symm
  · exact (Option.some.inj hd).symm

theorem trimRight_last (separator : Option UInt8) :
    ∀ d ∈ (entryFormat separator).getLast?, ∀ skip keep, d = .field skip keep →
      ∀ w : List UInt8, (∀ c ∈ w, keep c = true) → trimRight w = w := by
  rintro d hd skip keep rfl w hw
  have hword := entryFormat_last separator _ hd
  rw [nextWord, Directive.field.injEq] at hword
  rw [hword.2] at hw
  exact trimRight_nextWord hw

theorem entryText_take (ln : List UInt8) :
    entryText (ln.take 79) = ((ln.drop 4).take 75).takeWhile fun c => c != 0 := by
  rw [entryText, List.drop_take]

theorem entryText_prefix (ln : List UInt8) : entryText (ln.take 79) <+: ln.drop 4 := by
  rw [entryText_take]
  exact (List.takeWhile_prefix _).trans (List.take_prefix _ _)

/-- What is within reach is in the string at `buf + 4`. -/
theorem entryText_split {ln used rest : List UInt8} (h : ln.drop 4 = used ++ rest)
    (hlen : used.length ≤ 75) (h0 : 0 ∉ used) :
    entryText (ln.take 79) =
      used ++ (rest.take (75 - used.length)).takeWhile fun c => c != 0 := by
  have hnonzero : ∀ c ∈ used, (c != 0) = true := fun c hc => by
    simpa using fun h : c = 0 => h0 (h ▸ hc)
  rw [entryText_take, h, List.take_append, List.take_of_length_le hlen,
    List.takeWhile_append_of_pos hnonzero]

/-- What is in the string at `buf + 4` is within reach. -/
theorem length_le_of_entryText {ln used r : List UInt8} (h : entryText (ln.take 79) = used ++ r) :
    used.length ≤ 75 ∧ 0 ∉ used := by
  rw [entryText_take] at h
  constructor
  · have hpart := (List.takeWhile_prefix (l := (ln.drop 4).take 75) fun c => c != 0).length_le
    have htake := List.length_take_le 75 (ln.drop 4)
    have hsum := congrArg List.length h
    rw [List.length_append] at hsum
    omega
  · intro h0
    have hmem : (0 : UInt8) ∈ ((ln.drop 4).take 75).takeWhile fun c => c != 0 :=
      h ▸ List.mem_append_left _ h0
    exact absurd (List.mem_takeWhile_imp hmem) (by decide)

/-- The string at `buf + 4` goes on as long as the line and the piece do. -/
theorem length_eq_of_entryText {ln used rest : List UInt8} {c : UInt8}
    (h : entryText (ln.take 79) = used) (hline : ln.drop 4 = used ++ c :: rest) (hc : c ≠ 0) :
    used.length = 75 := by
  obtain ⟨hlen, h0⟩ := length_le_of_entryText (h.trans (List.append_nil _).symm)
  have hnext : ln.drop 4 = (used ++ [c]) ++ rest := by
    rw [hline, List.append_assoc]
    rfl
  by_contra hshort
  have hlonger := entryText_split hnext
    (by rw [List.length_append, List.length_singleton]; omega) (by simp [h0, hc.symm])
  have hsum := congrArg List.length (h.symm.trans hlonger)
  rw [List.length_append, List.length_append, List.length_singleton] at hsum
  omega

theorem seesFields_words_iff {ln : List UInt8} (hsep : ln[3]? ≠ some 58) :
    SeesFields ln ↔ WordsInReach ln := by
  rw [SeesFields, lineFields, if_neg hsep]
  simp only [wordFields_iff]
  constructor
  · rintro ⟨ws, ws', r, hseen, ⟨used, rest, hline, hthree, hnl⟩, hsame⟩
    obtain ⟨more, hmore⟩ := entryText_prefix ln
    have hwhole := (scan_words_iff hsep).mpr ⟨used, hline, hthree⟩
    rw [← hmore] at hwhole
    obtain ⟨rfl, rfl⟩ := scan_append_same (trimRight_last _) hseen hwhole hsame
    have htext : entryText (ln.take 79) = used ++ r := by
      rw [← hmore, ← List.append_assoc] at hline
      exact List.append_cancel_right hline
    obtain ⟨hlen, h0⟩ := length_le_of_entryText htext
    exact ⟨ws, used, _, hline, hthree, hlen, h0, hnl⟩
  · rintro ⟨ws, used, rest, hline, hthree, hlen, h0, hnl⟩
    obtain ⟨_, _, _, _, _, _, -, -, -, -, hpasswd⟩ := id hthree
    have hseen : (rest.take (75 - used.length)).takeWhile (fun c => c != 0) <+: rest :=
      (List.takeWhile_prefix _).trans (List.take_prefix _ _)
    refine ⟨ws, ws, _, (scan_words_iff hsep).mpr ⟨used, entryText_split hline hlen h0, ?_⟩,
      ⟨used, rest, hline, hthree, hnl⟩, rfl⟩
    exact threeWords_of_ends hthree (ends_of_beginning hpasswd.2.2.2 hseen)

/-- Between colons the text is cut where the code cuts it. -/
theorem append_colon_inj {w w' rest rest' : List UInt8} (hw : 58 ∉ w) (hw' : 58 ∉ w')
    (h : w ++ 58 :: rest = w' ++ 58 :: rest') : w = w' ∧ rest = rest' := by
  have hfree {v : List UInt8} (hv : 58 ∉ v) : ∀ c ∈ v, (c != 58) = true := fun c hc => by
    simpa using fun he : c = 58 => hv (he ▸ hc)
  obtain ⟨rfl, htail⟩ := append_inj h (hfree hw) (ends_cons (by decide)) (hfree hw')
    (ends_cons (by decide))
  exact ⟨rfl, (List.cons.inj htail).2⟩

theorem trimRight_append_pad {w pad : List UInt8} (hw : ∀ c ∈ w, isspace c = false)
    (hpad : ∀ c ∈ pad, c = 32) : trimRight (w ++ pad) = w := by
  have hends : Ends (fun c => c == 32) w.reverse := fun c hc => by
    have hword := hw c (List.mem_reverse.mp (List.mem_of_mem_head? hc))
    simpa using fun he : c = 32 => by simp [he, isspace] at hword
  rw [trimRight, List.rdropWhile, List.reverse_append,
    dropWhile_append (by simpa using hpad) hends, List.reverse_reverse]

/-- Spaces behind the last field, and none in front of it. -/
theorem passwd_split {gap passwd passwd' rest more : List UInt8}
    (h : gap ++ (passwd ++ more) = passwd' ++ rest) (hgap : ∀ c ∈ gap, isspace c = true)
    (hne : passwd ≠ []) (hword : ∀ c ∈ passwd, isspace c = false)
    (hsame : passwd = trimRight passwd') :
    gap = [] ∧ ∃ pad, passwd' = passwd ++ pad ∧ (∀ c ∈ pad, c = 32) ∧ more = pad ++ rest := by
  have hsplit := List.rdropWhile_append_rtakeWhile (p := fun c : UInt8 => c == 32) (l := passwd')
  rw [← trimRight, ← hsame] at hsplit
  rw [← hsplit, List.append_assoc] at h
  have hends (t : List UInt8) : Ends isspace (passwd ++ t) := fun c hc => by
    rw [List.head?_append_of_ne_nil _ hne] at hc
    exact hword c (List.mem_of_mem_head? hc)
  obtain ⟨rfl, hrest⟩ :=
    append_inj (h.trans (List.nil_append _).symm) hgap (hends _) nofun (hends _)
  refine ⟨rfl, _, hsplit.symm, fun c hc => ?_, List.append_cancel_left hrest⟩
  simpa using List.mem_rtakeWhile_imp hc

theorem colonsInReach_of_sees {ln : List UInt8} (hsep : ln[3]? = some 58) (h : SeesFields ln) :
    ColonsInReach ln := by
  rw [SeesFields, lineFields, if_pos hsep, hsep] at h
  simp only [scan_colons_iff, colonFields_iff] at h
  obtain ⟨-, -, r, ⟨name, user, gap, passwd, rfl, hseen, hname, huser, hgap, hne, hword, hends⟩,
    ⟨name', user', passwd', rest, rfl, hline, hname', huser', hpasswd', hrest⟩, hsame⟩ := h
  obtain ⟨more, hmore⟩ := entryText_prefix ln
  have hboth := hline
  rw [← hmore, hseen] at hboth
  simp only [List.append_assoc, List.cons_append] at hboth
  obtain ⟨rfl, hboth₁⟩ := append_colon_inj hname.2 (field_iff.mp hname').2.1 hboth
  obtain ⟨rfl, hboth₂⟩ := append_colon_inj huser.2 (field_iff.mp huser').2.1 hboth₁
  have hlast : passwd = trimRight passwd' := by
    have hthird := congrArg (fun ws => ws[2]?) hsame
    have hclean : trimRight passwd = passwd := trimRight_nextWord (by simpa using hword)
    exact hclean.symm.trans (Option.some.inj hthird)
  obtain ⟨rfl, pad, rfl, hpad, hafter⟩ := passwd_split hboth₂ hgap hne hword hlast
  have hused : entryText (ln.take 79) = name ++ 58 :: (user ++ 58 :: passwd) ++ r := by
    rw [hseen]
    simp
  have hwhole : ln.drop 4 = name ++ 58 :: (user ++ 58 :: passwd) ++ (pad ++ rest) := by
    rw [hline]
    simp
  obtain ⟨hlen, h0⟩ := length_le_of_entryText hused
  have hfield : Field passwd := ⟨hne, fun c hc => hpasswd'.2 c (List.mem_append_left _ hc)⟩
  have hnl : 10 ∉ name ++ 58 :: (user ++ 58 :: passwd) := by
    simp [(field_iff.mp hname').2.2, (field_iff.mp huser').2.2, (field_iff.mp hfield).2.2]
  refine ⟨name, user, passwd, pad, rest, ?_, hname', huser', hfield, hword, hpad, hrest,
    ⟨hlen, h0, hnl⟩, fun hcolon => ?_⟩
  · rw [hline, List.append_assoc]
  · -- a `:` in the piece would have been read into the word
    obtain ⟨t, ht⟩ := List.head?_eq_some_iff.mp hcolon
    have hr : r = [] := by
      cases r with
      | nil => rfl
      | cons c r =>
        rw [ht] at hafter
        have hspace := hends c rfl
        rw [(List.cons.inj hafter).1] at hspace
        exact absurd hspace (by decide)
    rw [hr, List.append_nil] at hused
    exact length_eq_of_entryText hused (hwhole.trans (congrArg _ ht)) (by decide)

/-- Without a `:` behind them the spaces and the end of the line end the word. -/
theorem ends_pad {pad rest : List UInt8} (hpad : ∀ c ∈ pad, c = 32) (hrest : Ends fieldByte rest)
    (hcolon : (pad ++ rest).head? ≠ some 58) : Ends (fun c => !isspace c) (pad ++ rest) := by
  intro c hc
  cases pad with
  | nil =>
    rcases ends_fieldByte.mp hrest c hc with rfl | rfl
    · exact absurd hc hcolon
    · rfl
  | cons d pad =>
    cases hc
    rw [hpad _ List.mem_cons_self]
    rfl

theorem sees_of_colonsInReach {ln : List UInt8} (hsep : ln[3]? = some 58)
    (h : ColonsInReach ln) : SeesFields ln := by
  rw [SeesFields, lineFields, if_pos hsep, hsep]
  simp only [scan_colons_iff, colonFields_iff]
  obtain ⟨name, user, passwd, pad, rest, hline, hname, huser, hpasswd, hword, hpad, hrest,
    ⟨hlen, h0, -⟩, hcolon⟩ := h
  have hused : ln.drop 4 = name ++ 58 :: (user ++ 58 :: passwd) ++ (pad ++ rest) := by
    rw [hline]
    simp
  have hsplit := entryText_split hused hlen h0
  have hends : Ends (fun c => !isspace c)
      (((pad ++ rest).take (75 - (name ++ 58 :: (user ++ 58 :: passwd)).length)).takeWhile
        fun c => c != 0) := by
    by_cases hhead : (pad ++ rest).head? = some 58
    · rw [hcolon hhead]
      exact ends_nil _
    · exact ends_of_beginning (ends_pad hpad hrest hhead)
        ((List.takeWhile_prefix _).trans (List.take_prefix _ _))
  have hwhole : Field (passwd ++ pad) := by
    refine ⟨List.append_ne_nil_of_left_ne_nil hpasswd.1 _, fun c hc => ?_⟩
    rcases List.mem_append.mp hc with hc | hc
    · exact hpasswd.2 c hc
    · rw [hpad c hc]
      rfl
  refine ⟨_, _, _, ⟨name, user, [], passwd, rfl, ?_, ⟨hname.1, (field_iff.mp hname).2.1⟩,
      ⟨huser.1, (field_iff.mp huser).2.1⟩, nofun, hpasswd.1, hword, hends⟩,
    ⟨name, user, passwd ++ pad, rest, rfl, ?_, hname, huser, hwhole, hrest⟩, ?_⟩
  · rw [hsplit]
    simp
  · rw [hline, List.append_assoc]
  · have hclean : trimRight passwd = passwd := trimRight_nextWord (by simpa using hword)
    simp only [List.map_cons, List.map_nil, trimRight_append_pad hword hpad, hclean]

theorem seesFields_iff (ln : List UInt8) : SeesFields ln ↔ InReach ln := by
  rw [InReach]
  split
  · next hsep => exact ⟨colonsInReach_of_sees hsep, sees_of_colonsInReach hsep⟩
  · next hsep => exact seesFields_words_iff hsep

/-- An entry's first piece looks like one. -/
theorem looksLikeEntry_take {option : UInt8} {ln : List UInt8} (h : isEntry option ln = true) :
    looksLikeEntry option (ln.take 79) = true := by
  rw [isEntry, Bool.and_eq_true, beq_iff_eq] at h
  rw [looksLikeEntry, List.getD_eq_getElem?_getD, List.getD_eq_getElem?_getD,
    List.getElem?_take_of_lt (by decide), List.getElem?_take_of_lt (by decide), h.2,
    ← List.getD_eq_getElem?_getD, h.1]
  exact beq_self_eq_true option

/-- What the loop finds on a file whose entry it reads right. -/
def LoopExact (option : UInt8) (content : List UInt8) : Prop :=
  ∀ out, ∃ code out', loginLoop option (content.length + 1) content out = some (code, out') ∧
    match entryFields option content with
    | some ws => code = 0 ∧ out'.texts = ws.map trimRight
    | none => code < 0

theorem entryFormat_countP (separator : Option UInt8) :
    (entryFormat separator).countP Directive.isField = 3 := by
  rw [entryFormat]
  split <;> rfl

theorem storeFields_three {ws : List (List UInt8)} (h : ws.length = 3) (out : Login) :
    (storeFields ws out).texts = ws.map trimRight := by
  obtain ⟨a, b, c, rfl⟩ := List.length_eq_three.mp h
  simp [storeFields, Login.texts, deleRhtSpace_eq]

/-- Fewer than three fields leave the password as it was. -/
theorem three_le_of_storeFields {ws result : List (List UInt8)}
    (h : ∀ out, (storeFields ws out).texts = result) : 3 ≤ ws.length := by
  by_contra hshort
  have hpasswd (old : List UInt8) :
      (storeFields ws ⟨[], [], old⟩).texts[2]? = some (trimRight old) := by
    have hold : ws.getD 2 old = old := by
      rw [List.getD_eq_getElem?_getD, List.getElem?_eq_none (by omega), Option.getD_none]
    calc (storeFields ws ⟨[], [], old⟩).texts[2]?
        = some (deleRhtSpace (ws.getD 2 old)) := rfl
      _ = some (trimRight old) := by rw [hold, deleRhtSpace_eq]
  have hsame : some (trimRight [65]) = some (trimRight [66]) := by
    rw [← hpasswd, ← hpasswd, h, h]
  exact absurd hsame (by decide)

/-- Without a matching entry no first piece of a line looks like one. -/
theorem find_isEntry_none {option : UInt8} {content : List UInt8}
    (h : (filePieces content).find? (looksLikeEntry option) = none) :
    (lines content).find? (isEntry option) = none := by
  rw [List.find?_eq_none] at h ⊢
  intro ln hline hentry
  exact h _ (take_mem_cutAt (by decide) hline) (looksLikeEntry_take hentry)

/-- What the loop stores are three fields of the piece, and those of the matching entry. -/
theorem same_of_loopExact {option : UInt8} {content piece : List UInt8}
    (h : LoopExact option content)
    (hpiece : (filePieces content).find? (looksLikeEntry option) = some piece) :
    ∃ ln ws ws' r, (lines content).find? (isEntry option) = some ln ∧
      scan (entryFormat piece[3]?) (entryText piece) = some (ws, r) ∧
      firstThree (lineFields ln) = some ws' ∧ ws.map trimRight = ws'.map trimRight := by
  have hloop (out : Login) := loginLoop_eq option (Nat.lt_succ_self content.length) out
  simp only [hpiece] at hloop
  cases hentry : entryFields option content with
  | none =>
    obtain ⟨code, out', hcode, hneg⟩ := h ⟨[], [], []⟩
    rw [hentry] at hneg
    cases (hloop _).symm.trans hcode
    exact absurd hneg (Int.lt_irrefl 0)
  | some ws' =>
    have hstore (out : Login) : (storeFields (fields (entryFormat piece[3]?) (entryText piece))
        out).texts = ws'.map trimRight := by
      obtain ⟨code, out', hcode, hzero⟩ := h out
      rw [hentry] at hzero
      cases (hloop out).symm.trans hcode
      exact hzero.2
    have hthree := three_le_of_storeFields hstore
    have hlast : ∀ d ∈ (entryFormat piece[3]?).getLast?, d.isField = true := fun d hd => by
      rw [entryFormat_last _ d hd]
      rfl
    obtain ⟨r, hr⟩ := scan_of_fields hlast (by rwa [entryFormat_countP])
    have hlen := (scan_length hr).trans (entryFormat_countP _)
    have hsame := (storeFields_three hlen ⟨[], [], []⟩).symm.trans (hstore _)
    rw [entryFields] at hentry
    obtain ⟨ln, hline, hfields⟩ := Option.bind_eq_some_iff.mp hentry
    exact ⟨ln, _, ws', r, hline, hr, hfields, hsame⟩

theorem readRight_of_loopExact {option : UInt8} {content : List UInt8}
    (hplace : ¬ Misplaced option content) (h : LoopExact option content) :
    ReadRight option content := by
  intro piece hpiece
  obtain ⟨ln, ws, ws', r, hline, hscan, hfields, hsame⟩ := same_of_loopExact h hpiece
  have hbegin : piece = ln.take 79 := by
    by_contra hne
    exact hplace ⟨piece, ln, hpiece, hline, hne⟩
  have hformat : (ln.take 79)[3]? = ln[3]? := List.getElem?_take_of_lt (by decide)
  rw [hbegin, hformat] at hscan
  exact ⟨ln, hline, hbegin, (seesFields_iff ln).mp ⟨ws, ws', r, hscan, hfields, hsame⟩⟩

theorem loopExact_of_readRight {option : UInt8} {content : List UInt8}
    (h : ReadRight option content) : LoopExact option content := by
  intro out
  have hloop := loginLoop_eq option (Nat.lt_succ_self content.length) out
  cases hpiece : (filePieces content).find? (looksLikeEntry option) with
  | none =>
    rw [hpiece] at hloop
    have hentry : entryFields option content = none := by
      rw [entryFields, find_isEntry_none hpiece]
      rfl
    refine ⟨-42, out, hloop, ?_⟩
    rw [hentry]
    exact (by decide : (-42 : Int) < 0)
  | some piece =>
    obtain ⟨ln, hline, rfl, hreach⟩ := h piece hpiece
    obtain ⟨ws, ws', r, hr, hfields, hsame⟩ := (seesFields_iff ln).mpr hreach
    have hformat : (ln.take 79)[3]? = ln[3]? := List.getElem?_take_of_lt (by decide)
    rw [hpiece] at hloop
    refine ⟨0, _, hloop, ?_⟩
    have hlen := (scan_length hr).trans (entryFormat_countP _)
    have hentry : entryFields option content = some ws' := by
      rw [entryFields, hline, Option.bind_eq_bind, Option.bind_some, hfields]
    rw [hentry, hformat, scan_fields hr]
    exact ⟨rfl, (storeFields_three hlen out).trans hsame⟩

theorem getLoginInfo_loop {home : Option Text}
    (h : (printStr home).length + dbloginIni.length < 512)
    (fopen : List UInt8 → Option (List UInt8)) (option : UInt8) (out : Login) :
    getLoginInfo home fopen option out =
      match loginFile home fopen with
      | none => some (-33, out)
      | some fp => loginLoop option (fp.length + 1) fp out := by
  rw [getLoginInfo, if_neg (Nat.not_le.mpr h), loginFile]

/-- The name of the file fits, and the file is read right. -/
def LoginReadRight (home : Option Text) (fopen : List UInt8 → Option (List UInt8))
    (option : UInt8) : Prop :=
  (printStr home).length + dbloginIni.length < 512 ∧
    ∀ content, loginFile home fopen = some content → ReadRight option content

theorem loginExact_of_readRight {home : Option Text} {fopen : List UInt8 → Option (List UInt8)}
    {option : UInt8} (h : LoginReadRight home fopen option) : LoginExact home fopen option := by
  obtain ⟨hfits, hright⟩ := h
  intro out
  rw [getLoginInfo_loop hfits]
  cases hcontent : loginFile home fopen with
  | none => exact ⟨-33, out, rfl, (by decide : (-33 : Int) < 0)⟩
  | some content => exact loopExact_of_readRight (hright content hcontent) out

theorem readRight_of_loginExact {home : Option Text} {fopen : List UInt8 → Option (List UInt8)}
    {option : UInt8}
    (hplace : ∀ content, loginFile home fopen = some content → ¬ Misplaced option content)
    (hexact : LoginExact home fopen option) : LoginReadRight home fopen option := by
  obtain ⟨code, out', hcode, -⟩ := hexact ⟨[], [], []⟩
  have hfits : (printStr home).length + dbloginIni.length < 512 := by
    refine Nat.not_le.mp fun hlong => ?_
    rw [getLoginInfo, if_pos hlong] at hcode
    cases hcode
  refine ⟨hfits, fun content hcontent => ?_⟩
  refine readRight_of_loopExact (hplace content hcontent) fun out => ?_
  have hout := hexact out
  rwa [getLoginInfo_loop hfits, hcontent, Option.bind_some] at hout

/-- Exact unless the first piece that looks like an entry stands in front of the matching entry:
then only the same three fields in both could make the result right. -/
theorem getLoginInfo_exact (home : Option Text) (fopen : List UInt8 → Option (List UInt8))
    (option : UInt8) :
    (LoginReadRight home fopen option → LoginExact home fopen option) ∧
    ((∀ content, loginFile home fopen = some content → ¬ Misplaced option content) →
      LoginExact home fopen option → LoginReadRight home fopen option) :=
  ⟨loginExact_of_readRight, readRight_of_loginExact⟩

/-- `x1 :a:b c:d  \n` -/
def colonEntry : List UInt8 := [120, 49, 32, 58, 97, 58, 98, 32, 99, 58, 100, 32, 32, 10]

theorem getLoginInfo_exact_colonEntry :
    LoginReadRight (some .empty) (fun _ => some colonEntry) 49 ∧
      LoginExact (some .empty) (fun _ => some colonEntry) 49 := by
  have hright : LoginReadRight (some .empty) (fun _ => some colonEntry) 49 := by
    refine ⟨by decide, fun content hcontent piece hpiece => ?_⟩
    cases hcontent
    have hfirst : (filePieces colonEntry).find? (looksLikeEntry 49) = some colonEntry := by decide
    have hline : (lines colonEntry).find? (isEntry 49) = some colonEntry := by decide
    cases hfirst.symm.trans hpiece
    refine ⟨colonEntry, hline, by decide, ?_⟩
    have hname : Field [97] := ⟨by decide, List.all_eq_true.mp rfl⟩
    have huser : Field [98, 32, 99] := ⟨by decide, List.all_eq_true.mp rfl⟩
    have hpasswd : Field [100] := ⟨by decide, List.all_eq_true.mp rfl⟩
    have hword (c : UInt8) (hc : c ∈ [100]) : isspace c = false := List.mem_singleton.mp hc ▸ rfl
    have hpad (c : UInt8) (hc : c ∈ List.replicate 2 32) : c = 32 := List.eq_of_mem_replicate hc
    have hend : Ends fieldByte [10] := ends_cons rfl
    exact ⟨[97], [98, 32, 99], [100], [32, 32], [10], by decide, hname, huser, hpasswd, hword, hpad,
      hend, ⟨by decide, by decide, by decide⟩, by decide⟩
  exact ⟨hright, (getLoginInfo_exact _ _ _).1 hright⟩

/-- A comment line: `#`, 78 times `x`, then `x1 :a:b:c`. -/
def longComment : List UInt8 :=
  35 :: List.replicate 78 120 ++ [120, 49, 32, 58, 97, 58, 98, 58, 99, 10]

/-- The end of a long comment is taken as an entry. -/
theorem not_getLoginInfo_exact : ¬ ∀ home fopen option, LoginExact home fopen option := by
  intro h
  obtain ⟨code, out', hcode, hneg⟩ := h (some .empty) (fun _ => some longComment) 49
    ⟨[], [], []⟩
  have hentry : (loginFile (some .empty) fun _ => some longComment).bind
      (entryFields 49) = none := by decide
  have hread : getLoginInfo (some .empty) (fun _ => some longComment) 49 ⟨[], [], []⟩ =
      some (0, ⟨[97], [98], [99]⟩) := by decide
  rw [hentry] at hneg
  cases hcode.symm.trans hread
  exact absurd hneg (Int.lt_irrefl 0)

end Netepoll
