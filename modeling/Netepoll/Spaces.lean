import Netepoll.LoginInfo

/-! `deleRhtSpace`, `deleLftSpace` and `deleAllSpace` (tool.c) on the array that holds their
argument. Lengths are those of `strlen`, converted to `int`. -/

namespace Netepoll

open CString Words

namespace Tool

def deleRhtSpace (string : Block) : Option Block := do
  let l := toInt ((← strlen string) - 1)
  -- `string + l + 1` in front of the array
  if l < -1 then none
  else
    let l := rhtSpaceLoop string (l + 1).toNat
    -- `l++`
    if intMax < l then none else poke string l 0

/-- `i` after the loop of `deleLftSpace`, for `k` more values from `i` on. -/
def lftSpaceLoop (string : Block) : Nat → Nat → Option Nat
  | 0, i => some i
  | k + 1, i => do
    let c ← string[i]?
    if c ≠ 32 then some i else lftSpaceLoop string k (i + 1)

def deleLftSpace (string : Block) : Option Block := do
  let l := toInt (← strlen string)
  let i ← lftSpaceLoop string l.toNat 0
  let str ← strncpy (zeros 512) (string.drop i) 511
  strcpy string str

/-- The loop of `deleAllSpace` for `k` more values from `n` on: `ptr` and `string` after it. -/
def allSpaceLoop : Nat → Nat → Nat → Block → Option (Nat × Block)
  | 0, _, ptr, string => some (ptr, string)
  | k + 1, n, ptr, string => do
    let c ← string[n]?
    if c ≠ 32 then do
      let string ← poke string ptr c
      allSpaceLoop k (n + 1) (ptr + 1) string
    else allSpaceLoop k (n + 1) ptr string

/-- `strlen(string)` is at most 511 there. -/
def deleAllSpace (str : Block) : Option Block := do
  let string ← strncpy (zeros 512) str 511
  let l ← strlen string
  let (ptr, string) ← allSpaceLoop l 0 0 string
  let string ← poke string ptr 0
  strcpy str string

end Tool

/-! ## What the functions are for -/

def trimLeft (s : List UInt8) : List UInt8 := s.dropWhile (· == 32)

def noSpaces (s : List UInt8) : List UInt8 := s.filter fun c => !(c == 32)

/-- Called on an array that holds `s`, the function leaves `r` in it. -/
def Yields (f : Block → Option Block) (s r : List UInt8) : Prop :=
  ∀ b, Holds b s → ∃ b', f b = some b' ∧ Holds b' r

/-- One call after the other. -/
def callAll : List (Block → Option Block) → Block → Option Block
  | [], b => some b
  | f :: fs, b => (f b).bind (callAll fs)

/-- Every function deletes the spaces it is named for and nothing else, a second time it deletes
nothing, and the order of the calls does not matter. -/
structure OnlySpaces (s : List UInt8) : Prop where
  right : Yields Tool.deleRhtSpace s (trimRight s)
  left : Yields Tool.deleLftSpace s (trimLeft s)
  all : Yields Tool.deleAllSpace s (noSpaces s)
  rightTwice : Yields (fun b => (Tool.deleRhtSpace b).bind Tool.deleRhtSpace) s (trimRight s)
  leftTwice : Yields (fun b => (Tool.deleLftSpace b).bind Tool.deleLftSpace) s (trimLeft s)
  allTwice : Yields (fun b => (Tool.deleAllSpace b).bind Tool.deleAllSpace) s (noSpaces s)
  commute : ∃ r, Yields (fun b => (Tool.deleRhtSpace b).bind Tool.deleLftSpace) s r ∧
    Yields (fun b => (Tool.deleLftSpace b).bind Tool.deleRhtSpace) s r
  sequence : ∀ fs : List (Block → Option Block),
    (∀ f ∈ fs, f = Tool.deleRhtSpace ∨ f = Tool.deleLftSpace) →
      Yields (fun b => (callAll fs b).bind Tool.deleAllSpace) s (noSpaces s)

theorem Yields.comp {f g : Block → Option Block} {s r t : List UInt8} (hf : Yields f s r)
    (hg : Yields g r t) : Yields (fun b => (f b).bind g) s t := by
  intro b hb
  obtain ⟨b', hfb, hb'⟩ := hf b hb
  obtain ⟨b'', hgb, hb''⟩ := hg b' hb'
  exact ⟨b'', (congrArg (Option.bind · g) hfb).trans hgb, hb''⟩

/-- The result is unique. -/
theorem Yields.unique {f : Block → Option Block} {s r r' : List UInt8} (hs : 0 ∉ s)
    (h : Yields f s r) (h' : Yields f s r') : r = r' := by
  obtain ⟨b, hb, hr⟩ := h _ (holds_terminated hs)
  obtain ⟨b', hb', hr'⟩ := h' _ (holds_terminated hs)
  cases hb.symm.trans hb'
  exact hr.unique hr'

/-! ## One call -/

theorem toInt_pred {n : Nat} (h : (n : Int) ≤ intMax) : toInt ((n : Int) - 1) = (n : Int) - 1 := by
  unfold intMax at h
  exact Int.bmod_eq_of_le (by omega) (by omega)

/-- A length that is no `int` becomes shorter by 512 at least. -/
theorem toInt_lt {n : Nat} (h : intMax < n) : (toInt n).toNat + 512 ≤ n := by
  unfold intMax at h
  unfold toInt
  rw [Int.bmod_def]
  split <;> omega

theorem rhtSpaceLoop_congr {b s : List UInt8} (h : ∀ i < s.length, b[i]? = s[i]?) {n : Nat}
    (hn : n ≤ s.length) : rhtSpaceLoop b n = rhtSpaceLoop s n := by
  induction n with
  | zero => rfl
  | succ n ih => rw [rhtSpaceLoop, rhtSpaceLoop, h n hn, ih (Nat.le_of_succ_le hn)]

theorem rhtSpaceLoop_le (s : List UInt8) (n : Nat) : rhtSpaceLoop s n ≤ n := by
  induction n with
  | zero => exact Nat.le_refl _
  | succ n ih =>
    rw [rhtSpaceLoop]
    split
    · exact Nat.le_succ_of_le ih
    · exact Nat.le_refl _

theorem deleRhtSpace_yields {s : List UInt8} (hint : (s.length : Int) ≤ intMax) :
    Yields Tool.deleRhtSpace s (trimRight s) := by
  intro b hb
  have hbytes : ∀ i < s.length, b[i]? = s[i]? := fun _ hi => hb.getElem?_of_lt hi
  have hlen : ((s.length : Int) - 1 + 1).toNat = s.length := by omega
  have hle := rhtSpaceLoop_le s s.length
  have hlt := hb.length_lt
  have htake : b.take (rhtSpaceLoop s s.length) = trimRight s := by
    rw [hb.take hle, take_rhtSpaceLoop s (Nat.le_refl _), List.take_length]
  have h0 : 0 ∉ b.take (rhtSpaceLoop s s.length) := by
    rw [hb.take hle]
    exact fun h => hb.noNul (List.mem_of_mem_take h)
  obtain ⟨b', hpoke, hb'⟩ := poke_zero_holds (by omega) h0
  refine ⟨b', ?_, htake ▸ hb'⟩
  rw [Tool.deleRhtSpace, hb.strlen]
  simp only [Option.bind_eq_bind, Option.bind_some]
  rw [toInt_pred hint, if_neg (by omega), hlen, rhtSpaceLoop_congr hbytes (Nat.le_refl _),
    if_neg (by omega), hpoke]

theorem lftSpaceLoop_eq {b : Block} {s : List UInt8} (hb : Holds b s) {k i : Nat}
    (hk : i + k ≤ s.length) : Tool.lftSpaceLoop b k i =
      some (i + (((s.drop i).takeWhile (· == 32)).take k).length) := by
  induction k generalizing i with
  | zero => rfl
  | succ k ih =>
    have hi : i < s.length := by omega
    have hdrop : s.drop i = s[i] :: s.drop (i + 1) := List.drop_eq_getElem_cons hi
    have hc : b[i]? = some s[i] := by
      rw [hb.getElem?_of_lt hi, List.getElem?_eq_getElem hi]
    rw [Tool.lftSpaceLoop, hc, Option.bind_eq_bind, Option.bind_some, hdrop]
    by_cases hspace : s[i] = 32
    · have hword : (s[i] :: s.drop (i + 1)).takeWhile (· == 32) =
          s[i] :: (s.drop (i + 1)).takeWhile (· == 32) :=
        List.takeWhile_cons_of_pos (beq_iff_eq.mpr hspace)
      rw [if_neg (not_not.mpr hspace), ih (by omega), hword, List.take_succ_cons,
        List.length_cons, Nat.add_assoc, Nat.add_comm 1]
    · rw [if_pos hspace, List.takeWhile_cons_of_neg (by simpa using hspace)]
      rfl

/-- The spaces in front that the loop of `deleLftSpace` passes. -/
def spacesPassed (s : List UInt8) : Nat :=
  ((s.takeWhile (· == 32)).take (toInt s.length).toNat).length

/-- `deleLftSpace` keeps 511 bytes of what it copies. -/
theorem deleLftSpace_yields (s : List UInt8) :
    Yields Tool.deleLftSpace s ((s.drop (spacesPassed s)).take 511) := by
  intro b hb
  have hloop : Tool.lftSpaceLoop b (toInt s.length).toNat 0 = some (spacesPassed s) := by
    rw [lftSpaceLoop_eq hb (by rw [Nat.zero_add]; exact toInt_le s.length), List.drop_zero,
      Nat.zero_add]
    rfl
  have hpassed : spacesPassed s ≤ s.length :=
    Nat.le_trans (List.length_take_le' _ _) (List.takeWhile_prefix _).length_le
  have hptr := hb.drop hpassed
  have hroom : ((s.drop (spacesPassed s)).take 511).length < b.length := by
    have hlt := hb.length_lt
    rw [List.length_take, List.length_drop]
    omega
  obtain ⟨b', hcopy, hb'⟩ := hptr.copy_holds (n := 511) (m := 512) (by decide) hroom
  refine ⟨b', ?_, hb'⟩
  rw [Tool.deleLftSpace, hb.strlen, Option.bind_eq_bind, Option.bind_some]
  dsimp only
  rw [hloop, Option.bind_eq_bind, Option.bind_some]
  exact hcopy

theorem deleLftSpace_iff {s : List UInt8} (hs : 0 ∉ s) :
    Yields Tool.deleLftSpace s (trimLeft s) ↔
      (s.length : Int) ≤ intMax ∧ (trimLeft s).length ≤ 511 := by
  have hsplit := length_takeWhile_add (· == 32) s
  rw [← trimLeft] at hsplit
  constructor
  · intro h
    have hkept := (deleLftSpace_yields s).unique hs h
    have hshort : (trimLeft s).length ≤ 511 := hkept ▸ List.length_take_le _ _
    refine ⟨?_, hshort⟩
    by_contra hlong
    -- the loop stops in front of the last space
    have hfar := toInt_lt (Int.not_le.mp hlong)
    have hall : spacesPassed s = (toInt s.length).toNat := by
      rw [spacesPassed, List.length_take, Nat.min_eq_left (by omega)]
    have hspace : s[spacesPassed s]? = some 32 := by
      have hin : spacesPassed s < (s.takeWhile (· == 32)).length := by omega
      have hmem := List.mem_takeWhile_imp (List.getElem_mem hin)
      have hget := (List.takeWhile_prefix (l := s) (· == 32)).getElem hin
      rw [List.getElem?_eq_getElem (by omega), ← hget, beq_iff_eq.mp hmem]
    have hhead : (trimLeft s).head? = some 32 := by
      rw [← hkept, List.head?_take, List.head?_drop, hspace]
      rfl
    exact absurd (ends_dropWhile _ s 32 hhead) (by decide)
  · rintro ⟨hint, hshort⟩
    have hall : spacesPassed s = (s.takeWhile (· == 32)).length := by
      rw [spacesPassed, toInt_of_le hint, List.take_of_length_le (by omega)]
    have hkept := deleLftSpace_yields s
    rwa [hall, drop_length_takeWhile, ← trimLeft, List.take_of_length_le hshort] at hkept

theorem allSpaceLoop_eq {string rest tail done : List UInt8} {k n p : Nat}
    (hrest : string.drop n = rest ++ tail) (hlen : rest.length = k) (hdone : string.take p = done)
    (hptr : p ≤ n) : ∃ string', Tool.allSpaceLoop k n p string =
        some (p + (noSpaces rest).length, string') ∧ string'.length = string.length ∧
      string'.take (p + (noSpaces rest).length) = done ++ noSpaces rest := by
  induction k generalizing rest n p string done with
  | zero =>
    obtain rfl := List.eq_nil_of_length_eq_zero hlen
    exact ⟨string, rfl, rfl, by simpa [noSpaces] using hdone⟩
  | succ k ih =>
    cases rest with
    | nil => cases hlen
    | cons c rest =>
      have hn : n < string.length := lt_length_of_drop hrest
      have hnext := drop_succ_of_drop hrest
      rw [Tool.allSpaceLoop, getElem?_of_drop hrest, Option.bind_eq_bind, Option.bind_some]
      by_cases hspace : c = 32
      · have hskip : noSpaces (c :: rest) = noSpaces rest := by
          rw [noSpaces, List.filter_cons_of_neg (by simp [hspace]), ← noSpaces]
        rw [if_neg (not_not.mpr hspace), hskip]
        exact ih hnext (Nat.succ.inj hlen) hdone (Nat.le_succ_of_le hptr)
      · have hkeep : noSpaces (c :: rest) = c :: noSpaces rest := by
          rw [noSpaces, List.filter_cons_of_pos (by simp [hspace]), ← noSpaces]
        have hstore : (splice string p [c]).take (p + 1) = done ++ [c] :=
          (splice_take [c] (by omega)).trans (congrArg (· ++ [c]) hdone)
        have hbehind : (splice string p [c]).drop (n + 1) = rest ++ tail :=
          (splice_drop_of_le (by rw [List.length_singleton]; omega) (by omega)).trans hnext
        obtain ⟨string', hloop, hlength, htake⟩ :=
          ih hbehind (Nat.succ.inj hlen) hstore (Nat.succ_le_succ hptr)
        have hcount : p + (c :: noSpaces rest).length = p + 1 + (noSpaces rest).length := by
          rw [List.length_cons]
          omega
        rw [if_pos hspace, hkeep, hcount, poke, if_pos (by omega)]
        refine ⟨string', hloop, hlength.trans (splice_single_length c (by omega)), ?_⟩
        rw [htake, List.append_assoc]
        rfl

/-- The loop over the whole string, and the terminator. -/
theorem allSpaceLoop_holds {string : Block} {s : List UInt8} (h : Holds string s) :
    ∃ string' string'', Tool.allSpaceLoop s.length 0 0 string =
        some ((noSpaces s).length, string') ∧
      poke string' (noSpaces s).length 0 = some string'' ∧ Holds string'' (noSpaces s) := by
  obtain ⟨junk, hbytes⟩ := h.bytes
  have hkept : (noSpaces s).length ≤ s.length := List.length_filter_le _ _
  have hlt := h.length_lt
  obtain ⟨string', hloop, hlength, htake⟩ :=
    allSpaceLoop_eq (n := 0) (p := 0) hbytes rfl rfl (Nat.le_refl 0)
  rw [Nat.zero_add, List.take_zero, List.nil_append] at htake
  have h0 : 0 ∉ string'.take (noSpaces s).length := by
    rw [htake]
    exact fun hmem => h.noNul (List.mem_of_mem_filter hmem)
  obtain ⟨string'', hpoke, hholds⟩ := poke_zero_holds (by omega) h0
  rw [Nat.zero_add] at hloop
  exact ⟨string', string'', hloop, hpoke, htake ▸ hholds⟩

/-- `deleAllSpace` sees 511 bytes of its argument. -/
theorem deleAllSpace_yields (s : List UInt8) :
    Yields Tool.deleAllSpace s (noSpaces (s.take 511)) := by
  intro b hb
  have hcut := List.length_take_le 511 s
  have hcopied : Holds (s.take 511 ++ zeros (512 - (s.take 511).length)) (s.take 511) :=
    hb.take_zeros 511 (by omega)
  obtain ⟨string, string', hloop, hpoke, hkept⟩ := allSpaceLoop_holds hcopied
  have hroom : (noSpaces (s.take 511)).length < b.length :=
    calc (noSpaces (s.take 511)).length
        ≤ (s.take 511).length := List.length_filter_le _ _
      _ ≤ s.length := List.length_take_le' _ _
      _ < b.length := hb.length_lt
  obtain ⟨b', hcopy, hb'⟩ := hkept.strcpy_holds hroom
  refine ⟨b', ?_, hb'⟩
  rw [Tool.deleAllSpace, strncpy_zeros hb (by decide), Option.bind_eq_bind, Option.bind_some,
    hcopied.strlen, Option.bind_eq_bind, Option.bind_some, hloop, Option.bind_eq_bind,
    Option.bind_some]
  dsimp only
  rw [hpoke, Option.bind_some]
  exact hcopy

theorem noSpaces_take_drop (s : List UInt8) (n : Nat) :
    noSpaces s = noSpaces (s.take n) ++ noSpaces (s.drop n) := by
  rw [noSpaces, noSpaces, noSpaces, ← List.filter_append, List.take_append_drop]

theorem noSpaces_eq_nil {s : List UInt8} : noSpaces s = [] ↔ ∀ c ∈ s, c = 32 := by
  rw [noSpaces, List.filter_eq_nil_iff]
  simp

theorem deleAllSpace_iff {s : List UInt8} (hs : 0 ∉ s) :
    Yields Tool.deleAllSpace s (noSpaces s) ↔ ∀ c ∈ s.drop 511, c = 32 := by
  rw [← noSpaces_eq_nil, noSpaces_take_drop s 511]
  constructor
  · intro h
    have hkept := (deleAllSpace_yields s).unique hs h
    exact List.self_eq_append_right.mp hkept
  · intro h
    rw [h, List.append_nil]
    exact deleAllSpace_yields s

/-! ## Several calls -/

/-- What all three functions have room for. -/
structure FitsBuffers (s : List UInt8) : Prop where
  int : (s.length : Int) ≤ intMax
  noNul : 0 ∉ s
  left : (trimLeft s).length ≤ 511
  all : ∀ c ∈ s.drop 511, c = 32

theorem trimRight_isPrefix (s : List UInt8) : trimRight s <+: s :=
  List.rdropWhile_prefix _ s

theorem trimLeft_isSuffix (s : List UInt8) : trimLeft s <:+ s := List.dropWhile_suffix _

theorem trimRight_trimRight (s : List UInt8) : trimRight (trimRight s) = trimRight s :=
  List.rdropWhile_idempotent _ _

theorem trimLeft_trimLeft (s : List UInt8) : trimLeft (trimLeft s) = trimLeft s :=
  List.dropWhile_idempotent _ _

theorem noSpaces_noSpaces (s : List UInt8) : noSpaces (noSpaces s) = noSpaces s := by
  rw [noSpaces, noSpaces, List.filter_filter]
  simp only [Bool.and_self]

theorem trimLeft_trimRight (s : List UInt8) : trimLeft (trimRight s) = trimRight (trimLeft s) :=
  dropWhile_rdropWhile _ s

theorem noSpaces_trimRight (s : List UInt8) : noSpaces (trimRight s) = noSpaces s :=
  filter_rdropWhile _ s

theorem noSpaces_trimLeft (s : List UInt8) : noSpaces (trimLeft s) = noSpaces s :=
  filter_dropWhile _ s

theorem fitsBuffers_trimRight {s : List UInt8} (h : FitsBuffers s) : FitsBuffers (trimRight s) := by
  have hfront := trimRight_isPrefix s
  refine ⟨?_, fun h0 => h.noNul (hfront.mem h0), ?_, fun c hc => ?_⟩
  · exact Int.le_trans (Int.ofNat_le.mpr hfront.length_le) h.int
  · rw [trimLeft_trimRight]
    exact Nat.le_trans (trimRight_isPrefix _).length_le h.left
  · exact h.all c ((hfront.sublist.drop 511).mem hc)

theorem fitsBuffers_trimLeft {s : List UInt8} (h : FitsBuffers s) : FitsBuffers (trimLeft s) := by
  have hback := trimLeft_isSuffix s
  refine ⟨?_, fun h0 => h.noNul (hback.mem h0), ?_, ?_⟩
  · exact Int.le_trans (Int.ofNat_le.mpr hback.length_le) h.int
  · rw [trimLeft_trimLeft]
    exact h.left
  · rw [List.drop_of_length_le h.left]
    exact List.forall_mem_nil _

/-- Calls that only delete spaces at the ends are not seen by `deleAllSpace`. -/
theorem callAll_yields {s : List UInt8} (h : FitsBuffers s) {fs : List (Block → Option Block)}
    (hfs : ∀ f ∈ fs, f = Tool.deleRhtSpace ∨ f = Tool.deleLftSpace) :
    Yields (fun b => (callAll fs b).bind Tool.deleAllSpace) s (noSpaces s) := by
  induction fs generalizing s with
  | nil =>
    have hnone : (fun b => (callAll [] b).bind Tool.deleAllSpace) = Tool.deleAllSpace :=
      funext fun b => Option.bind_some b Tool.deleAllSpace
    rw [hnone]
    exact (deleAllSpace_iff h.noNul).mpr h.all
  | cons f fs ih =>
    have hrest : ∀ g ∈ fs, g = Tool.deleRhtSpace ∨ g = Tool.deleLftSpace :=
      fun g hg => hfs g (List.mem_cons_of_mem f hg)
    have hassoc : (fun b => (callAll (f :: fs) b).bind Tool.deleAllSpace) =
        fun b => (f b).bind fun b => (callAll fs b).bind Tool.deleAllSpace :=
      funext fun b => Option.bind_assoc (f b) (callAll fs) Tool.deleAllSpace
    rw [hassoc]
    rcases hfs f List.mem_cons_self with rfl | rfl
    · rw [← noSpaces_trimRight s]
      exact (deleRhtSpace_yields h.int).comp (ih (fitsBuffers_trimRight h) hrest)
    · rw [← noSpaces_trimLeft s]
      exact ((deleLftSpace_iff h.noNul).mpr ⟨h.int, h.left⟩).comp
        (ih (fitsBuffers_trimLeft h) hrest)

theorem FitsBuffers.onlySpaces {s : List UInt8} (h : FitsBuffers s) : OnlySpaces s := by
  have hright {t : List UInt8} (ht : FitsBuffers t) : Yields Tool.deleRhtSpace t (trimRight t) :=
    deleRhtSpace_yields ht.int
  have hleft {t : List UInt8} (ht : FitsBuffers t) : Yields Tool.deleLftSpace t (trimLeft t) :=
    (deleLftSpace_iff ht.noNul).mpr ⟨ht.int, ht.left⟩
  have hall : Yields Tool.deleAllSpace s (noSpaces s) := (deleAllSpace_iff h.noNul).mpr h.all
  refine ⟨hright h, hleft h, hall, ?_, ?_, ?_, ⟨trimLeft (trimRight s), ?_, ?_⟩, ?_⟩
  · have htwice := (hright h).comp (hright (fitsBuffers_trimRight h))
    rwa [trimRight_trimRight] at htwice
  · have htwice := (hleft h).comp (hleft (fitsBuffers_trimLeft h))
    rwa [trimLeft_trimLeft] at htwice
  · -- what is left after the first call is short
    have hshort : (noSpaces s).length ≤ 511 := by
      rw [noSpaces_take_drop s 511, noSpaces_eq_nil.mpr h.all, List.append_nil]
      exact Nat.le_trans (List.length_filter_le _ _) (List.length_take_le _ _)
    have htwice := hall.comp (deleAllSpace_yields (noSpaces s))
    rwa [List.take_of_length_le hshort, noSpaces_noSpaces] at htwice
  · exact (hright h).comp (hleft (fitsBuffers_trimRight h))
  · rw [trimLeft_trimRight]
    exact (hleft h).comp (hright (fitsBuffers_trimLeft h))
  · exact fun fs hfs => callAll_yields h hfs

/-- The functions delete only spaces exactly from the strings that fit: the two that copy their
argument through an array of 512 bytes cut it off. -/
theorem onlySpaces_iff (s : Text) :
    OnlySpaces s.chars ↔ (s.chars.length : Int) ≤ intMax ∧ (trimLeft s.chars).length ≤ 511 ∧
      ∀ c ∈ s.chars.drop 511, c = 32 := by
  constructor
  · intro h
    obtain ⟨hint, hleft⟩ := (deleLftSpace_iff s.noNul).mp h.left
    exact ⟨hint, hleft, (deleAllSpace_iff s.noNul).mp h.all⟩
  · rintro ⟨hint, hleft, hall⟩
    exact FitsBuffers.onlySpaces ⟨hint, s.noNul, hleft, hall⟩

/-- 512 letters. -/
def longText : Text := ⟨List.replicate 512 97, fun h => by cases List.eq_of_mem_replicate h⟩

theorem not_onlySpaces : ¬ ∀ s : Text, OnlySpaces s.chars := by
  intro h
  have hall := (deleAllSpace_iff longText.noNul).mp (h longText).all
  have hlast : (97 : UInt8) ∈ longText.chars.drop 511 := by
    rw [longText, List.drop_replicate]
    exact List.mem_singleton_self 97
  exact absurd (hall 97 hlast) (by decide)

end Netepoll
