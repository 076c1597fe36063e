import Netepoll.LogRotation
import Netepoll.Operators

/-! The name that `expLogFile` leaves in `DstLog`, whatever the template, and the complete
name that it should be: environment expansion, then `strftime`. -/

namespace Netepoll

open CString Files

theorem texts_literals (env : Environ) (cs : List UInt8) :
    (cs.map Piece.literal).flatMap (Piece.text env) = cs := by
  rw [List.flatMap_map]
  exact List.flatMap_singleton' cs

/-! ## Complete names -/

variable {τ κ : Type} (P : Platform τ κ)

/-- Environment expansion, then `strftime`. -/
def fullName (now : τ) (env : Environ) (t : List UInt8) : List UInt8 :=
  P.strftime now (fullExpansion env t)

/-- Where the template is copied as it is, the general path would make the same of it. -/
theorem fullName_plain (now : τ) (env : Environ) {t : List UInt8}
    (h : ¬ Marked t) : fullName P now env t = t := by
  obtain ⟨h37, h36⟩ := not_or.mp h
  rw [fullName, fullExpansion, pieces_literals h36, texts_literals, P.plain now t h37]

/-- The expansion does not fail, its texts have room in `expand_logfile`, and the name and
its terminator are at most `n` bytes. -/
structure NameFits (now : τ) (env : Environ) (t : List UInt8) (n : Nat) : Prop where
  accepted : Accepted env 511 (pieces t)
  room : Marked t → RoomForAll env 511 (pieces t)
  length : (fullName P now env t).length < n

theorem storedName_of_room {now : τ} {env : Environ} {t : List UInt8} {n : Nat} (h0 : 0 ∉ t)
    (hint : Marked t → (t.length : Int) ≤ intMax) (h : NameFits P now env t n) :
    storedName P now env t n = fullName P now env t := by
  rw [storedName]
  by_cases ht : Marked t
  · have hroom := h.room ht
    have hfill := (fill_eq_texts_iff (fill_code_eq_zero h.accepted hroom)).mpr hroom
    have hlen := h.length
    rw [fullName, fullExpansion] at hlen ⊢
    rw [if_pos ht, expanded_eq env h0 (hint ht), hfill, dateText, if_pos hlen]
  · rw [if_neg ht, fullName_plain P now env ht]

/-- With an array of `n + 1` zeros, `n` of which are enough for all that is stored,
`expLogFile` stores the complete name and returns 0, or returns -1. -/
structure AllOrNothing (now : τ) (env : Environ) (t : Text) (n : Nat) : Prop where
  bounded : ∃ r, expLogFile P now env t.block (zeros n) n = some r
  outcome : ∃ code dstLog, expLogFile P now env t.block (zeros (n + 1)) n = some (code, dstLog) ∧
    (NameFits P now env t.chars n → code = 0 ∧ Holds dstLog (fullName P now env t.chars)) ∧
    (¬ NameFits P now env t.chars n → code = -1)

/-- `expLogFile` does what it should where it has nothing to report, and only there. -/
theorem allOrNothing_iff {n : Nat} (hn : (n : Int) ≤ intMax) (now : τ) (env : Environ) (t : Text)
    (ht : Marked t.chars → (t.chars.length : Int) ≤ intMax) :
    AllOrNothing P now env t n ↔ NameFits P now env t.chars n := by
  constructor
  · rintro ⟨-, code, dstLog, hrun, -, hfail⟩
    by_contra hno
    rcases expLogFile_cases P now env t.holds (Or.inl rfl) hn (Nat.le_succ n) with
      ⟨blk, h0, -⟩ | ⟨hnone, -⟩
    · rw [hrun] at h0
      cases h0
      exact absurd (hfail hno) (by decide)
    · rw [hrun] at hnone
      cases hnone
  · intro h
    have hshort : ¬ Marked t.chars → t.chars.length < n := fun hm => by
      rw [← fullName_plain P now env hm]
      exact h.length
    have hexpands : Expands env t.chars n := expands_of_le env t.noNul ht hshort
    have hexpands' : Expands env t.chars (n + 1) :=
      expands_of_le env t.noNul ht fun hm => Nat.lt_succ_of_lt (hshort hm)
    constructor
    · rcases expLogFile_cases P now env t.holds (Or.inl rfl) hn (Nat.le_refl n) with
        ⟨blk, hrun, -⟩ | ⟨-, hno⟩
      · exact ⟨_, hrun⟩
      · exact absurd hexpands hno
    · rcases expLogFile_cases P now env t.holds (Or.inl rfl) hn (Nat.le_succ n) with
        ⟨blk, hrun, -, hblk⟩ | ⟨-, hno⟩
      · refine ⟨0, blk, hrun, fun _ => ⟨rfl, ?_⟩, fun hno => absurd h hno⟩
        rw [← storedName_of_room P t.noNul ht h]
        exact hblk (Nat.lt_succ_self n)
      · exact absurd hexpands' hno

/-! ## Templates without variables -/

theorem accepted_literals (env : Environ) (room : Nat) (cs : List UInt8) :
    Accepted env room (cs.map Piece.literal) := by
  intro before p after heq _
  have hp : p ∈ cs.map Piece.literal := heq ▸ List.mem_append_right _ List.mem_cons_self
  obtain ⟨c, -, rfl⟩ := List.mem_map.mp hp
  exact id

theorem roomForAll_literals (env : Environ) {room : Nat} {cs : List UInt8}
    (h : cs.length ≤ room) : RoomForAll env room (cs.map Piece.literal) := by
  have hcode : (fill env room (cs.map Piece.literal)).1 = 0 := by rw [fill_literals]
  rw [← fill_eq_texts_iff hcode, fill_literals, List.take_of_length_le h, texts_literals]

theorem fullName_no_dollar (now : τ) (env : Environ) {t : List UInt8} (h : 36 ∉ t) :
    fullName P now env t = P.strftime now t := by
  rw [fullName, fullExpansion, pieces_literals h, texts_literals]

/-- Only the two lengths matter. -/
theorem nameFits_of_no_dollar {now : τ} {env : Environ} {t : List UInt8} {n : Nat}
    (h : 36 ∉ t) (ht : t.length ≤ 511) (hname : (P.strftime now t).length < n) :
    NameFits P now env t n := by
  refine ⟨?_, fun _ => ?_, ?_⟩
  · rw [pieces_literals h]
    exact accepted_literals env 511 t
  · rw [pieces_literals h]
    exact roomForAll_literals env ht
  · rwa [fullName_no_dollar P now env h]

/-- `l%u` -/
theorem allOrNothing_iff_week :
    AllOrNothing weekPlatform 0 freshLogger.env weekTemplate 511 :=
  (allOrNothing_iff weekPlatform (n := 511) (by decide) 0 freshLogger.env weekTemplate
    fun _ => by decide).mpr
    (nameFits_of_no_dollar weekPlatform (by decide) (by decide) (by decide))

/-- `abcd` with a `NameLen` of 2. -/
theorem not_allOrNothing :
    ¬ AllOrNothing weekPlatform 0 freshLogger.env ⟨[97, 98, 99, 100], by decide⟩ 2 := by
  rintro ⟨-, code, dstLog, hrun, -⟩
  have hnone : expLogFile weekPlatform 0 freshLogger.env [97, 98, 99, 100, 0] (zeros 3) 2 =
      none := by decide
  have hsame := hrun.symm.trans hnone
  cases hsame

end Netepoll
