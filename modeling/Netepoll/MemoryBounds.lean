import Netepoll.Lib.Transition
import Netepoll.Expansion

/-! Where `expandEnvStr` reads and writes: the states of its loop one after another, and the
one sum that can overflow where the length of the template is an `int`. -/

namespace Netepoll

open CString Transition

/-- One turn of the loop, as a step between the variables before and after it. -/
def expandStep (env : Environ) (inBuf : Block) (len bufSize : Int) (e : Expand) :
    Unit → Option Expand
  | () =>
    if (e.i : Int) < len ∧ (e.pos : Int) < bufSize then
      match expandTurn env inBuf bufSize e with
      | some (.next e') => some e'
      | _ => none
    else none

/-- The index has not passed the terminator, and behind `pos`, which is in the first
`BufSize` bytes, `OutBuf` is as it was. -/
structure Inside (t : List UInt8) (outBuf : Block) (bufSize : Int) (e : Expand) : Prop
    extends Bounded outBuf bufSize e where
  index : e.i ≤ t.length

theorem inside_start (t : List UInt8) (outBuf : Block) (bufSize : Int) :
    Inside t outBuf bufSize ⟨0, 0, outBuf⟩ :=
  ⟨⟨Nat.zero_le _, rfl, rfl⟩, Nat.zero_le _⟩

theorem Inside.step {env : Environ} {b outBuf : Block} {t : List UInt8} (h : Holds b t)
    (ht : (t.length : Int) ≤ intMax) {bufSize : Int} {e e' : Expand} {u : Unit}
    (hin : Inside t outBuf bufSize e) (hs : expandStep env b t.length bufSize e u = some e') :
    Inside t outBuf bufSize e' := by
  rw [expandStep] at hs
  split at hs
  · next hguard =>
    split at hs
    · next e₁ hturn =>
      cases hs
      refine ⟨hin.toBounded.turn hguard.2 hturn, ?_⟩
      -- the turn copies one piece of the template
      rw [expandTurn_eq env bufSize h ht (Int.ofNat_lt.mp hguard.1)] at hturn
      split at hturn
      · cases hturn
      · next p k hnext =>
        have hk := (nextPiece_pos hnext).2
        rw [List.length_drop] at hk
        rcases pieceTurn_cases hturn hguard.2 with ⟨c, hleave, -⟩ | ⟨hcopy, -⟩
        · cases hleave
        · cases hcopy
          simp only [Expand.copied]
          omega
    · cases hs
  · cases hs

/-- The variables at the return are those of a state of the loop. -/
theorem expandLoop_reached {env : Environ} {b : Block} {len bufSize : Int} {fuel : Nat}
    {e e' : Expand} {code : Int}
    (hrun : expandLoop env b len bufSize fuel e = some (code, e')) :
    ∃ us, run (expandStep env b len bufSize) e us = some e' := by
  induction fuel generalizing e with
  | zero =>
    rw [expandLoop] at hrun
    split at hrun
    · cases hrun
    · cases hrun
      exact ⟨[], rfl⟩
  | succ fuel ih =>
    rw [expandLoop] at hrun
    split at hrun
    · next hguard =>
      obtain ⟨turn, hturn, hrest⟩ := Option.bind_eq_some_iff.mp hrun
      cases turn with
      | leave c =>
        cases hrest
        exact ⟨[], rfl⟩
      | next e₁ =>
        obtain ⟨us, hus⟩ := ih hrest
        refine ⟨() :: us, run_cons_eq_some.mpr ⟨e₁, ?_, hus⟩⟩
        rw [expandStep, if_pos hguard, hturn]
    · cases hrun
      exact ⟨[], rfl⟩

/-! ## The sum that can overflow -/

/-- The bytes that the pieces put into `OutBuf`. -/
def cutLength (env : Environ) (ps : List Piece) : Nat := (ps.flatMap (Piece.cut env)).length

/-- Wherever the loop comes to a text with less than `BufSize` bytes written, the number of
these bytes and of those of the text (256 at most) is an `int`. -/
def FitsInt (env : Environ) (bufSize : Int) (pos : Nat) (ps : List Piece) : Prop :=
  ∀ before body after, ps = before ++ .var body :: after → (∀ p ∈ before, ¬ p.Refused) →
    body.length ≤ envNameSize → ((pos + cutLength env before : Nat) : Int) < bufSize →
    ((pos + cutLength env before + ((Piece.var body).cut env).length : Nat) : Int) ≤ intMax

theorem fitsInt_nil (env : Environ) (bufSize : Int) (pos : Nat) : FitsInt env bufSize pos [] :=
  fun before body after heq => by simp at heq

/-- What is in the buffer already is as much as it takes. -/
theorem fitsInt_full {env : Environ} {bufSize : Int} {pos : Nat} (ps : List Piece)
    (h : bufSize ≤ pos) : FitsInt env bufSize pos ps :=
  fun _ _ _ _ _ _ hlt => by omega

/-- The loop ends at a name or body that is too long. -/
theorem fitsInt_refused {env : Environ} {bufSize : Int} {pos : Nat} {p : Piece}
    (ps : List Piece) (hp : p.Refused) : FitsInt env bufSize pos (p :: ps) := by
  intro before body after heq hbefore hbody hlt
  cases before with
  | nil =>
    obtain ⟨rfl, -⟩ : p = .var body ∧ ps = after := by simpa using heq
    exact absurd hp (Nat.not_lt_of_le hbody)
  | cons q before =>
    obtain ⟨rfl, -⟩ : p = q ∧ ps = before ++ .var body :: after := by simpa using heq
    exact absurd hp (hbefore p List.mem_cons_self)

/-- A text that does not overflow itself leaves the question to the pieces behind it. -/
theorem fitsInt_cons {env : Environ} {bufSize : Int} {pos : Nat} {p : Piece} (ps : List Piece)
    (hp : ¬ p.Refused)
    (hint : ∀ body, p = .var body → ((pos + (p.cut env).length : Nat) : Int) ≤ intMax) :
    FitsInt env bufSize pos (p :: ps) ↔ FitsInt env bufSize (pos + (p.cut env).length) ps := by
  have hcons : ∀ before, cutLength env (p :: before) =
      (p.cut env).length + cutLength env before := fun before => by
    rw [cutLength, List.flatMap_cons, List.length_append, cutLength]
  constructor
  · rintro h before body after rfl hbefore hbody hlt
    have hbefore' : ∀ q ∈ p :: before, ¬ q.Refused := by
      intro q hq
      rcases List.mem_cons.mp hq with rfl | hq
      · exact hp
      · exact hbefore q hq
    have := h (p :: before) body after rfl hbefore' hbody
    rw [hcons, ← Nat.add_assoc] at this
    exact this hlt
  · intro h before body after heq hbefore hbody hlt
    cases before with
    | nil =>
      obtain ⟨rfl, -⟩ : p = .var body ∧ ps = after := by simpa using heq
      exact hint body rfl
    | cons q before =>
      obtain ⟨rfl, rfl⟩ : p = q ∧ ps = before ++ .var body :: after := by simpa using heq
      rw [hcons, ← Nat.add_assoc] at hlt ⊢
      exact h before body after rfl (fun r hr => hbefore r (List.mem_cons_of_mem _ hr)) hbody hlt

theorem not_fitsInt {env : Environ} {bufSize : Int} {pos : Nat} {body : List UInt8}
    (ps : List Piece) (hbody : body.length ≤ envNameSize) (hpos : (pos : Int) < bufSize)
    (hover : intMax < pos + ((Piece.var body).cut env).length) :
    ¬ FitsInt env bufSize pos (.var body :: ps) := by
  intro h
  have hsum := h [] body ps rfl (fun _ hq => absurd hq List.not_mem_nil) hbody hpos
  have hzero : cutLength env [] = 0 := rfl
  omega

/-- The loop returns exactly where no sum overflows. -/
theorem expandLoop_returns_iff (env : Environ) {bufSize : Int} {b : Block} {t : List UInt8}
    (h : Holds b t) (ht : (t.length : Int) ≤ intMax) {fuel : Nat} {e : Expand}
    (hfuel : t.length ≤ e.i + fuel) (hout : bufSize ≤ e.outBuf.length) :
    (∃ r, expandLoop env b t.length bufSize fuel e = some r) ↔
      FitsInt env bufSize e.pos (pieces (t.drop e.i)) := by
  induction fuel generalizing e with
  | zero =>
    rw [expandLoop, if_neg (by omega), List.drop_eq_nil_of_le (by omega), pieces_none rfl]
    exact iff_of_true ⟨_, rfl⟩ (fitsInt_nil env bufSize e.pos)
  | succ fuel ih =>
    rw [expandLoop]
    split
    · next hguard =>
      rw [expandTurn_eq env bufSize h ht (Int.ofNat_lt.mp hguard.1)]
      cases hnext : nextPiece (t.drop e.i) with
      | none =>
        rw [pieces_none hnext]
        exact iff_of_true ⟨_, rfl⟩ (fitsInt_nil env bufSize e.pos)
      | some pk =>
        obtain ⟨p, k⟩ := pk
        have hk := (nextPiece_pos hnext).1
        -- the turns behind a piece that is copied
        have hcopied : e.pos + (p.cut env).length ≤ e.outBuf.length →
            ((∃ r, expandLoop env b t.length bufSize fuel (e.copied env p k) = some r) ↔
              FitsInt env bufSize (e.pos + (p.cut env).length)
                (pieces ((t.drop e.i).drop k))) := fun hroom => by
          rw [List.drop_drop]
          refine ih ?_ ?_
          · simp only [Expand.copied]
            omega
          · rw [Expand.copied, splice_length hroom]
            exact hout
        rw [pieces_some hnext]
        cases p with
        | literal c =>
          have hroom : e.pos < e.outBuf.length := by omega
          simp only [pieceTurn, if_pos hroom]
          rw [fitsInt_cons _ id fun body hb => by cases hb]
          exact hcopied hroom
        | var body =>
          simp only [pieceTurn]
          split
          · next hlong => exact iff_of_true ⟨_, rfl⟩ (fitsInt_refused _ hlong)
          next hlong =>
          split
          · next hover =>
            refine iff_of_false (fun hr => ?_)
              (not_fitsInt _ (Nat.le_of_not_lt hlong) hguard.2 hover)
            obtain ⟨r, hr⟩ := hr
            cases hr
          next hover =>
          have href : ¬ (Piece.var body).Refused := hlong
          rw [fitsInt_cons _ href fun _ _ => by omega]
          split
          · next hfull => exact iff_of_true ⟨_, rfl⟩ (fitsInt_full _ (by omega))
          next hfits =>
          have hroom : e.pos + ((Piece.var body).cut env).length ≤ e.outBuf.length := by omega
          rw [if_pos hroom]
          exact hcopied hroom
    · next hguard =>
      refine iff_of_true ⟨_, rfl⟩ ?_
      rcases Nat.lt_or_ge e.i t.length with hlt | hge
      · exact fitsInt_full _ (Int.not_lt.mp fun hpos => hguard ⟨Int.ofNat_lt.mpr hlt, hpos⟩)
      · rw [List.drop_eq_nil_of_le hge, pieces_none rfl]
        exact fitsInt_nil env bufSize e.pos

theorem expandEnvStr_returns_iff (env : Environ) (t : Text)
    (ht : (t.chars.length : Int) ≤ intMax) {outBuf : Block} {bufSize : Int}
    (hout : bufSize ≤ outBuf.length) :
    (∃ r, expandEnvStr env t.block outBuf bufSize = some r) ↔
      FitsInt env bufSize 0 (pieces t.chars) := by
  rw [expandEnvStr_loop env t.holds ht]
  exact expandLoop_returns_iff env t.holds ht (by omega) hout

/-- `expandEnvStr` returns, and stays inside `InBuf`, `OutBuf` and its own arrays in every
state of its loop. -/
structure StaysInside (env : Environ) (t : Text) (outBuf : Block) (bufSize : Int) : Prop where
  returns : ∃ code e, expandEnvStr env t.block outBuf bufSize = some (code, e) ∧
    Inside t.chars outBuf bufSize e
  states : ∀ us e,
    run (expandStep env t.block (toInt t.chars.length) bufSize) ⟨0, 0, outBuf⟩ us = some e →
      Inside t.chars outBuf bufSize e

/-- The loop is not entered where the length becomes a negative `int`. -/
theorem staysInside_of_long (env : Environ) {t : Text} (hlong : intMax < t.chars.length)
    (hlen : t.chars.length < 4294967296) (outBuf : Block) (bufSize : Int) :
    StaysInside env t outBuf bufSize := by
  have hneg := toInt_neg hlong hlen
  constructor
  · refine ⟨0, ⟨0, 0, outBuf⟩, ?_, inside_start t.chars outBuf bufSize⟩
    rw [expandEnvStr, t.holds.strlen, Option.bind_eq_bind, Option.bind_some]
    simp only [Int.toNat_of_nonpos (Int.le_of_lt hneg)]
    rw [expandLoop, if_neg (by simp only [Int.natCast_zero]; omega)]
  · intro us e hrun
    cases us with
    | nil =>
      cases hrun
      exact inside_start t.chars outBuf bufSize
    | cons u us =>
      obtain ⟨e₁, hs, -⟩ := run_cons_eq_some.mp hrun
      rw [expandStep, if_neg (by simp only [Int.natCast_zero]; omega)] at hs
      cases hs

/-- On a template of less than 4 GiB and its terminator `expandEnvStr` stays inside all
arrays if and only if no sum overflows or the length of the template is no `int`. -/
theorem expandEnvStr_inside_iff (env : Environ) (t : Text) (outBuf : Block) (bufSize : Int)
    (hout : bufSize ≤ outBuf.length) (hlen : t.chars.length < 4294967296) :
    StaysInside env t outBuf bufSize ↔
      ((t.chars.length : Int) ≤ intMax → FitsInt env bufSize 0 (pieces t.chars)) := by
  rcases Int.lt_or_le intMax t.chars.length with hlong | ht
  · exact iff_of_true (staysInside_of_long env hlong hlen outBuf bufSize)
      fun ht => absurd ht (Int.not_le.mpr hlong)
  have hreached : ∀ us e,
      run (expandStep env t.block (toInt t.chars.length) bufSize) ⟨0, 0, outBuf⟩ us = some e →
        Inside t.chars outBuf bufSize e := fun us e hrun => by
    rw [toInt_of_le ht] at hrun
    exact run_invariant (fun _ _ _ hin hs => hin.step t.holds ht hs)
      (inside_start t.chars outBuf bufSize) hrun
  rw [forall_prop_of_true ht, ← expandEnvStr_returns_iff env t ht hout]
  refine ⟨fun hr => ?_, fun hr => ⟨?_, hreached⟩⟩
  · obtain ⟨code, e, hrun, -⟩ := hr.returns
    exact ⟨(code, e), hrun⟩
  · obtain ⟨⟨code, e⟩, hrun⟩ := hr
    have hloop := hrun
    rw [expandEnvStr_loop env t.holds ht, ← toInt_of_le ht] at hloop
    obtain ⟨us, hus⟩ := expandLoop_reached hloop
    exact ⟨code, e, hrun, hreached us e hus⟩

/-- The template `$B/x` into 5 bytes. -/
theorem expandEnvStr_inside_iff_short :
    StaysInside shortEnv ⟨[36, 66, 47, 120], by decide⟩ [0, 0, 0, 0, 0] 5 := by
  refine (expandEnvStr_inside_iff shortEnv ⟨[36, 66, 47, 120], by decide⟩ [0, 0, 0, 0, 0] 5
    (by decide) (by decide)).mpr fun _ before body after _ _ _ hlt => ?_
  have hcut := List.length_take_le envValueSize (bodyText shortEnv body)
  rw [Piece.cut, Piece.text]
  have hmax : (5 : Int) + envValueSize ≤ intMax := by decide
  omega

/-! ## A template whose last sum overflows -/

/-- `$A` over and over. -/
def dollars : Nat → List UInt8
  | 0 => []
  | n + 1 => 36 :: 65 :: dollars n

theorem zero_notMem_dollars (n : Nat) : 0 ∉ dollars n := by
  induction n with
  | zero => exact List.not_mem_nil
  | succ n ih =>
    rw [dollars, List.mem_cons, List.mem_cons]
    rintro (h | h | h)
    · cases h
    · cases h
    · exact ih h

theorem pieces_dollars (n : Nat) : pieces (dollars n) = List.replicate n (.var [65]) := by
  induction n with
  | zero => exact pieces_none rfl
  | succ n ih =>
    have hname : (65 :: dollars n).takeWhile envChr = [65] := by
      cases n with
      | zero => rfl
      | succ n => rfl
    have hnext : nextPiece (dollars (n + 1)) = some (.var [65], 2) := by
      simp only [dollars, nextPiece, hname]
      rfl
    rw [pieces_some hnext, List.replicate_succ, ← ih]
    rfl

/-- `A` is set to 256 bytes `a`. -/
def fullEnv : Environ := fun name =>
  if name = [65] then
    some ⟨List.replicate 256 97, fun h => absurd (List.eq_of_mem_replicate h) (by decide)⟩
  else none

theorem cut_fullEnv : ((Piece.var [65]).cut fullEnv).length = 256 := by
  have htext : bodyText fullEnv [65] = List.replicate 256 97 := rfl
  rw [Piece.cut, Piece.text, htext, List.length_take, List.length_replicate]
  rfl

theorem cutLength_replicate (n : Nat) :
    cutLength fullEnv (List.replicate n (.var [65])) = 256 * n := by
  induction n with
  | zero => rfl
  | succ n ih =>
    rw [cutLength, List.replicate_succ, List.flatMap_cons, List.length_append, cut_fullEnv,
      ← cutLength, ih]
    omega

theorem dollars_length (n : Nat) : (dollars n).length = 2 * n := by
  induction n with
  | zero => rfl
  | succ n ih =>
    rw [dollars, List.length_cons, List.length_cons, ih]
    omega

/-- 8388608 times `$A` into INT_MAX bytes: the last sum is 2147483648. -/
theorem not_expandEnvStr_inside :
    ¬ ∀ (env : Environ) (t : Text) (outBuf : Block) (bufSize : Int), bufSize ≤ intMax →
      bufSize ≤ outBuf.length → StaysInside env t outBuf bufSize := by
  intro hall
  have hout : intMax ≤ (zeros 2147483647).length := by
    rw [zeros_length]
    decide
  obtain ⟨t, hchars⟩ : ∃ t : Text, t.chars = dollars (8388607 + 1) :=
    ⟨⟨dollars (8388607 + 1), zero_notMem_dollars _⟩, rfl⟩
  have ht : (t.chars.length : Int) ≤ intMax := by
    rw [hchars, dollars_length]
    decide
  obtain ⟨⟨code, e, hrun, -⟩, -⟩ := hall fullEnv t (zeros 2147483647) intMax (Int.le_refl _) hout
  have hfits := (expandEnvStr_returns_iff fullEnv t ht hout).mp ⟨_, hrun⟩
  rw [hchars, pieces_dollars, List.replicate_succ'] at hfits
  have hsum := hfits (List.replicate 8388607 (.var [65])) [65] [] rfl
    (fun p hp => by rw [List.eq_of_mem_replicate hp]; decide) (by decide)
    (by rw [cutLength_replicate]; decide)
  rw [cutLength_replicate, cut_fullEnv] at hsum
  revert hsum
  decide

end Netepoll
