import Netepoll.Slot
import Netepoll.Timing

/-! `tread` (tcptool.c), which waits and reads once, beside `read_t_r`, which goes on until it
has all it was asked for. -/

namespace Netepoll

open Memory

section Calls

variable {κ : Type} (sys : Syscalls κ)

/-- `return read(SockFd, Buf, Len)`. A negative length is 2^63 or more as a `size_t`: no buffer
can be so long, and `read` fails at once with `EFAULT`. -/
def readOnce (buf : Nat → UInt8) (len : Int) (expFlag : Bool) (k : κ) : ReadEnd κ :=
  if len < 0 then ⟨.ret (-1), buf, 0, expFlag, k⟩
  else
    let (r, expired, k) := sys.read (toSize len) k
    let expFlag := expFlag || expired
    match r with
    | .blocked => ⟨.waiting, buf, 0, expFlag, k⟩
    | .error _ => ⟨.ret (-1), buf, 0, expFlag, k⟩
    | .data bs => ⟨.ret bs.length, store buf 0 bs, bs.length, expFlag, k⟩

/-- `tread(SockFd, Buf, Len, TimeOut)` -/
def tread (buf : Nat → UInt8) (len timeout : Int) (expFlag : Bool) (k : κ) : ReadEnd κ :=
  if timeout ≤ 0 then readOnce sys buf len expFlag k
  else
    match sys.select timeout.toNat k with
    | (.error, k) => ⟨.ret (-412), buf, 0, expFlag, k⟩
    | (.timeout, k) => ⟨.ret (-2), buf, 0, expFlag, k⟩
    | (.ready, k) => readOnce sys buf len expFlag k

variable {sys} {buf : Nat → UInt8} {len timeout : Int} {f expired : Bool} {bs : List UInt8}
  {k k' k'' : κ}

theorem tread_late (hT : 0 < timeout) (hs : sys.select timeout.toNat k = (.timeout, k')) :
    tread sys buf len timeout f k = ⟨.ret (-2), buf, 0, f, k'⟩ := by
  rw [tread, if_neg (by omega), hs]

theorem tread_data (hT : 0 < timeout) (hlen : 0 ≤ len)
    (hs : sys.select timeout.toNat k = (.ready, k'))
    (hr : sys.read (toSize len) k' = (.data bs, expired, k'')) :
    tread sys buf len timeout f k =
      ⟨.ret bs.length, store buf 0 bs, bs.length, f || expired, k''⟩ := by
  rw [tread, if_neg (by omega), hs]
  simp only [readOnce, if_neg (Int.not_lt.mpr hlen), hr]

end Calls

/-! ## In virtual time -/

/-- The first thing that the peer does is too late for a limit. -/
def FirstLate (tie : Bool) (limit : Nat) (c : Clock) : Prop :=
  ∀ t, c.nextEvent = some t → inTime tie t limit = false

/-- How a `tread` of `n` bytes ends, and a `read_t_r` of as many that finds the same. -/
inductive TreadEnd (buf : Nat → UInt8) (n : Nat) (bytes : List (Nat × UInt8)) (late : Prop)
    (r r' : ReadEnd Clock) : Prop
  /-- nothing comes in time, for either -/
  | late (h : late) (ret : r.outcome = .ret (-2)) (same : r.buf = buf)
    (ret' : r'.outcome = .ret (-2))
  /-- the peer closes -/
  | closed (h : ¬ late) (none : bytes = []) (ret : r.outcome = .ret 0) (same : r.buf = buf)
    (ret' : r'.outcome = .ret (-1))
  /-- the next `m` bytes; where these are all, `read_t_r` has them too -/
  | some (h : ¬ late) (m : Nat) (pos : 0 < m) (le : m ≤ n) (le' : m ≤ bytes.length)
    (ret : r.outcome = .ret m) (stored : r.buf = store buf 0 ((bytes.take m).map Prod.snd))
    (all : m = n → r'.outcome = .ret 0 ∧ r'.buf = r.buf)

theorem toSize_int {n : Nat} (h : n < 2147483648) : toSize n = n := by
  rw [toSize, Int.emod_eq_of_lt (by omega) (by omega), Int.toNat_natCast]

section Once

variable (tie : Bool) (buf : Nat → UInt8) {n : Nat} {timeout : Int} (now : Nat)
  (bytes : List (Nat × UInt8)) (close : Option Nat)

/-- `tread` times out where `read_t_r` would at its first wait, sees the end of the stream where
`read_t_r` would, and else takes what is there; what is all it was asked for, `read_t_r` takes
as well. -/
theorem tread_ends (hn : 0 < n) (hint : n < 2147483648) (hT : 0 < timeout) :
    TreadEnd buf n bytes (FirstLate tie (now + timeout.toNat) (.start now bytes close))
      (tread (virtualTime tie) buf n timeout false (.start now bytes close))
      (readTR (virtualTime tie) (some buf) n timeout false (.start now bytes close)) := by
  have hTR := readTR_timed tie buf n now bytes close hT
  rw [Int.toNat_natCast] at hTR
  obtain ⟨c, hc⟩ : ∃ c, c = Clock.start now bytes close := ⟨_, rfl⟩
  have hnow : c.now = now := hc ▸ rfl
  have hbytes : c.bytes = bytes := hc ▸ rfl
  have hclose : c.close = close := hc ▸ rfl
  have halarm : c.alarm = none := hc ▸ rfl
  obtain ⟨es, hes⟩ := neededEvents_head c hn
  rw [hbytes, hclose] at hes
  rw [← hc] at hTR ⊢
  cases ht : c.nextEvent with
  | none =>
    have hlate : FirstLate tie (now + timeout.toNat) c := by
      intro t h
      rw [ht] at h
      cases h
    have hsel : (virtualTime tie).select timeout.toNat c =
        (.timeout, c.wait (c.now + timeout.toNat)) := by
      simp only [virtualTime, Clock.select, ht]
    rw [tread_late hT hsel]
    rw [hes, ht, patient] at hTR
    exact .late hlate rfl rfl hTR.outcome
  | some t =>
    by_cases hin : inTime tie t (now + timeout.toNat) = true
    · have hlate : ¬ FirstLate tie (now + timeout.toNat) c := by
        intro h
        rw [h t ht] at hin
        cases hin
      have hsel : (virtualTime tie).select timeout.toNat c = (.ready, c.wait t) := by
        simp only [virtualTime, Clock.select, ht, hnow, hin, Bool.or_true, if_true]
      have hread : (virtualTime tie).read (toSize n) (c.wait t) = (c.wait t).take n := by
        have ht' : (c.wait t).nextEvent = some t := ht
        have ha' : (c.wait t).alarm = none := halarm
        have hwait : (c.wait t).wait t = c.wait t := by
          simp [Clock.wait]
        simp only [virtualTime, Clock.read, ht', ha', hwait, toSize_int hint]
      rcases take_cases ht hn with ⟨hb, hend, htake⟩ |
        ⟨bs, hne, heq, hbn, hbl, hble, hhead, htake⟩
      · rw [htake] at hread
        rw [tread_data hT (Int.natCast_nonneg n) hsel hread]
        rw [hbytes] at hb
        subst hb
        have hone : neededEvents n [] close = [some t] := by
          rw [hclose] at hend
          simp [neededEvents, hn, hend]
        have hcode : endCode n [] = -1 := by simp [endCode, hn]
        rw [hone, patient, hin, patient] at hTR
        refine .closed hlate rfl rfl ?_ ?_
        · simp only [store_nil]
        · rw [hTR.outcome, hcode]
          rfl
      · rw [htake] at hread
        rw [tread_data hT (Int.natCast_nonneg n) hsel hread]
        rw [hbytes] at heq hbl
        refine .some hlate bs.length (List.length_pos_iff.mpr hne) hbn hbl ?_ ?_ fun hall => ?_
        · rw [List.length_map]
        · rw [← heq]
        · have hnone : neededEvents (n - bs.length) (bytes.drop bs.length) close = [] := by
            simp [neededEvents, hall]
          rw [hnow] at hble
          rw [patient_of_take heq hbn hbl (by omega) hble hhead, hnone, hin, patient] at hTR
          have hcode : endCode n bytes = 0 := if_neg (by omega)
          refine ⟨?_, ?_⟩
          · rw [hTR.outcome, Bool.and_true, hcode]
            rfl
          · rw [hTR.stored rfl (by omega), ← hall, ← heq]
    · have hin' : inTime tie t (now + timeout.toNat) = false := by simpa using hin
      have hlt : ¬ t ≤ c.now := fun hx => hin (by rw [← hnow]; exact inTime_add tie hx (by omega))
      have hlate : FirstLate tie (now + timeout.toNat) c := by
        intro t' h
        cases ht.symm.trans h
        exact hin'
      have hsel : (virtualTime tie).select timeout.toNat c =
          (.timeout, c.wait (c.now + timeout.toNat)) := by
        simp only [virtualTime, Clock.select, ht, hnow, hin', hnow ▸ hlt, decide_false,
          Bool.or_false, Bool.false_eq_true, if_false]
      rw [tread_late hT hsel]
      rw [hes, ht, patient, hin', Bool.false_and] at hTR
      exact .late hlate rfl rfl hTR.outcome

end Once

/-- One byte after 2 units of time and one after 4, with 3 to wait. -/
theorem tread_ends_two :
    TreadEnd (fun _ => 0) 2 [(2, 65), (4, 66)]
      (FirstLate true 3 (.start 0 [(2, 65), (4, 66)] none))
      (tread (virtualTime true) (fun _ => 0) 2 3 false (.start 0 [(2, 65), (4, 66)] none))
      (readTR (virtualTime true) (some fun _ => 0) 2 3 false
        (.start 0 [(2, 65), (4, 66)] none)) := by
  have hn : 0 < 2 := by decide
  have hint : 2 < 2147483648 := by decide
  have hT : (0 : Int) < 3 := by decide
  exact tread_ends true (fun _ => 0) 0 [(2, 65), (4, 66)] none hn hint hT

end Netepoll
