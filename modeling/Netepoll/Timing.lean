import Netepoll.Tcptool

/-! The two reads in discrete virtual time. `read_t` bounds the whole call by one alarm,
`read_t_r` bounds each wait by a `select` of its own, so they part on a peer that is late
as a whole and never late at a stretch. -/

namespace Netepoll

open Memory

/-- The time, the pending alarm, and what the peer will still do: each byte with the time
of its arrival, and the time of the close if there is one. -/
structure Clock where
  now : Nat
  alarm : Option Nat
  bytes : List (Nat × UInt8)
  close : Option Nat

/-- Whether an event at time `t` comes before a limit at time `d`; `tie` says who wins
when they coincide. -/
def inTime (tie : Bool) (t d : Nat) : Bool := if tie then decide (t ≤ d) else decide (t < d)

/-- When the next `read` finds something: a byte, or the end of the stream. -/
def Clock.nextEvent (c : Clock) : Option Nat :=
  match c.bytes with
  | p :: _ => some p.1
  | [] => c.close

def Clock.wait (c : Clock) (t : Nat) : Clock := { c with now := max c.now t }

/-- The bytes that are there, at most `n`. -/
def Clock.arrived (c : Clock) (n : Nat) : List (Nat × UInt8) :=
  (c.bytes.takeWhile fun p => decide (p.1 ≤ c.now)).take n

def Clock.take (c : Clock) (n : Nat) : ReadReturn × Bool × Clock :=
  (.data ((c.arrived n).map Prod.snd), false,
    { c with bytes := c.bytes.drop (c.arrived n).length })

/-- The alarm at time `a` interrupts the call. -/
def Clock.interrupt (c : Clock) (a : Nat) : ReadReturn × Bool × Clock :=
  (.error EINTR, true, { c.wait a with alarm := none })

def Clock.read (tie : Bool) (n : Nat) (c : Clock) : ReadReturn × Bool × Clock :=
  match c.nextEvent, c.alarm with
  | some t, none => (c.wait t).take n
  | some t, some a =>
    if decide (t ≤ c.now) || inTime tie t a then (c.wait t).take n else c.interrupt a
  | none, some a => c.interrupt a
  | none, none => (.blocked, false, c)

def Clock.select (tie : Bool) (timeout : Nat) (c : Clock) : SelectReturn × Clock :=
  match c.nextEvent with
  | some t =>
    if decide (t ≤ c.now) || inTime tie t (c.now + timeout) then (.ready, c.wait t)
    else (.timeout, c.wait (c.now + timeout))
  | none => (.timeout, c.wait (c.now + timeout))

/-- `alarm(n)`: 0 cancels. -/
def Clock.setAlarm (n : Nat) (c : Clock) : Clock :=
  { c with alarm := if n = 0 then none else some (c.now + n) }

def virtualTime (tie : Bool) : Syscalls Clock where
  alarm := Clock.setAlarm
  read := Clock.read tie
  select := Clock.select tie

/-! ## The events a call needs -/

/-- The arrivals of the next `n` bytes and, when there are fewer, the close. -/
def neededEvents (n : Nat) (bytes : List (Nat × UInt8)) (close : Option Nat) :
    List (Option Nat) :=
  (bytes.take n).map (fun p => some p.1) ++ if bytes.length < n then [close] else []

/-- All of them happen in time for `d`. -/
def finishes (tie : Bool) (d : Nat) : List (Option Nat) → Bool
  | [] => true
  | none :: _ => false
  | some t :: es => inTime tie t d && finishes tie d es

/-- From `now` on, no single wait for the next of them is longer than `timeout`. -/
def patient (tie : Bool) (timeout : Nat) : Nat → List (Option Nat) → Bool
  | _, [] => true
  | _, none :: _ => false
  | now, some t :: es =>
    inTime tie t (now + timeout) && patient tie timeout (max now t) es

/-- The code without a timeout. -/
def endCode (n : Nat) (bytes : List (Nat × UInt8)) : Int := if bytes.length < n then -1 else 0

theorem inTime_mono {tie : Bool} {t t' d d' : Nat} (h : inTime tie t d = true) (ht : t' ≤ t)
    (hd : d ≤ d') : inTime tie t' d' = true := by
  cases tie <;> simp [inTime] at * <;> omega

theorem inTime_max {tie : Bool} {t t' d : Nat} (h : inTime tie t d = true)
    (h' : inTime tie t' d = true) : inTime tie (max t t') d = true := by
  cases tie <;> simp [inTime] at * <;> omega

theorem inTime_add (tie : Bool) {t now timeout : Nat} (ht : t ≤ now) (h : 0 < timeout) :
    inTime tie t (now + timeout) = true := by
  cases tie <;> simp [inTime] <;> omega

/-- Taking some bytes leaves the events of the others. -/
theorem neededEvents_take {n m : Nat} {bytes : List (Nat × UInt8)} (close : Option Nat)
    (hm : m ≤ n) (hb : m ≤ bytes.length) :
    neededEvents n bytes close = (bytes.take m).map (fun p => some p.1) ++
      neededEvents (n - m) (bytes.drop m) close := by
  have htake : bytes.take n = bytes.take m ++ (bytes.drop m).take (n - m) := by
    rw [← List.take_add, Nat.add_sub_cancel' hm]
  have hlt : (bytes.drop m).length < n - m ↔ bytes.length < n := by
    rw [List.length_drop]
    omega
  simp only [neededEvents, htake, List.map_append, List.append_assoc, hlt]

/-- The first event a call needs is the one its next `read` waits for. -/
theorem neededEvents_head (c : Clock) {n : Nat} (hn : 0 < n) :
    ∃ es, neededEvents n c.bytes c.close = c.nextEvent :: es := by
  obtain ⟨n, rfl⟩ := Nat.exists_eq_succ_of_ne_zero (by omega : n ≠ 0)
  cases hb : c.bytes with
  | nil => exact ⟨[], by simp [neededEvents, Clock.nextEvent, hb]⟩
  | cons p ps =>
    refine ⟨neededEvents n ps c.close, ?_⟩
    simp [neededEvents, Clock.nextEvent, hb]

theorem endCode_drop {n m : Nat} {bytes : List (Nat × UInt8)} (hm : m ≤ n)
    (hb : m ≤ bytes.length) : endCode (n - m) (bytes.drop m) = endCode n bytes := by
  have hlt : (bytes.drop m).length < n - m ↔ bytes.length < n := by
    rw [List.length_drop]
    omega
  simp only [endCode, hlt]

theorem finishes_append {tie : Bool} {d : Nat} {ps : List (Nat × UInt8)}
    {es : List (Option Nat)} (h : ∀ p ∈ ps, inTime tie p.1 d = true) :
    finishes tie d (ps.map (fun p => some p.1) ++ es) = finishes tie d es := by
  induction ps with
  | nil => rfl
  | cons p ps ih =>
    rw [List.map_cons, List.cons_append, finishes, h p List.mem_cons_self,
      ih fun q hq => h q (List.mem_cons_of_mem _ hq), Bool.true_and]

theorem patient_append {tie : Bool} {timeout now : Nat} {ps : List (Nat × UInt8)}
    {es : List (Option Nat)} (ht : 0 < timeout) (h : ∀ p ∈ ps, p.1 ≤ now) :
    patient tie timeout now (ps.map (fun p => some p.1) ++ es) = patient tie timeout now es := by
  induction ps with
  | nil => rfl
  | cons p ps ih =>
    have hp := h p List.mem_cons_self
    rw [List.map_cons, List.cons_append, patient, inTime_add tie hp ht, Nat.max_eq_left hp,
      ih fun q hq => h q (List.mem_cons_of_mem _ hq), Bool.true_and]

/-- What is done in time as a whole is never late at a stretch. -/
theorem patient_of_finishes {tie : Bool} {timeout start now : Nat} {es : List (Option Nat)}
    (h : finishes tie (start + timeout) es = true) (hn : start ≤ now) :
    patient tie timeout now es = true := by
  induction es generalizing now with
  | nil => rfl
  | cons e es ih =>
    cases e with
    | none => cases h
    | some t =>
      rw [finishes, Bool.and_eq_true] at h
      rw [patient, inTime_mono h.1 (Nat.le_refl t) (by omega), ih h.2 (by omega)]
      rfl

/-! ## One read -/

theorem arrived_eq (c : Clock) (n : Nat) :
    c.arrived n = c.bytes.take (c.arrived n).length := by
  have hp : c.arrived n <+: c.bytes :=
    (List.take_prefix _ _).trans (List.takeWhile_prefix _)
  exact List.prefix_iff_eq_take.mp hp

theorem arrived_le (c : Clock) (n : Nat) : ∀ p ∈ c.arrived n, p.1 ≤ c.now := by
  intro p hp
  have hall := List.all_eq_true.mp List.all_takeWhile p (List.mem_of_mem_take hp)
  simpa using hall

theorem arrived_length_le (c : Clock) (n : Nat) :
    (c.arrived n).length ≤ n ∧ (c.arrived n).length ≤ c.bytes.length := by
  constructor
  · rw [Clock.arrived, List.length_take]
    omega
  · have := congrArg List.length (arrived_eq c n)
    rw [List.length_take] at this
    omega

theorem arrived_ne_nil {c : Clock} {n : Nat} {p : Nat × UInt8} {ps : List (Nat × UInt8)}
    (hb : c.bytes = p :: ps) (hp : p.1 ≤ c.now) (hn : 0 < n) : c.arrived n ≠ [] := by
  obtain ⟨n, rfl⟩ := Nat.exists_eq_succ_of_ne_zero (by omega : n ≠ 0)
  rw [Clock.arrived, hb, List.takeWhile_cons, if_pos (by simpa using hp)]
  exact List.cons_ne_nil _ _

/-- A read that finds the next event: the end of the stream, or the bytes `bs`. -/
theorem take_cases {c : Clock} {t n : Nat} (ht : c.nextEvent = some t) (hn : 0 < n) :
    (c.bytes = [] ∧ c.close = some t ∧ (c.wait t).take n = (.data [], false, c.wait t)) ∨
    ∃ bs, bs ≠ [] ∧ bs = c.bytes.take bs.length ∧ bs.length ≤ n ∧
      bs.length ≤ c.bytes.length ∧ (∀ p ∈ bs, p.1 ≤ max c.now t) ∧
      bs.head?.map Prod.fst = some t ∧
      (c.wait t).take n = (.data (bs.map Prod.snd), false,
        { c.wait t with bytes := c.bytes.drop bs.length }) := by
  cases hb : c.bytes with
  | nil =>
    left
    rw [Clock.nextEvent, hb] at ht
    refine ⟨rfl, ht, ?_⟩
    simp [Clock.take, Clock.arrived, Clock.wait, hb]
  | cons p ps =>
    right
    rw [Clock.nextEvent, hb] at ht
    have hp : p.1 = t := Option.some.inj ht
    have hwb : (c.wait t).bytes = p :: ps := hb
    have hne := arrived_ne_nil (n := n) hwb (by rw [hp]; exact Nat.le_max_right _ _) hn
    have heq := arrived_eq (c.wait t) n
    rw [hwb] at heq
    obtain ⟨h1, h2⟩ := arrived_length_le (c.wait t) n
    rw [hwb] at h2
    refine ⟨(c.wait t).arrived n, hne, heq, h1, h2, arrived_le (c.wait t) n, ?_, ?_⟩
    · obtain ⟨q, qs, hq⟩ := List.exists_cons_of_ne_nil hne
      have hhead : q = p := by
        rw [hq, List.length_cons, List.take_succ_cons] at heq
        exact (List.cons.inj heq).1
      rw [hq, hhead, List.head?_cons, Option.map_some, hp]
    · simp only [Clock.take, hwb]

theorem finishes_of_take {tie : Bool} {d n : Nat} {bs bytes : List (Nat × UInt8)}
    {close : Option Nat} (heq : bs = bytes.take bs.length) (hn : bs.length ≤ n)
    (hb : bs.length ≤ bytes.length) (h : ∀ p ∈ bs, inTime tie p.1 d = true) :
    finishes tie d (neededEvents n bytes close) =
      finishes tie d (neededEvents (n - bs.length) (bytes.drop bs.length) close) := by
  rw [neededEvents_take close hn hb, ← heq, finishes_append h]

theorem patient_of_take {tie : Bool} {timeout now t n : Nat} {bs bytes : List (Nat × UInt8)}
    {close : Option Nat} (heq : bs = bytes.take bs.length) (hn : bs.length ≤ n)
    (hb : bs.length ≤ bytes.length) (hT : 0 < timeout) (h : ∀ p ∈ bs, p.1 ≤ max now t)
    (hhead : bs.head?.map Prod.fst = some t) :
    patient tie timeout now (neededEvents n bytes close) =
      (inTime tie t (now + timeout) && patient tie timeout (max now t)
        (neededEvents (n - bs.length) (bytes.drop bs.length) close)) := by
  rw [neededEvents_take close hn hb, ← heq]
  cases bs with
  | nil => cases hhead
  | cons p ps =>
    have hp : p.1 = t := Option.some.inj hhead
    rw [List.map_cons, List.cons_append, patient, hp,
      patient_append hT fun q hq => h q (List.mem_cons_of_mem _ hq)]

/-! ## The two loops -/

/-- How a call that needs `n` more bytes ends when `ok` says whether the events it needs
come in time. -/
structure Timed (r : ReadEnd Clock) (ok : Bool) (n : Nat) (buf : Nat → UInt8) (len : Nat)
    (bytes : List (Nat × UInt8)) : Prop where
  outcome : r.outcome = .ret (if ok then endCode n bytes else -2)
  stored : ok = true → n ≤ bytes.length →
    r.buf = store buf len ((bytes.take n).map Prod.snd)

section Timed

variable {r : ReadEnd Clock} {n len : Nat} {buf : Nat → UInt8} {bytes : List (Nat × UInt8)}

/-- Nothing is left to read. -/
theorem Timed.done {ok : Bool} (hok : ok = true) (hn : n = 0) (ho : r.outcome = .ret 0)
    (hb : r.buf = buf) : Timed r ok n buf len bytes := by
  refine ⟨by simp [ho, hok, hn, endCode], fun _ _ => ?_⟩
  rw [hb, hn, List.take_zero, List.map_nil, store_nil]

theorem Timed.late {ok : Bool} (hok : ok = false) (ho : r.outcome = .ret (-2)) :
    Timed r ok n buf len bytes :=
  ⟨by rw [ho, hok]; rfl, fun h => by rw [hok] at h; cases h⟩

/-- The end of the stream comes first. -/
theorem Timed.eof {ok : Bool} (hok : ok = true) (hn : 0 < n) (hb : bytes = [])
    (ho : r.outcome = .ret (-1)) : Timed r ok n buf len bytes := by
  refine ⟨by simp [ho, hok, endCode, hb, hn], fun _ hx => ?_⟩
  rw [hb, List.length_nil] at hx
  omega

/-- One turn reads `bs`, and the later ones the rest. -/
theorem Timed.turn {ok : Bool} {bs : List (Nat × UInt8)} (heq : bs = bytes.take bs.length)
    (hn : bs.length ≤ n) (hb : bs.length ≤ bytes.length)
    (h : Timed r ok (n - bs.length) (store buf len (bs.map Prod.snd)) (len + bs.length)
      (bytes.drop bs.length)) : Timed r ok n buf len bytes := by
  have hsplit : bytes.take n =
      bytes.take bs.length ++ (bytes.drop bs.length).take (n - bs.length) := by
    rw [← List.take_add, Nat.add_sub_cancel' hn]
  refine ⟨by rw [h.outcome, endCode_drop hn hb], fun hok hx => ?_⟩
  have hlen : len + bs.length = len + (bs.map Prod.snd).length := by rw [List.length_map]
  rw [h.stored hok (by rw [List.length_drop]; omega), hlen, store_append, hsplit, ← heq,
    List.map_append]

end Timed

/-- The loop of `read_t` with the alarm set for time `d`. -/
theorem readTLoop_timed {tie : Bool} {readLen timeout d fuel : Nat} {buf : Nat → UInt8}
    {len : Nat} {c : Clock} (hfuel : readLen ≤ len + fuel) (hd : c.alarm = some d)
    (hnow : inTime tie c.now d = true) :
    Timed (readTLoop (virtualTime tie) readLen timeout fuel false buf len c)
      (finishes tie d (neededEvents (readLen - len) c.bytes c.close)) (readLen - len) buf len
      c.bytes := by
  induction fuel generalizing buf len c with
  | zero =>
    have hz : readLen - len = 0 := by omega
    rw [readTLoop_done (by omega)]
    exact .done (by simp [hz, neededEvents, finishes]) hz rfl rfl
  | succ fuel ih =>
    by_cases hle : readLen ≤ len
    · have hz : readLen - len = 0 := by omega
      rw [readTLoop_done hle]
      exact .done (by simp [hz, neededEvents, finishes]) hz rfl rfl
    have hn : 0 < readLen - len := by omega
    obtain ⟨es, hes⟩ := neededEvents_head c hn
    cases ht : c.nextEvent with
    | none =>
      have hread : (virtualTime tie).read (readLen - len) c = c.interrupt d := by
        simp only [virtualTime, Clock.read, ht, hd]
      rw [readTLoop_error hle hread]
      exact .late (by rw [hes, ht, finishes]) rfl
    | some t =>
      by_cases hin : inTime tie t d = true
      · have hread : (virtualTime tie).read (readLen - len) c =
            (c.wait t).take (readLen - len) := by
          simp only [virtualTime, Clock.read, ht, hd, hin, Bool.or_true, if_true]
        have hnow' : inTime tie (max c.now t) d = true := inTime_max hnow hin
        rcases take_cases ht hn with ⟨hb, hclose, htake⟩ |
          ⟨bs, hne, heq, hbn, hbl, hble, hhead, htake⟩
        · rw [htake] at hread
          rw [readTLoop_eof hle hread]
          refine .eof ?_ hn hb rfl
          simp [hb, neededEvents, hn, hclose, finishes, hin]
        · obtain ⟨p, ps, rfl⟩ := List.exists_cons_of_ne_nil hne
          rw [htake, List.map_cons] at hread
          rw [readTLoop_data hle hread, finishes_of_take heq hbn hbl fun q hq =>
            inTime_mono hnow' (hble q hq) (Nat.le_refl d)]
          have hlen : len + (p.2 :: ps.map Prod.snd).length = len + (p :: ps).length := by simp
          rw [hlen]
          refine .turn heq hbn hbl ?_
          rw [← Nat.sub_add_eq]
          exact ih (by simp only [List.length_cons]; omega) hd hnow'
      · have hin' : inTime tie t d = false := by simpa using hin
        have hlt : ¬ t ≤ c.now := fun hx => hin (inTime_mono hnow hx (Nat.le_refl d))
        have hread : (virtualTime tie).read (readLen - len) c = c.interrupt d := by
          simp only [virtualTime, Clock.read, ht, hd, hin', hlt, decide_false, Bool.or_false,
            Bool.false_eq_true, if_false]
        rw [readTLoop_error hle hread]
        exact .late (by rw [hes, ht, finishes, hin', Bool.false_and]) rfl

/-- The loop of `read_t_r`, each wait bounded by `timeout`. -/
theorem readTRLoop_timed {tie : Bool} {readLen timeout fuel : Nat} {f : Bool}
    {buf : Nat → UInt8} {len : Nat} {c : Clock} (hT : 0 < timeout)
    (hfuel : readLen ≤ len + fuel) (ha : c.alarm = none) :
    Timed (readTRLoop (virtualTime tie) readLen timeout fuel f buf len c)
      (patient tie timeout c.now (neededEvents (readLen - len) c.bytes c.close)) (readLen - len)
      buf len c.bytes := by
  induction fuel generalizing buf len c with
  | zero =>
    have hz : readLen - len = 0 := by omega
    rw [readTRLoop_done (by omega)]
    exact .done (by simp [hz, neededEvents, patient]) hz rfl rfl
  | succ fuel ih =>
    by_cases hle : readLen ≤ len
    · have hz : readLen - len = 0 := by omega
      rw [readTRLoop_done hle]
      exact .done (by simp [hz, neededEvents, patient]) hz rfl rfl
    have hn : 0 < readLen - len := by omega
    obtain ⟨es, hes⟩ := neededEvents_head c hn
    cases ht : c.nextEvent with
    | none =>
      have hsel : (virtualTime tie).select timeout c = (.timeout, c.wait (c.now + timeout)) := by
        simp only [virtualTime, Clock.select, ht]
      rw [readTRLoop_timeout hle hT hsel]
      exact .late (by rw [hes, ht, patient]) rfl
    | some t =>
      by_cases hin : inTime tie t (c.now + timeout) = true
      · have hsel : (virtualTime tie).select timeout c = (.ready, c.wait t) := by
          simp only [virtualTime, Clock.select, ht, hin, Bool.or_true, if_true]
        have hread : (virtualTime tie).read (readLen - len) (c.wait t) =
            ((c.wait t).wait t).take (readLen - len) := by
          have ht' : (c.wait t).nextEvent = some t := ht
          have ha' : (c.wait t).alarm = none := ha
          simp only [virtualTime, Clock.read, ht', ha']
        have hwait : (c.wait t).wait t = c.wait t := by
          simp [Clock.wait]
        rw [hwait] at hread
        rcases take_cases ht hn with ⟨hb, hclose, htake⟩ |
          ⟨bs, hne, heq, hbn, hbl, hble, hhead, htake⟩
        · rw [htake] at hread
          rw [readTRLoop_eof hle hT hsel hread]
          refine .eof ?_ hn hb rfl
          simp [hb, neededEvents, hn, hclose, patient, hin]
        · obtain ⟨p, ps, rfl⟩ := List.exists_cons_of_ne_nil hne
          rw [htake, List.map_cons] at hread
          rw [readTRLoop_data hle hT hsel hread, patient_of_take heq hbn hbl hT hble hhead, hin,
            Bool.true_and]
          have hlen : len + (p.2 :: ps.map Prod.snd).length = len + (p :: ps).length := by simp
          rw [hlen]
          refine .turn heq hbn hbl ?_
          rw [← Nat.sub_add_eq]
          exact ih (by simp only [List.length_cons]; omega) ha
      · have hin' : inTime tie t (c.now + timeout) = false := by simpa using hin
        have hlt : ¬ t ≤ c.now := fun hx => hin (inTime_add tie hx hT)
        have hsel : (virtualTime tie).select timeout c =
            (.timeout, c.wait (c.now + timeout)) := by
          simp only [virtualTime, Clock.select, ht, hin', hlt, decide_false, Bool.or_false,
            Bool.false_eq_true, if_false]
        rw [readTRLoop_timeout hle hT hsel]
        exact .late (by rw [hes, ht, patient, hin', Bool.false_and]) rfl

/-! ## When the two agree -/

/-- What a call finds at time `now`: the peer, and no alarm pending. -/
def Clock.start (now : Nat) (bytes : List (Nat × UInt8)) (close : Option Nat) : Clock :=
  ⟨now, none, bytes, close⟩

/-- The same result and, when it is 0, the same bytes behind `Buf`. -/
def SameRead (r r' : ReadEnd Clock) : Prop :=
  r.outcome = r'.outcome ∧ (r.outcome = .ret 0 → r.buf = r'.buf)

section Agree

variable (tie : Bool) (buf : Nat → UInt8) (readLen : Int) {timeout : Int} (now : Nat)
  (bytes : List (Nat × UInt8)) (close : Option Nat)

theorem readT_timed (hT : 0 < timeout) :
    Timed (readT (virtualTime tie) (some buf) readLen timeout false (.start now bytes close))
      (finishes tie (now + timeout.toNat) (neededEvents readLen.toNat bytes close))
      readLen.toNat buf 0 bytes := by
  have hT' : 0 < timeout.toNat := by omega
  have hz : timeout.toNat ≠ 0 := by omega
  have hset : (virtualTime tie).alarm timeout.toNat (.start now bytes close) =
      ⟨now, some (now + timeout.toNat), bytes, close⟩ := by
    simp only [virtualTime, Clock.setAlarm, Clock.start, if_neg hz]
  simp only [readT, if_pos hT', hset]
  exact readTLoop_timed (by omega) rfl (inTime_add tie (Nat.le_refl now) hT')

theorem readTR_timed (hT : 0 < timeout) :
    Timed (readTR (virtualTime tie) (some buf) readLen timeout false (.start now bytes close))
      (patient tie timeout.toNat now (neededEvents readLen.toNat bytes close))
      readLen.toNat buf 0 bytes := by
  simp only [readTR]
  exact readTRLoop_timed (by omega) (by omega) rfl

/-- `read_t` and `read_t_r` agree on a peer if and only if every event they need comes
within `Timeout` of the start, or some single wait for one of them is longer than
`Timeout` anyway. -/
theorem sameRead_iff (hT : 0 < timeout) :
    SameRead
        (readT (virtualTime tie) (some buf) readLen timeout false (.start now bytes close))
        (readTR (virtualTime tie) (some buf) readLen timeout false (.start now bytes close)) ↔
      finishes tie (now + timeout.toNat) (neededEvents readLen.toNat bytes close) = true ∨
        patient tie timeout.toNat now (neededEvents readLen.toNat bytes close) = false := by
  have h := readT_timed tie buf readLen now bytes close hT
  have h' := readTR_timed tie buf readLen now bytes close hT
  have hcode : endCode readLen.toNat bytes ≠ -2 := by
    unfold endCode
    split <;> decide
  cases hfin : finishes tie (now + timeout.toNat) (neededEvents readLen.toNat bytes close) with
  | true =>
    -- in time as a whole, so never late at a stretch
    have hpat := patient_of_finishes hfin (Nat.le_refl now)
    rw [hfin] at h
    rw [hpat] at h'
    refine iff_of_true ⟨by rw [h.outcome, h'.outcome], fun ho => ?_⟩ (Or.inl rfl)
    have hlen : readLen.toNat ≤ bytes.length := by
      rw [h.outcome] at ho
      simp only [if_true, Outcome.ret.injEq, endCode] at ho
      split at ho
      · cases ho
      · omega
    rw [h.stored rfl hlen, h'.stored rfl hlen]
  | false =>
    rw [hfin] at h
    cases hpat : patient tie timeout.toNat now (neededEvents readLen.toNat bytes close) with
    | true =>
      rw [hpat] at h'
      refine iff_of_false (fun hsame => ?_) (by simp)
      have he := hsame.1
      rw [h.outcome, h'.outcome] at he
      simp only [Bool.false_eq_true, if_false, if_true, Outcome.ret.injEq] at he
      exact hcode he.symm
    | false =>
      rw [hpat] at h'
      refine iff_of_true ⟨by rw [h.outcome, h'.outcome], fun ho => ?_⟩ (Or.inr rfl)
      rw [h.outcome] at ho
      cases ho

end Agree

/-- Two bytes that arrive one time unit apart, with three units to wait. -/
theorem sameRead_iff_prompt :
    SameRead
      (readT (virtualTime true) (some fun _ => 0) 2 3 false (.start 0 [(1, 65), (2, 66)] none))
      (readTR (virtualTime true) (some fun _ => 0) 2 3 false
        (.start 0 [(1, 65), (2, 66)] none)) :=
  (sameRead_iff true (fun _ => 0) 2 0 [(1, 65), (2, 66)] none (by decide)).mpr (by decide)

/-- The second byte comes 4 units after the start and 2 after the first. -/
theorem not_sameRead_slow :
    ¬ ∀ (tie : Bool) (buf : Nat → UInt8) (readLen timeout : Int) (now : Nat)
      (bytes : List (Nat × UInt8)) (close : Option Nat), 0 < readLen → 0 < timeout →
      SameRead (readT (virtualTime tie) (some buf) readLen timeout false (.start now bytes close))
        (readTR (virtualTime tie) (some buf) readLen timeout false (.start now bytes close)) := by
  intro h
  have hsame := (h true (fun _ => 0) 2 3 0 [(2, 65), (4, 66)] none (by decide) (by decide)).1
  revert hsame
  decide

end Netepoll
