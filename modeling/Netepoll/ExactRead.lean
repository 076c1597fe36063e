import Netepoll.Tcptool

/-! `read_t` and `read_t_r` on a descriptor with a given sequence of read results, with no
timeout expiring: what they return, what they store and what they take from the stream. -/

namespace Netepoll

open Memory

/-- What a `read` finds: a number of bytes that are there (it takes as many of them as it
asks for), the end of the file, or an error. -/
inductive Result where
  | bytes (count : Nat) (pos : 0 < count)
  | eof
  | error (errno : Nat)

/-- A stream, how much of it was consumed, and the results to come. -/
structure Feed where
  stream : Nat → UInt8
  consumed : Nat
  results : List Result

def Feed.read (n : Nat) (k : Feed) : ReadReturn × Bool × Feed :=
  match k.results with
  | [] => (.blocked, false, k)
  | .bytes count _ :: rs =>
    (.data (load k.stream k.consumed (min count n)), false,
      { k with consumed := k.consumed + min count n, results := rs })
  | .eof :: rs => (.data [], false, { k with results := rs })
  | .error errno :: rs => (.error errno, false, { k with results := rs })

/-- No alarm goes off, and every `select` finds the descriptor ready. -/
def feeding : Syscalls Feed where
  alarm _ k := k
  read := Feed.read
  select _ k := (.ready, k)

/-- The sum of the results before the first end of file or error. -/
def total : List Result → Nat
  | .bytes count _ :: rs => count + total rs
  | _ => 0

/-- The first end of file (`none`) or error. -/
def stop : List Result → Option (Option Nat)
  | [] => none
  | .bytes _ _ :: rs => stop rs
  | .eof :: _ => some none
  | .error errno :: _ => some (some errno)

/-- The end of a call that `read` does not give enough bytes. -/
def stopped (failCode : Int) : Option (Option Nat) → Outcome
  | none => .waiting
  | some none => .ret (-1)
  | some (some errno) => .ret (if errno = ECONNRESET then -1 else failCode)

/-- The end of a call that needs `n` more bytes. -/
def ending (failCode : Int) (n : Nat) (rs : List Result) : Outcome :=
  if n ≤ total rs then .ret 0 else stopped failCode (stop rs)

/-- The end of a loop that needs `n` more bytes, with `len` bytes read so far. -/
structure Reads (failCode : Int) (n : Nat) (buf : Nat → UInt8) (len : Nat) (k : Feed)
    (r : ReadEnd Feed) : Prop where
  outcome : r.outcome = ending failCode n k.results
  stored : ∃ m, m ≤ n ∧ r.kernel.consumed = k.consumed + m ∧
    r.buf = store buf len (load k.stream k.consumed m) ∧ (n ≤ total k.results → m = n)

section Reads

variable {failCode : Int} {n len : Nat} {buf : Nat → UInt8} {k : Feed} {r : ReadEnd Feed}

theorem Reads.done (hn : n = 0) (ho : r.outcome = .ret 0) (hb : r.buf = buf)
    (hk : r.kernel = k) : Reads failCode n buf len k r := by
  subst hn
  refine ⟨by rw [ho, ending, if_pos (Nat.zero_le _)], 0, Nat.le_refl 0, by rw [hk]; rfl, ?_,
    fun _ => rfl⟩
  rw [hb, load_zero, store_nil]

/-- The call ends at the next result, which brings no bytes. -/
theorem Reads.stops (hn : 0 < n) (ht : total k.results = 0)
    (ho : r.outcome = stopped failCode (stop k.results)) (hb : r.buf = buf)
    (hk : r.kernel.consumed = k.consumed) : Reads failCode n buf len k r := by
  refine ⟨by rw [ho, ending, if_neg (by omega)], 0, Nat.zero_le n, ?_, ?_, fun h => by omega⟩
  · rw [hk]
    rfl
  · rw [hb, load_zero, store_nil]

/-- One turn takes `m` bytes, and the later ones the rest. -/
theorem Reads.turn {count m : Nat} {pos : 0 < count} {rs : List Result}
    (hk : k.results = .bytes count pos :: rs) (hm : m = min count n)
    (h : Reads failCode (n - m) (store buf len (load k.stream k.consumed m)) (len + m)
      { k with consumed := k.consumed + m, results := rs } r) :
    Reads failCode n buf len k r := by
  obtain ⟨ho, m', hle, hcons, hbuf, hall⟩ := h
  have hneed : n - m ≤ total rs ↔ n ≤ total k.results := by
    rw [hk, total]
    omega
  have hstop : stop k.results = stop rs := by rw [hk, stop]
  refine ⟨?_, m + m', by omega, by rw [hcons, Nat.add_assoc], ?_, fun hn => ?_⟩
  · simp only [ho, ending, hneed, hstop]
  · have hlen : len + m = len + (load k.stream k.consumed m).length := by rw [load_length]
    rw [hbuf, load_add, ← store_append, ← hlen]
  · have := hall (hneed.mpr hn)
    omega

end Reads

theorem load_pos (stream : Nat → UInt8) (off : Nat) {n : Nat} (hn : 0 < n) :
    ∃ b bs, load stream off n = b :: bs := by
  obtain ⟨n, rfl⟩ := Nat.exists_eq_succ_of_ne_zero (by omega : n ≠ 0)
  exact ⟨_, _, load_succ stream off n⟩

/-- A result with bytes in it gives the next ones of the stream. -/
theorem feeding_bytes {n : Nat} (hn : 0 < n) (stream : Nat → UInt8) (consumed : Nat)
    {count : Nat} (pos : 0 < count) (rs : List Result) :
    ∃ b bs, b :: bs = load stream consumed (min count n) ∧
      feeding.read n ⟨stream, consumed, .bytes count pos :: rs⟩ =
        (.data (b :: bs), false, ⟨stream, consumed + min count n, rs⟩) := by
  obtain ⟨b, bs, hbs⟩ := load_pos stream consumed (by omega : 0 < min count n)
  refine ⟨b, bs, hbs.symm, ?_⟩
  rw [← hbs]
  rfl

theorem cancelAlarm_feeding (timeout : Nat) (k : Feed) : cancelAlarm feeding timeout k = k :=
  ite_self k

/-- Where `select` always finds the descriptor ready, a turn of `read_t_r` is its `read`. -/
theorem readTRLoop_feeding {readLen timeout fuel len : Nat} (f : Bool) (buf : Nat → UInt8)
    (k : Feed) (h : ¬ readLen ≤ len) :
    readTRLoop feeding readLen timeout (fuel + 1) f buf len k =
      readTRRead feeding readLen (readTRLoop feeding readLen timeout fuel f) f buf len k := by
  rw [readTRLoop, if_neg h]
  exact ite_self _

theorem readTLoop_reads {readLen timeout fuel : Nat} {buf : Nat → UInt8} {len : Nat}
    {k : Feed} (hfuel : readLen ≤ len + fuel) :
    Reads (-90) (readLen - len) buf len k
      (readTLoop feeding readLen timeout fuel false buf len k) := by
  induction fuel generalizing buf len k with
  | zero =>
    rw [readTLoop_done (by omega)]
    exact .done (by omega) rfl rfl (cancelAlarm_feeding timeout k)
  | succ fuel ih =>
    by_cases hle : readLen ≤ len
    · rw [readTLoop_done hle]
      exact .done (by omega) rfl rfl (cancelAlarm_feeding timeout k)
    have hn : 0 < readLen - len := by omega
    obtain ⟨stream, consumed, results⟩ := k
    match results with
    | [] =>
      rw [readTLoop_blocked hle rfl]
      exact .stops hn rfl rfl rfl rfl
    | .eof :: rs =>
      rw [readTLoop_eof hle rfl, cancelAlarm_feeding]
      exact .stops hn rfl rfl rfl rfl
    | .error errno :: rs =>
      rw [readTLoop_error hle rfl, cancelAlarm_feeding]
      exact .stops hn rfl rfl rfl rfl
    | .bytes count pos :: rs =>
      obtain ⟨b, bs, hbs, hread⟩ := feeding_bytes hn stream consumed pos rs
      have hlen : (b :: bs).length = min count (readLen - len) := by rw [hbs, load_length]
      rw [readTLoop_data hle hread, hlen, hbs]
      refine .turn rfl rfl ?_
      rw [← Nat.sub_add_eq]
      exact ih (by omega)

theorem readTRLoop_reads {readLen timeout fuel : Nat} {buf : Nat → UInt8} {len : Nat}
    {k : Feed} (hfuel : readLen ≤ len + fuel) :
    Reads (-163) (readLen - len) buf len k
      (readTRLoop feeding readLen timeout fuel false buf len k) := by
  induction fuel generalizing buf len k with
  | zero =>
    rw [readTRLoop_done (by omega)]
    exact .done (by omega) rfl rfl rfl
  | succ fuel ih =>
    by_cases hle : readLen ≤ len
    · rw [readTRLoop_done hle]
      exact .done (by omega) rfl rfl rfl
    have hn : 0 < readLen - len := by omega
    rw [readTRLoop_feeding false buf k hle, readTRRead]
    obtain ⟨stream, consumed, results⟩ := k
    cases results with
    | nil => exact .stops hn rfl rfl rfl rfl
    | cons x rs =>
    cases x with
    | eof => exact .stops hn rfl rfl rfl rfl
    | error errno => exact .stops hn rfl rfl rfl rfl
    | bytes count pos =>
      obtain ⟨b, bs, hbs, hread⟩ := feeding_bytes hn stream consumed pos rs
      have hlen : (b :: bs).length = min count (readLen - len) := by rw [hbs, load_length]
      simp only [hread]
      rw [hlen, hbs]
      refine .turn rfl rfl ?_
      rw [← Nat.sub_add_eq]
      exact ih (by omega)

/-- The contract of a call for `readLen` bytes from the start of the stream, where
`failCode` stands for an error other than `ECONNRESET`. -/
structure ExactRead (failCode : Int) (stream : Nat → UInt8) (results : List Result)
    (buf : Nat → UInt8) (readLen : Int) (r : ReadEnd Feed) : Prop where
  complete : r.outcome = .ret 0 ↔ readLen ≤ total results
  consumed_all : r.outcome = .ret 0 → r.kernel.consumed = readLen.toNat
  consumed_le : r.kernel.consumed ≤ readLen.toNat
  filled : load r.buf 0 r.kernel.consumed = load stream 0 r.kernel.consumed
  inside : ∀ i, r.kernel.consumed ≤ i → r.buf i = buf i
  closed : r.outcome = .ret (-1) ↔
    total results < readLen ∧ (stop results = some none ∨ stop results = some (some ECONNRESET))
  failed : r.outcome = .ret failCode ↔
    total results < readLen ∧ ∃ errno, stop results = some (some errno) ∧ errno ≠ ECONNRESET

section Stopped

variable {failCode : Int} {x : Option (Option Nat)}

theorem stopped_ne_complete (h0 : failCode ≠ 0) : stopped failCode x ≠ .ret 0 := by
  intro h
  match x with
  | none => cases h
  | some none => cases h
  | some (some errno) =>
    have hret := Outcome.ret.inj h
    split at hret
    · cases hret
    · exact h0 hret

theorem stopped_closed_iff (h1 : failCode ≠ -1) :
    stopped failCode x = .ret (-1) ↔ x = some none ∨ x = some (some ECONNRESET) := by
  match x with
  | none => exact iff_of_false (fun h => by cases h) (by simp)
  | some none => exact iff_of_true rfl (.inl rfl)
  | some (some errno) =>
    by_cases he : errno = ECONNRESET
    · rw [he]
      exact iff_of_true rfl (.inr rfl)
    · refine iff_of_false (fun h => ?_) (by simpa using he)
      rw [stopped, if_neg he] at h
      exact h1 (Outcome.ret.inj h)

theorem stopped_failed_iff (h1 : failCode ≠ -1) :
    stopped failCode x = .ret failCode ↔ ∃ errno, x = some (some errno) ∧ errno ≠ ECONNRESET := by
  match x with
  | none => exact iff_of_false (fun h => by cases h) (by simp)
  | some none => exact iff_of_false (fun h => h1 (Outcome.ret.inj h).symm) (by simp)
  | some (some errno) =>
    by_cases he : errno = ECONNRESET
    · refine iff_of_false (fun h => ?_) (by simp [he])
      rw [stopped, if_pos he] at h
      exact h1 (Outcome.ret.inj h).symm
    · exact iff_of_true (by rw [stopped, if_neg he]) ⟨errno, rfl, he⟩

end Stopped

theorem Reads.exact {failCode : Int} {stream : Nat → UInt8} {results : List Result}
    {buf : Nat → UInt8} {readLen : Int} {r : ReadEnd Feed} (h0 : failCode ≠ 0)
    (h1 : failCode ≠ -1) (h : Reads failCode readLen.toNat buf 0 ⟨stream, 0, results⟩ r) :
    ExactRead failCode stream results buf readLen r := by
  obtain ⟨ho, m, hm, hcons, hbuf, hall⟩ := h
  simp only [Nat.zero_add] at ho hcons hbuf hall
  have hfilled : load r.buf 0 r.kernel.consumed = load stream 0 r.kernel.consumed := by
    have h := load_store buf 0 (load stream 0 m)
    rwa [load_length, ← hbuf, ← hcons] at h
  have hinside : ∀ i, r.kernel.consumed ≤ i → r.buf i = buf i := fun i hi => by
    rw [hbuf]
    exact store_outside buf (.inr (by rw [load_length]; omega))
  rcases Nat.lt_or_ge (total results) readLen.toNat with hlt | hge
  · have hout : r.outcome = stopped failCode (stop results) := by
      rw [ho, ending, if_neg (by omega)]
    have hshort : total results < readLen := by omega
    have hne : r.outcome ≠ .ret 0 := hout ▸ stopped_ne_complete h0
    refine ⟨iff_of_false hne (by omega), fun h => absurd h hne, by omega, hfilled, hinside, ?_, ?_⟩
    · rw [hout, stopped_closed_iff h1, and_iff_right hshort]
    · rw [hout, stopped_failed_iff h1, and_iff_right hshort]
  · have hout : r.outcome = .ret 0 := by rw [ho, ending, if_pos hge]
    have hlong : ¬ (total results : Int) < readLen := by omega
    refine ⟨iff_of_true hout (by omega), fun _ => by rw [hcons, hall hge], by omega, hfilled,
      hinside, ?_, ?_⟩
    · rw [hout]
      exact iff_of_false (fun h => by cases h) fun h => hlong h.1
    · rw [hout]
      exact iff_of_false (fun h => h0 (Outcome.ret.inj h).symm) fun h => hlong h.1

/-- Both reads take exactly the bytes they were asked for, or say what kept them from it. -/
theorem readT_readTR_exact (stream : Nat → UInt8) (results : List Result) (buf : Nat → UInt8)
    (readLen timeout : Int) :
    ExactRead (-90) stream results buf readLen
        (readT feeding (some buf) readLen timeout false ⟨stream, 0, results⟩) ∧
      ExactRead (-163) stream results buf readLen
        (readTR feeding (some buf) readLen timeout false ⟨stream, 0, results⟩) := by
  have hfuel : readLen.toNat ≤ 0 + readLen.toNat := by omega
  constructor
  · have h : Reads (-90) readLen.toNat buf 0 ⟨stream, 0, results⟩
        (readT feeding (some buf) readLen timeout false ⟨stream, 0, results⟩) := by
      rw [readT]
      split
      · exact readTLoop_reads hfuel
      · exact readTLoop_reads hfuel
    exact h.exact (by decide) (by decide)
  · exact Reads.exact (by decide) (by decide) (readTRLoop_reads hfuel)

end Netepoll
