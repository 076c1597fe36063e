import Netepoll.ShortWrites

/-! A response that `senddata` (sock.c) sends in several callbacks. `m_snt_buf_len` counts the
bytes of `m_snd_buf` that the kernel has taken. -/

namespace Netepoll

open Memory

/-- What `send(client_fd, ev->m_snd_buf + ev->m_snt_buf_len, ev->m_snd_buf_len -
ev->m_snt_buf_len, 0)` offers; the length is a `size_t`. -/
def sndBytes (ev : MyEvents) : List UInt8 :=
  load ev.mSndBuf ev.mSntBufLen.toNat (toSize (ev.mSndBufLen - ev.mSntBufLen))

/-- `senddata(client_fd, event, &Ep_events[i])` with its `send`, whose result is `len`. -/
def senddataSend (x : Wire) (i : SlotIx) (clientFd : Nat) (len : Int) : Option Wire := do
  let ev := x.server.epEvents i
  let x ← x.send clientFd (sndBytes ev) (if len < 0 then none else some len.toNat)
  some { x with server := senddata x.server i len }

/-- The main loop calls `senddata` for a slot that is registered with it. -/
def senddataStep (i : SlotIx) (x : Wire) (len : Int) : Option Wire :=
  if (x.server.epEvents i).mStatus = 1 ∧ (x.server.epEvents i).callBack = some .senddata then
    senddataSend x i (x.server.epEvents i).mFd len
  else none

/-- A slot of connection `c` that is registered with `senddata` and has bytes to send. -/
structure Sending (x : Wire) (i : SlotIx) (c : Nat) : Prop where
  status : (x.server.epEvents i).mStatus = 1
  callBack : (x.server.epEvents i).callBack = some .senddata
  conn : x.server.kernel.fds (x.server.epEvents i).mFd = some (.conn c)
  registered : ∃ item, x.server.kernel.epoll (x.server.epEvents i).mFd = some item
  nonneg : 0 ≤ (x.server.epEvents i).mSntBufLen
  lt : (x.server.epEvents i).mSntBufLen < (x.server.epEvents i).mSndBufLen
  le : (x.server.epEvents i).mSndBufLen ≤ BUFSIZ

/-- `m_snt_buf_len = snt` in a slot that stays registered. -/
def Server.advance (s : Server) (i : SlotIx) (snt : Int) : Server :=
  s.setSlot i { s.epEvents i with mSntBufLen := snt }

/-- The descriptor closed and the slot released. -/
def Server.release (s : Server) (i : SlotIx) (snt : Int) : Server :=
  { s with kernel := s.kernel.close (s.epEvents i).mFd }.setSlot i
    { s.epEvents i with mSntBufLen := snt, mStatus := 0 }

/-- All bytes up to `m_snd_buf_len` are sent, or a `send` has failed. -/
def Finished (ev : MyEvents) (snt : Int) (rs : List Int) : Prop :=
  snt = ev.mSndBufLen ∨ ∃ r ∈ rs, r ≤ 0

/-- Callbacks with the results `rs` lead from `x` to `y` and `m_snt_buf_len` to `snt`. -/
structure Delivered (x y : Wire) (i : SlotIx) (c : Nat) (rs : List Int) (snt : Int) : Prop where
  ge : (x.server.epEvents i).mSntBufLen ≤ snt
  le : snt ≤ (x.server.epEvents i).mSndBufLen
  /-- the connection has got the bytes between the old and the new `m_snt_buf_len` -/
  given : y.given = Function.update x.given c (x.given c ++
    load (x.server.epEvents i).mSndBuf (x.server.epEvents i).mSntBufLen.toNat
      (snt - (x.server.epEvents i).mSntBufLen).toNat)
  unfinished : ¬ Finished (x.server.epEvents i) snt rs → y.server = x.server.advance i snt
  finished : Finished (x.server.epEvents i) snt rs → y.server = x.server.release i snt

section Fields

variable (s : Server) (i : SlotIx) (snt : Int)

@[simp] theorem Server.advance_slot :
    (s.advance i snt).epEvents i = { s.epEvents i with mSntBufLen := snt } := by
  simp [Server.advance]

@[simp] theorem Server.release_slot :
    (s.release i snt).epEvents i = { s.epEvents i with mSntBufLen := snt, mStatus := 0 } := by
  simp [Server.release]

@[simp] theorem Server.advance_kernel : (s.advance i snt).kernel = s.kernel := rfl

theorem Server.advance_advance (snt' : Int) :
    (s.advance i snt).advance i snt' = s.advance i snt' := by
  simp [Server.advance, Server.setSlot, Function.update_idem]

theorem Server.advance_release (snt' : Int) :
    (s.advance i snt).release i snt' = s.release i snt' := by
  simp [Server.advance, Server.release, Server.setSlot, Function.update_idem]

end Fields

/-! ## One callback -/

/-- A `close` after `EPOLL_CTL_DEL` does what one without it does. -/
theorem Kernel.close_epollDel (k : Kernel) (fd : Nat) : (k.epollDel fd).close fd = k.close fd := by
  simp [Kernel.epollDel, Kernel.close, Function.update_idem]

theorem senddata_taken {s : Server} {i : SlotIx} (h : (s.epEvents i).mStatus = 1) {len : Int}
    (hlen : 0 < len) : senddata s i len =
      if (s.epEvents i).mSntBufLen + len = (s.epEvents i).mSndBufLen then
        s.release i ((s.epEvents i).mSntBufLen + len)
      else s.advance i ((s.epEvents i).mSntBufLen + len) := by
  rw [senddata, if_pos hlen]
  simp only [Server.setSlot_epEvents, Function.update_self]
  split
  · rw [eventdel, if_neg (by simpa using h)]
    simp [Server.release, Server.setSlot, Server.close, Kernel.close_epollDel, Function.update_idem]
  · rfl

theorem senddata_failed {s : Server} {i : SlotIx} (h : (s.epEvents i).mStatus = 1) {len : Int}
    (hlen : len ≤ 0) : senddata s i len = s.release i (s.epEvents i).mSntBufLen := by
  rw [senddata, if_neg (Int.not_lt.mpr hlen), closeAndDel_eq h]
  rfl

theorem Sending.length_sndBytes {x : Wire} {i : SlotIx} {c : Nat} (h : Sending x i c) :
    ((sndBytes (x.server.epEvents i)).length : Int) =
      (x.server.epEvents i).mSndBufLen - (x.server.epEvents i).mSntBufLen := by
  have hnonneg := h.nonneg
  have hlt := h.lt
  have hle := h.le
  rw [sndBytes, load_length]
  unfold toSize
  unfold BUFSIZ at hle
  omega

/-- `send` takes a part of what it is offered. -/
theorem senddataStep_taken {x : Wire} {i : SlotIx} {c : Nat} (h : Sending x i c) {len : Int}
    (hpos : 0 < len)
    (hle : len ≤ (x.server.epEvents i).mSndBufLen - (x.server.epEvents i).mSntBufLen) :
    senddataStep i x len = some ⟨senddata x.server i len, Function.update x.given c (x.given c ++
      load (x.server.epEvents i).mSndBuf (x.server.epEvents i).mSntBufLen.toNat len.toNat)⟩ := by
  have hlen := h.length_sndBytes
  have hroom : len.toNat ≤ (sndBytes (x.server.epEvents i)).length := by omega
  have htake : (sndBytes (x.server.epEvents i)).take len.toNat =
      load (x.server.epEvents i).mSndBuf (x.server.epEvents i).mSntBufLen.toNat len.toNat := by
    rw [sndBytes, load_length] at hroom
    rw [sndBytes, ← Nat.add_sub_cancel' hroom, load_add]
    exact List.take_left' (load_length _ _ _)
  rw [senddataStep, if_pos ⟨h.status, h.callBack⟩, senddataSend, if_neg (by omega), Wire.send]
  simp only [h.conn, if_pos hroom, htake]
  rfl

/-- A failed `send` gives nothing to the connection. -/
theorem senddataStep_failed {x : Wire} {i : SlotIx} {c : Nat} (h : Sending x i c) {len : Int}
    (hlen : len ≤ 0) : senddataStep i x len = some ⟨senddata x.server i len, x.given⟩ := by
  rw [senddataStep, if_pos ⟨h.status, h.callBack⟩, senddataSend]
  rcases Int.lt_or_eq_of_le hlen with hneg | rfl
  · rw [if_pos hneg]
    rfl
  · rw [if_neg (by decide), Wire.send]
    simp [h.conn]

theorem senddataStep_released {x : Wire} {i : SlotIx} (h : (x.server.epEvents i).mStatus = 0)
    (len : Int) : senddataStep i x len = none := by
  rw [senddataStep, if_neg]
  rw [h]
  exact fun hs => absurd hs.1 (by decide)

theorem Sending.step_isSome_iff {x : Wire} {i : SlotIx} {c : Nat} (h : Sending x i c) (len : Int) :
    (senddataStep i x len).isSome = true ↔
      len ≤ (x.server.epEvents i).mSndBufLen - (x.server.epEvents i).mSntBufLen := by
  have hlt := h.lt
  constructor
  · intro hsome
    by_contra hmore
    have hlen := h.length_sndBytes
    have hroom : ¬ len.toNat ≤ (sndBytes (x.server.epEvents i)).length := by omega
    rw [senddataStep, if_pos ⟨h.status, h.callBack⟩, senddataSend, if_neg (by omega),
      Wire.send] at hsome
    simp only [h.conn, if_neg hroom] at hsome
    cases hsome
  · intro hle
    by_cases hpos : 0 < len
    · rw [senddataStep_taken h hpos hle]
      rfl
    · rw [senddataStep_failed h (Int.not_lt.mp hpos)]
      rfl

theorem Sending.advance {x : Wire} {i : SlotIx} {c : Nat} (h : Sending x i c) {snt : Int}
    (hge : (x.server.epEvents i).mSntBufLen ≤ snt) (hlt : snt < (x.server.epEvents i).mSndBufLen)
    (given : Nat → List UInt8) : Sending ⟨x.server.advance i snt, given⟩ i c := by
  have hnonneg := h.nonneg
  constructor
  · simpa using h.status
  · simpa using h.callBack
  · simpa using h.conn
  · simpa using h.registered
  · simp only [Server.advance_slot]
    omega
  · simpa using hlt
  · simpa using h.le

theorem Delivered.sending {x y : Wire} {i : SlotIx} {c : Nat} {rs : List Int} {snt : Int}
    (h : Sending x i c) (hxy : Delivered x y i c rs snt)
    (hopen : ¬ Finished (x.server.epEvents i) snt rs) : Sending y i c := by
  have hne : snt ≠ (x.server.epEvents i).mSndBufLen := fun hall => hopen (.inl hall)
  have hlt : snt < (x.server.epEvents i).mSndBufLen := Int.lt_iff_le_and_ne.mpr ⟨hxy.le, hne⟩
  obtain ⟨server, given⟩ := y
  obtain rfl : server = x.server.advance i snt := hxy.unfinished hopen
  exact h.advance hxy.ge hlt given

/-- One callback delivers what its `send` takes. -/
theorem delivered_step {x y : Wire} {i : SlotIx} {c : Nat} (h : Sending x i c) {len : Int}
    (hs : senddataStep i x len = some y) : ∃ snt, Delivered x y i c [len] snt := by
  have hlt := h.lt
  have hle := (h.step_isSome_iff len).mp (Option.isSome_of_eq_some hs)
  by_cases hpos : 0 < len
  · rw [senddataStep_taken h hpos hle, senddata_taken h.status hpos] at hs
    cases hs
    have hover : Finished (x.server.epEvents i) ((x.server.epEvents i).mSntBufLen + len) [len] ↔
        (x.server.epEvents i).mSntBufLen + len = (x.server.epEvents i).mSndBufLen := by
      refine ⟨fun hf => hf.resolve_right ?_, .inl⟩
      rintro ⟨r, hr, hneg⟩
      rw [List.mem_singleton.mp hr] at hneg
      omega
    have hcount : (x.server.epEvents i).mSntBufLen + len - (x.server.epEvents i).mSntBufLen =
        len := by omega
    refine ⟨(x.server.epEvents i).mSntBufLen + len, by omega, by omega, ?_, fun hf => ?_,
      fun hf => ?_⟩
    · rw [hcount]
    · exact if_neg (mt hover.mpr hf)
    · exact if_pos (hover.mp hf)
  · have hlen := Int.not_lt.mp hpos
    have hfail : Finished (x.server.epEvents i) (x.server.epEvents i).mSntBufLen [len] :=
      .inr ⟨len, List.mem_singleton.mpr rfl, hlen⟩
    rw [senddataStep_failed h hlen, senddata_failed h.status hlen] at hs
    cases hs
    refine ⟨(x.server.epEvents i).mSntBufLen, Int.le_refl _, Int.le_of_lt hlt, ?_,
      fun hf => absurd hfail hf, fun _ => rfl⟩
    simp

/-! ## All callbacks -/

/-- The ranges of two runs lie side by side. -/
theorem Delivered.trans {x y z : Wire} {i : SlotIx} {c : Nat} {r : Int} {rs : List Int}
    {snt snt' : Int} (h : Sending x i c) (hxy : Delivered x y i c [r] snt)
    (hopen : ¬ Finished (x.server.epEvents i) snt [r]) (hyz : Delivered y z i c rs snt') :
    Delivered x z i c (r :: rs) snt' := by
  have hserver := hxy.unfinished hopen
  have hslot : y.server.epEvents i = { x.server.epEvents i with mSntBufLen := snt } := by
    rw [hserver, Server.advance_slot]
  have hge := hxy.ge
  have hnonneg := h.nonneg
  have hpos : ¬ r ≤ 0 := fun hr => hopen (.inr ⟨r, List.mem_singleton.mpr rfl, hr⟩)
  have hover : Finished (x.server.epEvents i) snt' (r :: rs) ↔
      Finished (y.server.epEvents i) snt' rs := by
    simp [Finished, hslot, hpos]
  obtain ⟨hge', hle', hgiven, hgo, hend⟩ := hyz
  rw [hslot] at hge' hle' hgiven
  simp only at hge' hle' hgiven
  refine ⟨by omega, hle', ?_, fun hf => ?_, fun hf => ?_⟩
  · have hcount : (snt' - (x.server.epEvents i).mSntBufLen).toNat =
        (snt - (x.server.epEvents i).mSntBufLen).toNat + (snt' - snt).toNat := by omega
    have hoff : snt.toNat = (x.server.epEvents i).mSntBufLen.toNat +
        (snt - (x.server.epEvents i).mSntBufLen).toNat := by omega
    rw [hgiven, hxy.given, hcount, load_add, ← hoff, Function.update_self, Function.update_idem,
      List.append_assoc]
  · rw [hgo (mt hover.mpr hf), hserver, Server.advance_advance]
  · rw [hend (hover.mp hf), hserver, Server.advance_release]

theorem delivered_run {x y : Wire} {i : SlotIx} {c : Nat} {rs : List Int} (h : Sending x i c)
    (hr : Transition.run (senddataStep i) x rs = some y) : ∃ snt, Delivered x y i c rs snt := by
  induction rs generalizing x with
  | nil =>
    obtain rfl : x = y := Option.some.inj hr
    have hlt := h.lt
    have hopen : ¬ Finished (x.server.epEvents i) (x.server.epEvents i).mSntBufLen [] := by
      rintro (hall | ⟨r, hr, -⟩)
      · omega
      · cases hr
    refine ⟨(x.server.epEvents i).mSntBufLen, Int.le_refl _, Int.le_of_lt hlt, ?_, fun _ => ?_,
      fun hf => absurd hf hopen⟩
    · simp
    · exact (Server.setSlot_self _ _).symm
  | cons r rs ih =>
    obtain ⟨u, hu, hrest⟩ := Transition.run_cons_eq_some.mp hr
    obtain ⟨snt, hstep⟩ := delivered_step h hu
    by_cases hf : Finished (x.server.epEvents i) snt [r]
    · -- a released slot is not called again
      have hstatus : (u.server.epEvents i).mStatus = 0 := by
        rw [hstep.finished hf, Server.release_slot]
      cases rs with
      | nil =>
        cases hrest
        exact ⟨snt, hstep⟩
      | cons r' rs =>
        obtain ⟨v, hv, -⟩ := Transition.run_cons_eq_some.mp hrest
        rw [senddataStep_released hstatus] at hv
        cases hv
    · obtain ⟨snt', hrun⟩ := ih (hstep.sending h hf) hrest
      exact ⟨snt', hstep.trans h hf hrun⟩

/-- Whatever the results of its calls of `send` are, `senddata` delivers the bytes from the
first `m_snt_buf_len` on, each once. It closes the descriptor and releases the slot together
when all are sent or a `send` fails; until then, and only then, it is called again, and `send`
may take any part of what is left. -/
theorem senddata_delivers {x y : Wire} {i : SlotIx} {c : Nat} {rs : List Int} (h : Sending x i c)
    (hr : Transition.run (senddataStep i) x rs = some y) :
    ∃ snt, Delivered x y i c rs snt ∧ ∀ r, (senddataStep i y r).isSome = true ↔
      ¬ Finished (x.server.epEvents i) snt rs ∧ r ≤ (x.server.epEvents i).mSndBufLen - snt := by
  obtain ⟨snt, hxy⟩ := delivered_run h hr
  refine ⟨snt, hxy, fun r => ?_⟩
  by_cases hf : Finished (x.server.epEvents i) snt rs
  · have hstatus : (y.server.epEvents i).mStatus = 0 := by
      rw [hxy.finished hf, Server.release_slot]
    rw [senddataStep_released hstatus]
    exact iff_of_false Bool.false_ne_true fun hc => hc.1 hf
  · have hslot : y.server.epEvents i = { x.server.epEvents i with mSntBufLen := snt } := by
      rw [hxy.unfinished hf, Server.advance_slot]
    rw [(hxy.sending h hf).step_isSome_iff, hslot]
    exact (and_iff_right hf).symm

/-- Three bytes in slot 0 for the connection on descriptor 5. -/
def answering : Wire where
  server :=
    { epEvents := fun _ => { MyEvents.zero with
        mFd := 5, mEvent := EPOLLOUT, mStatus := 1, callBack := some .senddata,
        mSndBuf := fun k => if k < 3 then 65 else 0, mSndBufLen := 3 }
      kernel := ⟨fun d => if d = 5 then some (.conn 0) else none,
        fun d => if d = 5 then some ⟨0, EPOLLOUT⟩ else none, 1, []⟩
      tasks := [] }
  given := fun _ => []

/-- The three bytes in two parts. -/
theorem senddata_delivers_parts :
    ∃ y snt, Transition.run (senddataStep 0) answering [2, 1] = some y ∧
      Delivered answering y 0 0 [2, 1] snt := by
  have hstart : Sending answering 0 0 :=
    ⟨rfl, rfl, rfl, ⟨_, rfl⟩, by decide, by decide, by decide⟩
  have hrun : Transition.run (senddataStep 0) answering [2, 1] = some _ := rfl
  obtain ⟨snt, hxy, -⟩ := senddata_delivers hstart hrun
  exact ⟨_, snt, hrun, hxy⟩

end Netepoll
