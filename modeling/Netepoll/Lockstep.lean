import Mathlib.Algebra.GroupWithZero.Nat
import Netepoll.Reassembly
import Netepoll.Statements

/-! One connection with a lock-step client, the server statement by statement. The reply
leaves the server before `m_rcv_buf_len = 0`, so the next request can come in between.
Runs in which `recv` keeps out of that gap echo every frame once, in order, byte for
byte; a `recv` in the gap can end with the connection closed. -/

namespace Netepoll

/-- The server, the bytes under way to it, and the client: what it has read, what it has
still to write of its frame, the frames it has begun and those to come. -/
structure Dialogue where
  fine : Fine
  wire : List UInt8
  echo : List UInt8
  rest : List UInt8
  begun : List (List UInt8)
  todo : List (List UInt8)

inductive Move where
  /-- the client turns to its next frame -/
  | nextFrame
  | write (n : Nat)
  /-- `recv` in the event loop, which finds `n` bytes -/
  | recv (n : Nat)
  /-- the next statement of `recvdata` -/
  | loop
  | mytask (n : Nat)
  deriving DecidableEq

/-- What `recv` returns for the bytes it takes. Room for none reads as the end. -/
def recvOutcome (room : Nat) (bytes : List UInt8) : Option RecvResult :=
  if bytes = [] then if room = 0 then some .peerClosed else none else some (.data bytes)

/-- What the next statement of the `n`-th task sends on connection `c`. -/
def sentBy (s : Server) (c n : Nat) : List UInt8 :=
  match s.tasks[n]? with
  | none => []
  | some t =>
    if t.phase = .taken ∧ s.kernel.fds (s.epEvents t.arg).mFd = some (.conn c) then
      rcvBytes (s.epEvents t.arg)
    else []

def dialogueStep (b : Boot) (i : SlotIx) (c : Nat) (x : Dialogue) : Move → Option Dialogue
  | .nextFrame =>
    match x.todo with
    | [] => none
    | f :: todo =>
      -- all of the last frame is written and echoed
      if x.rest = [] ∧ x.begun.flatten.length ≤ x.echo.length then
        some { x with rest := f, begun := x.begun ++ [f], todo := todo }
      else none
  | .write n =>
    if x.rest = [] ∨ n = 0 then none
    else some { x with wire := x.wire ++ x.rest.take n, rest := x.rest.drop n }
  | .recv n =>
    if x.wire = [] then none
    else
      (recvOutcome (recvRoom (x.fine.server.epEvents i)) (x.wire.take n)).bind fun r =>
        (fineStep b x.fine (.recv i r)).map fun f => { x with fine := f, wire := x.wire.drop n }
  | .loop => (fineStep b x.fine (.loop true)).map fun f => { x with fine := f }
  | .mytask n =>
    (fineStep b x.fine (.mytask n)).map fun f =>
      { x with fine := f, echo := x.echo ++ sentBy x.fine.server c n }

def Dialogue.start (s : Server) (frames : List (List UInt8)) : Dialogue :=
  ⟨⟨s, .idle⟩, [], [], [], [], frames⟩

/-- `recv` does not run between the `send` of a task and its `m_rcv_buf_len = 0`. -/
def Unraced (x : Dialogue) : Move → Prop
  | .recv _ => ∀ t ∈ x.fine.server.tasks, t.phase ≠ .sent
  | _ => True

instance Unraced.decidable (x : Dialogue) : (m : Move) → Decidable (Unraced x m)
  | .recv _ => inferInstanceAs (Decidable (∀ t ∈ x.fine.server.tasks, t.phase ≠ .sent))
  | .nextFrame => isTrue trivial
  | .write _ => isTrue trivial
  | .loop => isTrue trivial
  | .mytask _ => isTrue trivial

/-! ## The invariant -/

/-- A well-formed frame of at most 127 bytes of payload. -/
def Short (f : List UInt8) : Prop := ∃ p : List UInt8, p.length ≤ 127 ∧ f = frameOf p

theorem Short.ne_nil {f : List UInt8} (h : Short f) : f ≠ [] := by
  obtain ⟨p, -, rfl⟩ := h
  exact List.cons_ne_nil _ _

/-- What every step leaves as it is. -/
structure Base (x : Dialogue) (i : SlotIx) (c : Nat) (k : Kernel)
    (frames : List (List UInt8)) : Prop where
  kernel : x.fine.server.kernel = k
  live : Live (x.fine.server.epEvents i)
  handle : k.fds (x.fine.server.epEvents i).mFd = some (.conn c)
  mine : ∀ t ∈ x.fine.server.tasks, t.arg = i
  script : x.begun ++ x.todo = frames
  short : ∀ f ∈ frames, Short f

/-- The slot once the bytes that were stored are counted. -/
def afterLen : LoopPc → MyEvents → MyEvents
  | .received _ n, ev => addLen ev n
  | _, ev => ev

/-- What the event loop knows at each statement, with `got` of the frame `whole` in the
slot. -/
def PcOk (i : SlotIx) (ev : MyEvents) (got whole : List UInt8) : LoopPc → Prop
  | .idle => got = whole → whole = []
  | .received j n => j = i ∧ got ≠ [] ∧ 0 < n
  | .counted j => j = i ∧ got ≠ []
  | .header j len =>
    j = i ∧ got ≠ [] ∧ len = headerLen (ev.mRcvBuf 0) (ev.mRcvBuf 1)
  | .unequal j len =>
    j = i ∧ got ≠ [] ∧ len = headerLen (ev.mRcvBuf 0) (ev.mRcvBuf 1) ∧ len ≠ ev.mRcvBufLen - 2
  | .tested j ret => j = i ∧ got ≠ [] ∧ ret = testpacket ev

/-- A round of the dialogue. The frames `done` are echoed; `old` are tasks that have only
their last reset to do, which is harmless while the first byte of the slot is 0. -/
inductive Stage (x : Dialogue) (i : SlotIx) : Prop
  /-- the server is receiving the frame `cur`, or the client has none -/
  | collecting (done : List (List UInt8)) (cur : Option (List UInt8)) (got : List UInt8) :
      x.begun = done ++ cur.toList → x.echo = done.flatten →
      got ++ (x.wire ++ x.rest) = cur.getD [] →
      Buffered (afterLen x.fine.pc (x.fine.server.epEvents i)) got →
      PcOk i (x.fine.server.epEvents i) got (cur.getD []) x.fine.pc →
      (∀ t ∈ x.fine.server.tasks, t.phase = .lenCleared) → Stage x i
  /-- the frame `f` is queued -/
  | waiting (done : List (List UInt8)) (f : List UInt8) (old : List Task) (t : Task) :
      x.begun = done ++ [f] → x.echo = done.flatten → x.wire = [] → x.rest = [] →
      x.fine.pc = .idle → Buffered (x.fine.server.epEvents i) f →
      x.fine.server.tasks = old ++ [t] → (∀ u ∈ old, u.phase = .lenCleared) → t.Unsent →
      Stage x i
  /-- the frame `f` is sent back and the slot not yet reset -/
  | answered (done : List (List UInt8)) (f : List UInt8) (cur : Option (List UInt8))
      (old : List Task) (t : Task) :
      x.begun = done ++ f :: cur.toList → x.echo = (done ++ [f]).flatten →
      x.wire ++ x.rest = cur.getD [] →
      x.fine.pc = .idle → Buffered (x.fine.server.epEvents i) f →
      x.fine.server.tasks = old ++ [t] → (∀ u ∈ old, u.phase = .lenCleared) →
      t.phase = .sent → Stage x i

/-- A slot that holds the beginning of a short frame starts with a 0. -/
theorem head_zero {ev : MyEvents} {got rest f : List UInt8} (h : Buffered ev got)
    (hf : Short f) (hg : got ++ rest = f) : ev.mRcvBuf 0 = 0 := by
  obtain ⟨p, hp, rfl⟩ := hf
  cases got with
  | nil => exact h.head rfl
  | cons a got =>
    have ha : ev.mRcvBuf 0 = a := h.get (by simp)
    obtain ⟨rfl, -⟩ := List.cons.inj hg
    have hz : p.length / 256 = 0 := by omega
    rw [ha, hz]
    rfl

/-- A slot that holds the beginning of a short frame has room for more. -/
theorem room_pos {ev : MyEvents} {got rest f : List UInt8} (h : Buffered ev got)
    (hf : Short f) (hg : got ++ rest = f) : 0 < recvRoom ev := by
  obtain ⟨p, hp, rfl⟩ := hf
  have hlen := congrArg List.length hg
  rw [List.length_append, frameOf_length] at hlen
  have hl := h.len
  have : (recvRoom ev : Int) = _ := recvRoom_eq (by omega) (by simp only [BUFSIZ]; omega)
  simp only [BUFSIZ] at this
  omega

/-- After the first reset the slot is ready for the next frame, before the second. -/
theorem buffered_clearLen {ev : MyEvents} {f : List UInt8} (h : Buffered ev f) (hf : Short f) :
    Buffered (clearLen ev) [] := by
  have hz := head_zero h hf (List.append_nil f)
  obtain ⟨p, hp, rfl⟩ := hf
  have hl : ev.mRcvBuf 1 = UInt8.ofNat (p.length % 256) := h.get (k := 1) (by simp)
  refine ⟨rfl, rfl, fun _ => hz, fun _ => ?_⟩
  rw [clearLen_mRcvBuf, hl, UInt8.toNat_ofNat']
  omega

theorem Base.short_begun {x : Dialogue} {i : SlotIx} {c : Nat} {k : Kernel}
    {frames : List (List UInt8)} (h : Base x i c k frames) {f : List UInt8}
    (hf : f ∈ x.begun) : Short f :=
  h.short f (by rw [← h.script]; exact List.mem_append_left _ hf)

section Step

variable {b : Boot} {x x' : Dialogue} {i : SlotIx} {c : Nat} {k : Kernel}
  {frames : List (List UInt8)}

/-- While a frame is collected the first byte of the slot is 0. -/
theorem collecting_head (hb : Base x i c k frames) {done : List (List UInt8)}
    {cur : Option (List UInt8)} {got : List UInt8} (hbegun : x.begun = done ++ cur.toList)
    (hstream : got ++ (x.wire ++ x.rest) = cur.getD [])
    (hbuf : Buffered (afterLen x.fine.pc (x.fine.server.epEvents i)) got) :
    (x.fine.server.epEvents i).mRcvBuf 0 = 0 := by
  have hsame : (afterLen x.fine.pc (x.fine.server.epEvents i)).mRcvBuf =
      (x.fine.server.epEvents i).mRcvBuf := by
    cases x.fine.pc <;> rfl
  rw [← hsame]
  cases cur with
  | none =>
    refine hbuf.head ?_
    exact (List.append_eq_nil_iff.mp hstream).1
  | some f => exact head_zero hbuf (hb.short_begun (by simp [hbegun])) hstream

/-! ## The client -/

theorem nextFrame_cases (hs : dialogueStep b i c x .nextFrame = some x') :
    ∃ f todo, x.todo = f :: todo ∧ x.rest = [] ∧
      x.begun.flatten.length ≤ x.echo.length ∧
      x' = { x with rest := f, begun := x.begun ++ [f], todo := todo } := by
  simp only [dialogueStep] at hs
  cases ht : x.todo with
  | nil => simp [ht] at hs
  | cons f todo =>
    simp only [ht] at hs
    split at hs
    · rename_i hc
      exact ⟨f, todo, rfl, hc.1, hc.2, (Option.some.inj hs).symm⟩
    · cases hs

/-- A client that has got all the bytes it sent has begun no frame that is not echoed. -/
theorem nothing_pending (hb : Base x i c k frames) {done pending : List (List UInt8)}
    (hbegun : x.begun = done ++ pending) (hecho : x.echo = done.flatten)
    (hlen : x.begun.flatten.length ≤ x.echo.length) : pending = [] := by
  cases pending with
  | nil => rfl
  | cons g gs =>
    have hg : 0 < g.length := List.length_pos_iff.mpr (hb.short_begun (by simp [hbegun])).ne_nil
    rw [hbegun, hecho, List.flatten_append, List.flatten_cons] at hlen
    simp only [List.length_append] at hlen
    omega

/-- With nothing of a frame in the slot, no statement of `recvdata` is due. -/
theorem PcOk.idle_of_nil {ev : MyEvents} {whole : List UInt8} {pc : LoopPc}
    (h : PcOk i ev [] whole pc) : pc = .idle := by
  cases pc with
  | idle => rfl
  | received j n => exact absurd rfl h.2.1
  | counted j => exact absurd rfl h.2
  | header j n => exact absurd rfl h.2.1
  | unequal j n => exact absurd rfl h.2.1
  | tested j r => exact absurd rfl h.2.1

theorem stage_nextFrame (hb : Base x i c k frames) (h : Stage x i)
    (hs : dialogueStep b i c x .nextFrame = some x') :
    Base x' i c k frames ∧ Stage x' i := by
  obtain ⟨f, todo, htodo, hrest, hlen, rfl⟩ := nextFrame_cases hs
  have hscript : (x.begun ++ [f]) ++ todo = frames := by
    rw [← hb.script, htodo]
    simp
  have hf : Short f := hb.short f (by simp [← hscript])
  refine ⟨⟨hb.kernel, hb.live, hb.handle, hb.mine, hscript, hb.short⟩, ?_⟩
  cases h with
  | collecting done cur got hbegun hecho hstream hbuf hpc htasks =>
    have hcur := nothing_pending hb hbegun hecho hlen
    rw [Option.toList_eq_nil_iff] at hcur
    subst hcur
    obtain ⟨rfl, hwr⟩ := List.append_eq_nil_iff.mp hstream
    obtain ⟨hwire, -⟩ := List.append_eq_nil_iff.mp hwr
    refine .collecting done (some f) [] ?_ hecho ?_ hbuf ?_ htasks
    · simp [hbegun]
    · simp [hwire]
    · rw [hpc.idle_of_nil]
      exact fun e => absurd e.symm hf.ne_nil
  | waiting done g old t hbegun hecho =>
    cases nothing_pending hb hbegun hecho hlen
  | answered done g cur old t hbegun hecho hstream hpc hbuf htasks hold ht =>
    have hbegun' : x.begun = (done ++ [g]) ++ cur.toList := by simp [hbegun]
    have hcur := nothing_pending hb hbegun' hecho hlen
    rw [Option.toList_eq_nil_iff] at hcur
    subst hcur
    obtain ⟨hwire, -⟩ := List.append_eq_nil_iff.mp hstream
    refine .answered done g (some f) old t ?_ hecho ?_ hpc hbuf htasks hold ht
    · simp [hbegun]
    · simp [hwire]

theorem stage_write {n : Nat} (hb : Base x i c k frames) (h : Stage x i)
    (hs : dialogueStep b i c x (.write n) = some x') : Base x' i c k frames ∧ Stage x' i := by
  simp only [dialogueStep] at hs
  split at hs
  · cases hs
  · rename_i hc
    cases hs
    refine ⟨⟨hb.kernel, hb.live, hb.handle, hb.mine, hb.script, hb.short⟩, ?_⟩
    have hbytes : (x.wire ++ x.rest.take n) ++ x.rest.drop n = x.wire ++ x.rest := by
      rw [List.append_assoc, List.take_append_drop]
    cases h with
    | collecting done cur got hbegun hecho hstream hbuf hpc htasks =>
      exact .collecting done cur got hbegun hecho (by rw [hbytes]; exact hstream) hbuf hpc htasks
    | waiting done g old t hbegun hecho hwire hrest =>
      exact absurd (Or.inl hrest) hc
    | answered done g cur old t hbegun hecho hstream hpc hbuf htasks hold ht =>
      exact .answered done g cur old t hbegun hecho (by rw [hbytes]; exact hstream) hpc hbuf
        htasks hold ht

/-! ## The event loop -/

/-- A `recv` outside the gap finds an idle loop and a slot with room. -/
theorem recv_cases {n : Nat} (hb : Base x i c k frames) (h : Stage x i)
    (hu : Unraced x (.recv n)) (hs : dialogueStep b i c x (.recv n) = some x') :
    ∃ done f got bs, x.begun = done ++ [f] ∧ x.echo = done.flatten ∧
      got ++ (x.wire ++ x.rest) = f ∧ x.fine.pc = .idle ∧
      Buffered (x.fine.server.epEvents i) got ∧
      (∀ t ∈ x.fine.server.tasks, t.phase = .lenCleared) ∧ bs = x.wire.take n ∧ bs ≠ [] ∧
      x' = { x with
        fine := ⟨x.fine.server.setSlot i (recvStore (x.fine.server.epEvents i) bs),
          .received i bs.length⟩
        wire := x.wire.drop n } := by
  simp only [dialogueStep] at hs
  split at hs
  · cases hs
  · rename_i hwire
    obtain ⟨r, hr, hs⟩ := Option.bind_eq_some_iff.mp hs
    obtain ⟨fine, hfine, rfl⟩ := Option.map_eq_some_iff.mp hs
    simp only [fineStep] at hfine
    split at hfine
    · rename_i hc
      cases h with
      | collecting done cur got hbegun hecho hstream hbuf hpc htasks =>
        rw [hc.1] at hbuf
        cases cur with
        | none =>
          have := (List.append_eq_nil_iff.mp (List.append_eq_nil_iff.mp hstream).2).1
          exact absurd this hwire
        | some f =>
          have hroom : 0 < recvRoom (x.fine.server.epEvents i) :=
            room_pos hbuf (hb.short_begun (by simp [hbegun])) hstream
          have hbs : x.wire.take n ≠ [] := by
            intro e
            rw [recvOutcome, if_pos e, if_neg (by omega)] at hr
            cases hr
          rw [recvOutcome, if_neg hbs, Option.some.injEq] at hr
          subst hr
          simp only [recvStatement] at hfine
          split at hfine
          · cases hfine
          · cases hfine
            exact ⟨done, f, got, _, hbegun, hecho, hstream, hc.1, hbuf, htasks, rfl, hbs, rfl⟩
      | waiting done g old t hbegun hecho hw => exact absurd hw hwire
      | answered done g cur old t _ _ _ _ _ htasks _ ht =>
        exact absurd ht (hu t (by simp [htasks]))
    · cases hfine

theorem stage_recv {n : Nat} (hb : Base x i c k frames) (h : Stage x i)
    (hu : Unraced x (.recv n)) (hs : dialogueStep b i c x (.recv n) = some x') :
    Base x' i c k frames ∧ Stage x' i := by
  obtain ⟨done, f, got, bs, hbegun, hecho, hstream, hidle, hbuf, htasks, hbs, hne, rfl⟩ :=
    recv_cases hb h hu hs
  have hwiring : SameWiring (x.fine.server.epEvents i)
    (recvStore (x.fine.server.epEvents i) bs) := ⟨rfl, rfl, rfl, rfl, rfl⟩
  refine ⟨⟨hb.kernel, ?_, ?_, hb.mine, hb.script, hb.short⟩, ?_⟩
  · simpa using hb.live.congr hwiring
  · simpa [hwiring.1] using hb.handle
  · refine .collecting done (some f) (got ++ bs) (by simpa using hbegun) hecho ?_ ?_ ?_ htasks
    · have htake : bs ++ x.wire.drop n = x.wire := by rw [hbs, List.take_append_drop]
      calc (got ++ bs) ++ (x.wire.drop n ++ x.rest)
          = got ++ ((bs ++ x.wire.drop n) ++ x.rest) := by simp only [List.append_assoc]
        _ = f := by rw [htake, hstream]
    · simp only [afterLen, Server.setSlot_epEvents, Function.update_self]
      exact hbuf.received bs
    · exact ⟨rfl, by simp [hne], List.length_pos_iff.mpr hne⟩

/-- A statement that changes neither the slot nor the tasks. -/
theorem stage_keep (hb : Base x i c k frames) {done : List (List UInt8)}
    {cur : Option (List UInt8)} {got : List UInt8} (hbegun : x.begun = done ++ cur.toList)
    (hecho : x.echo = done.flatten) (hstream : got ++ (x.wire ++ x.rest) = cur.getD [])
    (hbuf : Buffered (afterLen x.fine.pc (x.fine.server.epEvents i)) got)
    (htasks : ∀ t ∈ x.fine.server.tasks, t.phase = .lenCleared) (pc : LoopPc)
    (hafter : afterLen pc (x.fine.server.epEvents i) =
      afterLen x.fine.pc (x.fine.server.epEvents i))
    (hok : PcOk i (x.fine.server.epEvents i) got (cur.getD []) pc) :
    Base { x with fine := ⟨x.fine.server, pc⟩ } i c k frames ∧
      Stage { x with fine := ⟨x.fine.server, pc⟩ } i :=
  ⟨⟨hb.kernel, hb.live, hb.handle, hb.mine, hb.script, hb.short⟩,
    .collecting done cur got hbegun hecho hstream (by rw [hafter]; exact hbuf) hok htasks⟩

/-- What `recvdata` does with the verdict: a whole frame is queued, a part is left. -/
theorem stage_tested (hb : Base x i c k frames) {done : List (List UInt8)}
    {cur : Option (List UInt8)} {got : List UInt8} (hbegun : x.begun = done ++ cur.toList)
    (hecho : x.echo = done.flatten) (hstream : got ++ (x.wire ++ x.rest) = cur.getD [])
    (hp : x.fine.pc = .tested i (testpacket (x.fine.server.epEvents i)))
    (hbuf : Buffered (x.fine.server.epEvents i) got) (hgot : got ≠ [])
    (htasks : ∀ t ∈ x.fine.server.tasks, t.phase = .lenCleared) {s : Server}
    (hs : s = recvdataBranch x.fine.server (x.fine.server.epEvents i).mFd i
      (testpacket (x.fine.server.epEvents i)) true) :
    Base { x with fine := ⟨s, .idle⟩ } i c k frames ∧ Stage { x with fine := ⟨s, .idle⟩ } i := by
  subst hs
  cases cur with
  | none => exact absurd (List.append_eq_nil_iff.mp hstream).1 hgot
  | some f =>
    obtain ⟨p, hp127, hf⟩ := hb.short_begun (f := f) (by simp [hbegun])
    have hframe : got ++ (x.wire ++ x.rest) = frameOf p := hstream.trans hf
    have hverdict := hbuf.verdict_frame (by omega) (by omega) hframe
    by_cases hrest : x.wire ++ x.rest = []
    · -- the last byte is there
      obtain ⟨hwire, hwritten⟩ := List.append_eq_nil_iff.mp hrest
      rw [if_pos hrest] at hverdict
      rw [hrest, List.append_nil, Option.getD_some] at hstream
      rw [hverdict]
      simp only [recvdataBranch, if_true]
      refine ⟨⟨hb.kernel, hb.live, hb.handle, fun t ht => ?_, hb.script, hb.short⟩, ?_⟩
      · rcases List.mem_append.mp ht with ht | ht
        · exact hb.mine t ht
        · rw [List.mem_singleton] at ht
          rw [ht]
          rfl
      · exact .waiting done f x.fine.server.tasks _ hbegun hecho hwire hwritten rfl
          (hstream ▸ hbuf) rfl htasks (Or.inl rfl)
    · rw [if_neg hrest] at hverdict
      rw [hverdict]
      refine stage_keep hb hbegun hecho hstream (by rw [hp]; exact hbuf) htasks .idle
        (by rw [hp]; rfl) fun e => ?_
      rw [e] at hstream
      exact absurd (List.append_right_eq_self.mp hstream) hrest

/-- A statement of `recvdata` is only due while a frame is collected. -/
theorem stage_loop (hb : Base x i c k frames) (h : Stage x i)
    (hs : dialogueStep b i c x .loop = some x') : Base x' i c k frames ∧ Stage x' i := by
  obtain ⟨fine, hfine, rfl⟩ := Option.map_eq_some_iff.mp hs
  simp only [fineStep] at hfine
  cases h with
  | collecting done cur got hbegun hecho hstream hbuf hpc htasks =>
    have hkeep := stage_keep hb hbegun hecho hstream hbuf htasks
    cases hp : x.fine.pc with
    | idle => simp [hp, loopStatement] at hfine
    | received j n =>
      simp only [hp, loopStatement, Option.some.injEq] at hfine
      subst hfine
      simp only [hp, PcOk, afterLen] at hpc hbuf
      obtain ⟨rfl, hgot, -⟩ := hpc
      have hwiring : SameWiring (x.fine.server.epEvents j)
        (addLen (x.fine.server.epEvents j) n) := ⟨rfl, rfl, rfl, rfl, rfl⟩
      refine ⟨⟨hb.kernel, ?_, ?_, hb.mine, hb.script, hb.short⟩, ?_⟩
      · simpa using hb.live.congr hwiring
      · simpa [hwiring.1] using hb.handle
      · refine .collecting done cur got hbegun hecho hstream ?_ ⟨rfl, hgot⟩ htasks
        simpa [afterLen] using hbuf
    | counted j =>
      simp only [hp, loopStatement, Option.some.injEq] at hfine
      subst hfine
      simp only [hp, PcOk] at hpc
      obtain ⟨rfl, hgot⟩ := hpc
      exact hkeep _ (by rw [hp]; rfl) ⟨rfl, hgot, rfl⟩
    | header j len =>
      simp only [hp, loopStatement] at hfine
      simp only [hp, PcOk] at hpc
      obtain ⟨rfl, hgot, hlen⟩ := hpc
      split at hfine
      · rename_i heq
        cases hfine
        refine hkeep _ (by rw [hp]; rfl) ⟨rfl, hgot, ?_⟩
        rw [testpacket_eq, ← hlen, eq_comm, verdict_complete]
        exact heq
      · rename_i hne
        cases hfine
        exact hkeep _ (by rw [hp]; rfl) ⟨rfl, hgot, hlen, hne⟩
    | unequal j len =>
      simp only [hp, loopStatement] at hfine
      simp only [hp, PcOk] at hpc
      obtain ⟨rfl, hgot, hlen, hne⟩ := hpc
      split at hfine
      · rename_i hlt
        cases hfine
        refine hkeep _ (by rw [hp]; rfl) ⟨rfl, hgot, ?_⟩
        rw [testpacket_eq, ← hlen, eq_comm, verdict_error]
        exact hlt
      · rename_i hge
        cases hfine
        refine hkeep _ (by rw [hp]; rfl) ⟨rfl, hgot, ?_⟩
        rw [testpacket_eq, ← hlen, eq_comm, verdict_continue]
        omega
    | tested j ret =>
      simp only [hp, loopStatement, Option.some.injEq] at hfine
      subst hfine
      simp only [hp, PcOk, afterLen] at hpc hbuf
      obtain ⟨rfl, hgot, rfl⟩ := hpc
      exact stage_tested hb hbegun hecho hstream hp hbuf hgot htasks rfl
  | waiting done g old t _ _ _ _ hpc => simp [hpc, loopStatement] at hfine
  | answered done g cur old t _ _ _ hpc => simp [hpc, loopStatement] at hfine

/-! ## The tasks -/

/-- The last reset of a task, on a slot whose first byte is 0 already. -/
theorem mytask_lenCleared {s s' : Server} {n : Nat} {t : Task} (ht : s.tasks[n]? = some t)
    (hp : t.phase = .lenCleared) (hz : (s.epEvents t.arg).mRcvBuf 0 = 0)
    (hs : mytaskStep s n = some s') : s' = { s with tasks := s.tasks.eraseIdx n } := by
  simp only [mytaskStep, ht, hp, Option.some.injEq] at hs
  rw [← hs, clearHead_eq_self hz, Server.setSlot_self]

/-- Which task of a list with one task after the old ones a step is about. -/
theorem getElem?_snoc {old : List Task} {t u : Task} {n : Nat}
    (h : (old ++ [t])[n]? = some u) :
    (n < old.length ∧ u ∈ old) ∨ (n = old.length ∧ u = t) := by
  rcases Nat.lt_or_ge n old.length with hn | hn
  · rw [List.getElem?_append_left hn] at h
    exact Or.inl ⟨hn, List.mem_of_getElem? h⟩
  · rw [List.getElem?_append_right hn, List.getElem?_singleton] at h
    split at h
    · exact Or.inr ⟨by omega, (Option.some.inj h).symm⟩
    · cases h

theorem sentBy_lenCleared {s : Server} {n : Nat} {t : Task} (ht : s.tasks[n]? = some t)
    (hp : t.phase ≠ .taken) : sentBy s c n = [] := by
  simp [sentBy, ht, hp]

/-- The first byte of the slot is 0 in every round. -/
theorem Stage.first_zero (hb : Base x i c k frames) (h : Stage x i) :
    (x.fine.server.epEvents i).mRcvBuf 0 = 0 := by
  cases h with
  | collecting done cur got hbegun hecho hstream hbuf =>
    exact collecting_head hb hbegun hstream hbuf
  | waiting done f old u hbegun hecho hwire hrest hpc hbuf =>
    exact head_zero hbuf (hb.short_begun (by simp [hbegun])) (List.append_nil f)
  | answered done f cur old u hbegun hecho hstream hpc hbuf =>
    exact head_zero hbuf (hb.short_begun (by simp [hbegun])) (List.append_nil f)

/-- An old task may disappear. -/
theorem Stage.erase (h : Stage x i) {n : Nat} {t : Task} (ht : x.fine.server.tasks[n]? = some t)
    (hp : t.phase = .lenCleared) :
    Stage { x with
      fine := ⟨{ x.fine.server with tasks := x.fine.server.tasks.eraseIdx n }, x.fine.pc⟩ } i := by
  cases h with
  | collecting done cur got hbegun hecho hstream hbuf hpc htasks =>
    exact .collecting done cur got hbegun hecho hstream hbuf hpc fun u hu =>
      htasks u (List.mem_of_mem_eraseIdx hu)
  | waiting done f old u hbegun hecho hwire hrest hpc hbuf htasks hlast hu =>
    rw [htasks] at ht
    rcases getElem?_snoc ht with ⟨hn, -⟩ | ⟨-, rfl⟩
    · refine .waiting done f (old.eraseIdx n) u hbegun hecho hwire hrest hpc hbuf ?_
        (fun v hv => hlast v (List.mem_of_mem_eraseIdx hv)) hu
      simp only [htasks]
      exact List.eraseIdx_append_of_lt_length hn _
    · rcases hu with hu | hu <;> rw [hp] at hu <;> cases hu
  | answered done f cur old u hbegun hecho hstream hpc hbuf htasks hlast hu =>
    rw [htasks] at ht
    rcases getElem?_snoc ht with ⟨hn, -⟩ | ⟨-, rfl⟩
    · refine .answered done f cur (old.eraseIdx n) u hbegun hecho hstream hpc hbuf ?_
        (fun v hv => hlast v (List.mem_of_mem_eraseIdx hv)) hu
      simp only [htasks]
      exact List.eraseIdx_append_of_lt_length hn _
    · rw [hp] at hu
      cases hu

/-- The task of the frame goes on; the old ones stay before it. -/
theorem Base.mine_snoc (hb : Base x i c k frames) {old : List Task} {u v : Task}
    (htasks : x.fine.server.tasks = old ++ [u]) (hv : v.arg = i) : ∀ w ∈ old ++ [v], w.arg = i := by
  intro w hw
  rcases List.mem_append.mp hw with hw | hw
  · exact hb.mine w (by simp [htasks, hw])
  · rw [List.mem_singleton.mp hw]
    exact hv

theorem stage_mytask {n : Nat} (hb : Base x i c k frames) (h : Stage x i)
    (hs : dialogueStep b i c x (.mytask n) = some x') : Base x' i c k frames ∧ Stage x' i := by
  obtain ⟨fine, hfine, rfl⟩ := Option.map_eq_some_iff.mp hs
  obtain ⟨s, hm, rfl⟩ := Option.map_eq_some_iff.mp hfine
  obtain ⟨t, ht, hw⟩ := mytaskStep_cases hm
  have harg : t.arg = i := hb.mine t (List.mem_of_getElem? ht)
  by_cases hp : t.phase = .lenCleared
  · -- an old task disappears, and nothing else happens
    obtain rfl := mytask_lenCleared ht hp (by rw [harg]; exact h.first_zero hb) hm
    rw [sentBy_lenCleared ht (by rw [hp]; exact Phase.noConfusion), List.append_nil]
    exact ⟨⟨hb.kernel, hb.live, hb.handle, fun u hu => hb.mine u (List.mem_of_mem_eraseIdx hu),
      hb.script, hb.short⟩, h.erase ht hp⟩
  cases h with
  | collecting done cur got hbegun hecho hstream hbuf hpc htasks =>
    exact absurd (htasks t (List.mem_of_getElem? ht)) hp
  | waiting done f old u hbegun hecho hwire hrest hpc hbuf htasks hlast hu =>
    rw [htasks] at ht
    rcases getElem?_snoc ht with ⟨-, hmem⟩ | ⟨rfl, rfl⟩
    · exact absurd (hlast t hmem) hp
    have hset (v : Task) : x.fine.server.tasks.set old.length v = old ++ [v] := by simp [htasks]
    cases hw with
    | take hq =>
      rw [hset]
      refine ⟨⟨hb.kernel, hb.live, hb.handle, hb.mine_snoc htasks harg, hb.script, hb.short⟩, ?_⟩
      refine .waiting done f old _ hbegun ?_ hwire hrest hpc hbuf rfl hlast (Or.inr rfl)
      rw [sentBy_lenCleared (by rw [htasks]; exact ht) (by rw [hq]; exact Phase.noConfusion),
        List.append_nil]
      exact hecho
    | send hq =>
      rw [hset]
      have hsent : sentBy x.fine.server c old.length = f := by
        have hfd : x.fine.server.kernel.fds (x.fine.server.epEvents i).mFd =
            some (.conn c) := by rw [hb.kernel]; exact hb.handle
        simp only [sentBy, htasks, ht, hq, harg, hfd, and_self, if_true]
        exact hbuf.bytes
      refine ⟨⟨hb.kernel, hb.live, hb.handle, hb.mine_snoc htasks harg, hb.script, hb.short⟩, ?_⟩
      refine .answered done f none old _ hbegun ?_ ?_ hpc hbuf rfl hlast rfl
      · simp [hsent, hecho]
      · simp [hwire, hrest]
    | clearLen hq => rcases hu with hu | hu <;> rw [hq] at hu <;> cases hu
    | clearHead hq => exact absurd hq hp
  | answered done f cur old u hbegun hecho hstream hpc hbuf htasks hlast hu =>
    have hf : Short f := hb.short_begun (by simp [hbegun])
    rw [htasks] at ht
    rcases getElem?_snoc ht with ⟨-, hmem⟩ | ⟨rfl, rfl⟩
    · exact absurd (hlast t hmem) hp
    cases hw with
    | take hq => rw [hq] at hu; cases hu
    | send hq => rw [hq] at hu; cases hu
    | clearLen hq =>
      subst harg
      have hwiring := sameWiring_clearLen (x.fine.server.epEvents t.arg)
      have hset : x.fine.server.tasks.set old.length { t with phase := .lenCleared } =
          old ++ [{ t with phase := .lenCleared }] := by simp [htasks]
      have hsent : sentBy x.fine.server c old.length = [] :=
        sentBy_lenCleared (by rw [htasks]; exact ht) (by rw [hq]; exact Phase.noConfusion)
      rw [hset]
      refine ⟨⟨hb.kernel, ?_, ?_, hb.mine_snoc htasks rfl, hb.script, hb.short⟩, ?_⟩
      · simpa using hb.live.congr hwiring
      · simpa [hwiring.1] using hb.handle
      · refine .collecting (done ++ [f]) cur [] ?_ ?_ hstream ?_ ?_ fun v hv => ?_
        · simp [hbegun]
        · simp [hsent, hecho]
        · simpa [hpc, afterLen] using buffered_clearLen hbuf hf
        · rw [hpc]
          exact fun e => e.symm
        · rcases List.mem_append.mp hv with hv | hv
          · exact hlast v hv
          · rw [List.mem_singleton.mp hv]
    | clearHead hq => exact absurd hq hp

theorem stage_step {m : Move} (h : Base x i c k frames ∧ Stage x i) (hu : Unraced x m)
    (hs : dialogueStep b i c x m = some x') : Base x' i c k frames ∧ Stage x' i := by
  cases m with
  | nextFrame => exact stage_nextFrame h.1 h.2 hs
  | write n => exact stage_write h.1 h.2 hs
  | recv n => exact stage_recv h.1 h.2 hu hs
  | loop => exact stage_loop h.1 h.2 hs
  | mytask n => exact stage_mytask h.1 h.2 hs

/-! ## Every frame is echoed -/

/-- The echo so far is that of the first frames. -/
theorem Stage.echo_eq (hb : Base x i c k frames) (h : Stage x i) :
    ∃ n, x.echo = (frames.take n).flatten := by
  have hscript := hb.script
  cases h with
  | collecting done cur got hbegun hecho =>
    refine ⟨done.length, ?_⟩
    rw [← hscript, hbegun, hecho]
    simp
  | waiting done f old t hbegun hecho =>
    refine ⟨done.length, ?_⟩
    rw [← hscript, hbegun, hecho]
    simp
  | answered done f cur old t hbegun hecho =>
    refine ⟨(done ++ [f]).length, ?_⟩
    have hsplit : x.begun = (done ++ [f]) ++ cur.toList := by simp [hbegun]
    rw [← hscript, hsplit, hecho, List.append_assoc, List.take_left]

theorem loop_enabled (h : x.fine.pc ≠ .idle) :
    (dialogueStep b i c x .loop).isSome = true := by
  simp only [dialogueStep, fineStep, Option.isSome_map]
  cases hp : x.fine.pc with
  | idle => exact absurd hp h
  | received j n => rfl
  | counted j => rfl
  | header j len =>
    simp only [loopStatement]
    split <;> rfl
  | unequal j len =>
    simp only [loopStatement]
    split <;> rfl
  | tested j ret => rfl

theorem mytask_enabled {n : Nat} (h : n < x.fine.server.tasks.length) :
    (dialogueStep b i c x (.mytask n)).isSome = true := by
  simp only [dialogueStep, fineStep, Option.isSome_map, mytaskStep,
    List.getElem?_eq_getElem h]
  cases x.fine.server.tasks[n].phase <;> rfl

theorem recv_enabled (hlive : Live (x.fine.server.epEvents i)) (hidle : x.fine.pc = .idle)
    (hwire : x.wire ≠ []) (hroom : 0 < recvRoom (x.fine.server.epEvents i)) :
    (dialogueStep b i c x (.recv 1)).isSome = true := by
  obtain ⟨a, wire, hcons⟩ := List.exists_cons_of_ne_nil hwire
  have hne : recvRoom (x.fine.server.epEvents i) ≠ 0 := by omega
  simp [dialogueStep, hcons, recvOutcome, fineStep, hidle, hlive.1, hlive.2, recvStatement,
    hne]

/-- Until everything is echoed some step is due that keeps out of the gap. -/
theorem Stage.progress (hb : Base x i c k frames) (h : Stage x i) :
    x.echo = frames.flatten ∨
      ∃ m, Unraced x m ∧ (dialogueStep b i c x m).isSome = true := by
  cases h with
  | collecting done cur got hbegun hecho hstream hbuf hpc htasks =>
    by_cases hidle : x.fine.pc = .idle
    · rw [hidle] at hpc hbuf
      cases cur with
      | none =>
        obtain ⟨-, hwr⟩ := List.append_eq_nil_iff.mp hstream
        obtain ⟨-, hrest⟩ := List.append_eq_nil_iff.mp hwr
        simp only [Option.toList_none, List.append_nil] at hbegun
        cases htodo : x.todo with
        | nil =>
          left
          rw [hecho, ← hb.script, hbegun, htodo, List.append_nil]
        | cons f todo =>
          right
          refine ⟨.nextFrame, trivial, ?_⟩
          simp [dialogueStep, htodo, hrest, hbegun, hecho]
      | some f =>
        right
        have hf : Short f := hb.short_begun (by simp [hbegun])
        by_cases hwire : x.wire = []
        · have hrest : x.rest ≠ [] := by
            intro e
            rw [hwire, e, List.append_nil, List.append_nil] at hstream
            exact hf.ne_nil (hpc hstream)
          refine ⟨.write 1, trivial, ?_⟩
          simp [dialogueStep, hrest]
        · refine ⟨.recv 1, fun t ht => ?_, ?_⟩
          · rw [htasks t ht]
            exact Phase.noConfusion
          · exact recv_enabled hb.live hidle hwire (room_pos hbuf hf hstream)
    · exact Or.inr ⟨.loop, trivial, loop_enabled hidle⟩
  | waiting done f old t _ _ _ _ _ _ htasks =>
    exact Or.inr ⟨.mytask old.length, trivial, mytask_enabled (by simp [htasks])⟩
  | answered done f cur old t _ _ _ _ _ htasks =>
    exact Or.inr ⟨.mytask old.length, trivial, mytask_enabled (by simp [htasks])⟩

/-! ## Every run ends -/

/-- Statements of `recvdata` still to come, with the task they may queue. -/
def loopWork : LoopPc → Nat
  | .idle => 0
  | .received _ _ => 9
  | .counted _ => 8
  | .header _ _ => 7
  | .unequal _ _ => 6
  | .tested _ _ => 5

def taskWork (t : Task) : Nat :=
  match t.phase with
  | .queued => 4
  | .taken => 3
  | .sent => 2
  | .lenCleared => 1

/-- A bound on the steps still to come. -/
def work (x : Dialogue) : Nat :=
  (x.todo.map fun f => 12 * f.length + 1).sum + 12 * x.rest.length + 11 * x.wire.length +
    loopWork x.fine.pc + (x.fine.server.tasks.map taskWork).sum

theorem closeAndDel_tasks (s : Server) (i : SlotIx) : (closeAndDel s i).tasks = s.tasks := by
  unfold closeAndDel eventdel
  split <;> rfl

theorem work_recvdataBranch (s : Server) (fd : Nat) (j : SlotIx) (ret : DataRet) (ok : Bool) :
    ((recvdataBranch s fd j ret ok).tasks.map taskWork).sum ≤ (s.tasks.map taskWork).sum + 4 := by
  cases ret with
  | dataComplete =>
    simp only [recvdataBranch]
    split
    · simp [newTask, taskWork]
    · rw [closeAndDel_tasks]
      omega
  | dataError =>
    simp only [recvdataBranch]
    rw [closeAndDel_tasks]
    omega
  | dataContinue => exact Nat.le_add_right _ _

theorem work_mytask {s s' : Server} {n : Nat} (h : mytaskStep s n = some s') :
    (s'.tasks.map taskWork).sum < (s.tasks.map taskWork).sum := by
  obtain ⟨t, ht, hw⟩ := mytaskStep_cases h
  obtain ⟨hn, rfl⟩ := List.getElem?_eq_some_iff.mp ht
  have hsplit : s.tasks = s.tasks.take n ++ s.tasks[n] :: s.tasks.drop (n + 1) := by
    rw [← List.drop_eq_getElem_cons hn, List.take_append_drop]
  have hsum : (s.tasks.map taskWork).sum = ((s.tasks.take n).map taskWork).sum +
      (taskWork s.tasks[n] + ((s.tasks.drop (n + 1)).map taskWork).sum) := by
    conv_lhs => rw [hsplit]
    simp only [List.map_append, List.map_cons, List.sum_append, List.sum_cons]
  have hset (u : Task) : ((s.tasks.set n u).map taskWork).sum =
      ((s.tasks.take n).map taskWork).sum +
        (taskWork u + ((s.tasks.drop (n + 1)).map taskWork).sum) := by
    rw [List.set_eq_take_append_cons_drop, if_pos hn]
    simp only [List.map_append, List.map_cons, List.sum_append, List.sum_cons]
  cases hw with
  | take hp =>
    simp only [hset, hsum, taskWork, hp]
    omega
  | send hp =>
    simp only [hset, hsum, taskWork, hp]
    omega
  | clearLen hp =>
    simp only [hset, hsum, taskWork, hp]
    omega
  | clearHead hp =>
    simp only [List.eraseIdx_eq_take_drop_succ, List.map_append, List.sum_append, hsum,
      taskWork, hp]
    omega

theorem work_step {m : Move} (h : Base x i c k frames ∧ Stage x i) (hu : Unraced x m)
    (hs : dialogueStep b i c x m = some x') : work x' < work x := by
  cases m with
  | nextFrame =>
    obtain ⟨f, todo, htodo, hrest, -, rfl⟩ := nextFrame_cases hs
    simp only [work, htodo, hrest, List.map_cons, List.sum_cons, List.length_nil]
    omega
  | write n =>
    simp only [dialogueStep] at hs
    split at hs
    · cases hs
    · rename_i hc
      cases hs
      have hpos : 0 < x.rest.length :=
        List.length_pos_iff.mpr fun e => hc (Or.inl e)
      have hn : n ≠ 0 := fun e => hc (Or.inr e)
      simp only [work, List.length_append, List.length_take, List.length_drop]
      omega
  | recv n =>
    obtain ⟨done, f, got, bs, -, -, -, hidle, -, -, hbs, hne, rfl⟩ := recv_cases h.1 h.2 hu hs
    have hpos := List.length_pos_iff.mpr hne
    rw [hbs, List.length_take] at hpos
    simp only [work, hidle, loopWork, List.length_drop, Server.setSlot_tasks]
    omega
  | loop =>
    obtain ⟨fine, hfine, rfl⟩ := Option.map_eq_some_iff.mp hs
    simp only [fineStep] at hfine
    cases hp : x.fine.pc with
    | idle => simp [hp, loopStatement] at hfine
    | received j n =>
      simp only [hp, loopStatement, Option.some.injEq] at hfine
      subst hfine
      simp only [work, hp, loopWork, Server.setSlot_tasks]
      omega
    | counted j =>
      simp only [hp, loopStatement, Option.some.injEq] at hfine
      subst hfine
      simp only [work, hp, loopWork]
      omega
    | header j len =>
      simp only [hp, loopStatement] at hfine
      split at hfine <;> cases hfine <;> simp only [work, hp, loopWork] <;> omega
    | unequal j len =>
      simp only [hp, loopStatement] at hfine
      split at hfine <;> cases hfine <;> simp only [work, hp, loopWork] <;> omega
    | tested j ret =>
      simp only [hp, loopStatement, Option.some.injEq] at hfine
      subst hfine
      have := work_recvdataBranch x.fine.server (x.fine.server.epEvents j).mFd j ret true
      simp only [work, hp, loopWork]
      omega
  | mytask n =>
    obtain ⟨fine, hfine, rfl⟩ := Option.map_eq_some_iff.mp hs
    obtain ⟨s, hm, rfl⟩ := Option.map_eq_some_iff.mp hfine
    have := work_mytask hm
    simp only [work]
    omega

end Step

theorem stage_start {s : Server} {i : SlotIx} {c : Nat} (hf : Fresh s i c) (ht : s.tasks = [])
    {frames : List (List UInt8)} (hs : ∀ f ∈ frames, Short f) :
    Base (Dialogue.start s frames) i c s.kernel frames ∧ Stage (Dialogue.start s frames) i := by
  refine ⟨⟨rfl, hf.live, hf.handle, fun t h => ?_, rfl, hs⟩, ?_⟩
  · rw [Dialogue.start, ht] at h
    cases h
  · refine .collecting [] none [] rfl rfl rfl hf.buffered (fun _ => rfl) fun t h => ?_
    rw [Dialogue.start, ht] at h
    cases h

/-- In a run in which `recv` keeps out of the gap, the echo is that of the first frames,
whole and in order, the connection stays open, a step that keeps out of the gap is due
until every frame is echoed, and the run is no longer than its work. -/
theorem lockstep_echo {b : Boot} {s : Server} {i : SlotIx} {c : Nat} (hf : Fresh s i c)
    (ht : s.tasks = []) {frames : List (List UInt8)} (hshort : ∀ f ∈ frames, Short f)
    {ms : List Move} {x : Dialogue}
    (hc : Transition.Along (dialogueStep b i c) Unraced (Dialogue.start s frames) ms)
    (hr : Transition.run (dialogueStep b i c) (Dialogue.start s frames) ms = some x) :
    (∃ n, x.echo = (frames.take n).flatten) ∧
    (x.fine.server.kernel = s.kernel ∧ (x.fine.server.epEvents i).mStatus = 1 ∧
      x.fine.server.kernel.fds (x.fine.server.epEvents i).mFd = some (.conn c)) ∧
    (x.echo = frames.flatten ∨
      ∃ m, Unraced x m ∧ (dialogueStep b i c x m).isSome = true) ∧
    ms.length ≤ work (Dialogue.start s frames) := by
  have hstart := stage_start hf ht hshort
  have h : Base x i c s.kernel frames ∧ Stage x i :=
    Transition.along_invariant (fun _ _ _ hi hu hs => stage_step hi hu hs) hstart hc hr
  have hwork := Transition.length_le_of_measure work
    (fun _ _ _ hi hu hs => ⟨stage_step hi hu hs, work_step hi hu hs⟩) hstart hc hr
  refine ⟨h.2.echo_eq h.1, ⟨h.1.kernel, h.1.live.1, ?_⟩, h.2.progress h.1, by omega⟩
  rw [h.1.kernel]
  exact h.1.handle

/-- Two frames are echoed. The second is received when `m_rcv_buf_len = 0` of the first is done
and `m_rcv_buf[0] = 0` is still to come. -/
def twoRounds : List Move :=
  [.nextFrame, .write 3, .recv 3, .loop, .loop, .loop, .loop, .mytask 0, .mytask 0, .mytask 0,
   .nextFrame, .write 3, .recv 3, .mytask 0, .loop, .loop, .loop, .loop, .mytask 0, .mytask 0,
   .mytask 0, .mytask 0]

def twoFrames : List (List UInt8) := [[0, 1, 65], [0, 1, 66]]

theorem short_twoFrames : ∀ f ∈ twoFrames, Short f := by
  intro f hf
  rcases List.mem_cons.mp hf with rfl | hf
  · exact ⟨[65], by decide, rfl⟩
  · rw [List.mem_singleton] at hf
    exact ⟨[66], by decide, hf⟩

theorem lockstep_echo_twoRounds : ∃ s x, firstAccepted = some s ∧
    Transition.run (dialogueStep plainBoot 0 0) (Dialogue.start s twoFrames) twoRounds = some x ∧
    x.echo = [0, 1, 65, 0, 1, 66] ∧ (∃ n, x.echo = (twoFrames.take n).flatten) ∧
    (x.fine.server.epEvents 0).mStatus = 1 ∧
    (x.echo = twoFrames.flatten ∨
      ∃ m, Unraced x m ∧ (dialogueStep plainBoot 0 0 x m).isSome = true) ∧
    twoRounds.length ≤ work (Dialogue.start s twoFrames) := by
  have e : (firstAccepted.bind fun s => (Transition.run (dialogueStep plainBoot 0 0)
      (Dialogue.start s twoFrames) twoRounds).map fun x => (x.echo, decide
        (Transition.Along (dialogueStep plainBoot 0 0) Unraced (Dialogue.start s twoFrames)
          twoRounds))) = some ([0, 1, 65, 0, 1, 66], true) := by decide
  obtain ⟨s, hs, e⟩ := Option.bind_eq_some_iff.mp e
  obtain ⟨x, hx, e⟩ := Option.map_eq_some_iff.mp e
  rw [Prod.mk.injEq, decide_eq_true_eq] at e
  obtain ⟨hecho, ⟨-, hopen, -⟩, hdue, hlength⟩ := lockstep_echo (fresh_firstAccepted hs)
    (tasks_firstAccepted hs) short_twoFrames e.2 hx
  exact ⟨s, x, hs, hx, e.1, hecho, hopen, hdue, hlength⟩

/-- The client has its echo and sends the next frame, and the whole of it is received and
tested before the worker gets to `m_rcv_buf_len = 0`. -/
def racedRound : List Move :=
  [.nextFrame, .write 3, .recv 3, .loop, .loop, .loop, .loop, .mytask 0, .mytask 0, .nextFrame,
   .write 3, .recv 3, .loop, .loop, .loop, .loop, .loop]

theorem not_lockstep_racedRound :
    ¬ ∀ (b : Boot) (s : Server) (i : SlotIx) (c : Nat) (frames : List (List UInt8))
      (ms : List Move) (x : Dialogue), Fresh s i c → s.tasks = [] → (∀ f ∈ frames, Short f) →
      Transition.run (dialogueStep b i c) (Dialogue.start s frames) ms = some x →
      (∃ n, x.echo = (frames.take n).flatten) ∧ (x.fine.server.epEvents i).mStatus = 1 := by
  intro h
  have e : (firstAccepted.bind fun s => (Transition.run (dialogueStep plainBoot 0 0)
      (Dialogue.start s twoFrames) racedRound).map fun x =>
        (x.fine.server.epEvents 0).mStatus) = some 0 := by decide
  obtain ⟨s, hs, e⟩ := Option.bind_eq_some_iff.mp e
  obtain ⟨x, hx, e⟩ := Option.map_eq_some_iff.mp e
  have hopen := (h plainBoot s 0 0 _ racedRound x (fresh_firstAccepted hs)
    (tasks_firstAccepted hs) short_twoFrames hx).2
  rw [e] at hopen
  cases hopen

end Netepoll
