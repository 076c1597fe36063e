import Mathlib.Data.List.Induction
import Netepoll.Frame
import Netepoll.Registration

/-! One frame cut into chunks. On a freshly accepted connection `recvdata` puts the
chunks together again, for every way of cutting, if and only if the low length byte of
the frame is not negative as a `char`. -/

namespace Netepoll

/-- Connection `c` has just been accepted into slot `i`. -/
structure Fresh (s : Server) (i : SlotIx) (c : Nat) : Prop where
  slot : s.epEvents i = servedSlot i (s.epEvents i).mFd
  handle : s.kernel.fds (s.epEvents i).mFd = some (.conn c)

/-- `acceptconnect` leaves a fresh connection whenever nothing fails. -/
theorem fresh_acceptconnect {b : Boot} {s s' : Server} {i : SlotIx} {fd : Nat}
    (hw : Wired b s) (hi : getEventIndex s = some i)
    (hs : acceptconnect s b.listenFd ⟨some fd, true, true⟩ = some s') :
    Fresh s' i s.kernel.accepted := by
  cases acceptconnect_cases hs with
  | failed ho => cases ho
  | dropped _ _ _ _ hd =>
    rcases hd with hd | hd
    · rw [hi] at hd; cases hd
    · cases hd
  | leaked fd' _ _ _ hf _ _ hd =>
    rcases hd with hd | hd
    · cases hd
    · exact absurd (hw.epoll_free hf) hd
  | served fd' j _ _ _ hj _ _ _ =>
    obtain rfl : i = j := Option.some.inj (hi.symm.trans hj)
    constructor <;> simp [servedSlot, acceptedSlot, eventsetinit]

/-- The wiring of a slot that `recvdata` is called on. -/
def Live (ev : MyEvents) : Prop := ev.mStatus = 1 ∧ ev.callBack = some .recvdata

theorem Live.congr {ev ev' : MyEvents} (h : Live ev) (hw : SameWiring ev ev') : Live ev' :=
  ⟨hw.2.2.1.trans h.1, hw.2.2.2.2.trans h.2⟩

theorem Fresh.live {s : Server} {i : SlotIx} {c : Nat} (h : Fresh s i c) :
    Live (s.epEvents i) := by
  rw [h.slot]
  exact ⟨rfl, rfl⟩

theorem Fresh.buffered {s : Server} {i : SlotIx} {c : Nat} (h : Fresh s i c) :
    Buffered (s.epEvents i) [] := by
  rw [h.slot]
  exact buffered_of_zero rfl rfl

/-- One `recv` that delivers `bs`, to its end. -/
theorem callbackStep_data {b : Boot} {s : Server} {i : SlotIx} {bs : List UInt8}
    (hl : Live (s.epEvents i)) (hb : bs ≠ []) (hr : bs.length ≤ recvRoom (s.epEvents i)) :
    callbackStep b s (.recvdata i ⟨.data bs, true⟩) =
      some (recvdataBranch (s.setSlot i (received (s.epEvents i) bs)) (s.epEvents i).mFd i
        (testpacket (received (s.epEvents i) bs)) true) := by
  have hno : ¬ (bs = [] ∨ recvRoom (s.epEvents i) < bs.length) := by
    rintro (h | h)
    · exact hb h
    · omega
  simp only [callbackStep, hl.1, hl.2, and_self, if_true, recvdata, if_neg hno,
    Server.setSlot_epEvents, Function.update_self]

/-! ## Chunks into a slot -/

theorem sameWiring_trans {ev ev' ev'' : MyEvents} (h : SameWiring ev ev')
    (h' : SameWiring ev' ev'') : SameWiring ev ev'' := by
  obtain ⟨a1, a2, a3, a4, a5⟩ := h
  obtain ⟨b1, b2, b3, b4, b5⟩ := h'
  exact ⟨b1.trans a1, b2.trans a2, b3.trans a3, b4.trans a4, b5.trans a5⟩

theorem sameWiring_foldl (ev : MyEvents) (chunks : List (List UInt8)) :
    SameWiring ev (chunks.foldl received ev) := by
  induction chunks generalizing ev with
  | nil => exact sameWiring_refl ev
  | cons ch chunks ih => exact sameWiring_trans (sameWiring_received ev ch) (ih _)

theorem Buffered.foldl {ev : MyEvents} {got : List UInt8} (h : Buffered ev got)
    (chunks : List (List UInt8)) :
    Buffered (chunks.foldl Netepoll.received ev) (got ++ chunks.flatten) := by
  induction chunks generalizing ev got with
  | nil => simpa using h
  | cons ch chunks ih => simpa [List.append_assoc] using ih (h.received ch)

theorem flatten_eq_nil_iff_of_nonempty {chunks : List (List UInt8)} (h : [] ∉ chunks) :
    chunks.flatten = [] ↔ chunks = [] := by
  rw [List.flatten_eq_nil_iff]
  constructor
  · intro hall
    cases chunks with
    | nil => rfl
    | cons ch rest => exact absurd (hall ch (by simp) ▸ List.mem_cons_self) h
  · rintro rfl
    simp

/-! ## Reassembly -/

/-- The calls of `recvdata` that deliver the chunks; the pool takes every task. -/
def deliver (i : SlotIx) (chunks : List (List UInt8)) : List Action :=
  chunks.map fun ch => .recvdata i ⟨.data ch, true⟩

/-- After each part of the chunks the connection is open, the buffer holds what came,
and the verdict is `DATA_CONTINUE`, with nothing queued, until the last chunk makes it
`DATA_COMPLETE` and queues the frame. -/
def Reassembles (b : Boot) (s₀ : Server) (i : SlotIx) (c : Nat) (frame : List UInt8)
    (chunks : List (List UInt8)) : Prop :=
  ∀ pre post, chunks = pre ++ post →
    ∃ s, Transition.run (callbackStep b) s₀ (deliver i pre) = some s ∧
      s.kernel = s₀.kernel ∧ (s.epEvents i).mStatus = 1 ∧
      rcvBytes (s.epEvents i) = pre.flatten ∧
      testpacket (s.epEvents i) = (if post = [] then .dataComplete else .dataContinue) ∧
      s.tasks = s₀.tasks ++ if post = [] then [⟨i, .queued, some (.conn c), frame⟩] else []

theorem run_deliver {b : Boot} {s₀ : Server} {i : SlotIx} {c : Nat} (hf : Fresh s₀ i c)
    {p : List UInt8} (hp : p.length ≤ BUFSIZ - 2) (hl : p.length % 256 < 128)
    {pre post : List (List UInt8)} (hne : [] ∉ pre ++ post)
    (hfl : (pre ++ post).flatten = frameOf p) :
    Transition.run (callbackStep b) s₀ (deliver i pre) =
      some { s₀.setSlot i (pre.foldl received (s₀.epEvents i)) with
        tasks := s₀.tasks ++
          if post = [] then [⟨i, .queued, some (.conn c), frameOf p⟩] else [] } := by
  have hsize : p.length + 2 ≤ BUFSIZ := by simp only [BUFSIZ] at *; omega
  induction pre using List.reverseRecOn generalizing post with
  | nil =>
    have hpost : post ≠ [] := by
      rintro rfl
      simp [frameOf] at hfl
    rw [if_neg hpost, List.append_nil, List.foldl_nil, Server.setSlot_self]
    rfl
  | append_singleton pre ch ih =>
    have hassoc : pre ++ [ch] ++ post = pre ++ ch :: post := by simp
    rw [hassoc] at hne hfl
    have hrun := ih hne hfl
    rw [if_neg (List.cons_ne_nil _ _), List.append_nil] at hrun
    have hdeliver : deliver i (pre ++ [ch]) = deliver i pre ++ deliver i [ch] :=
      List.map_append
    rw [hdeliver, Transition.run_append_eq_some]
    refine ⟨_, hrun, ?_⟩
    -- the slot after `pre`, and after `ch`
    have hbuf : Buffered (pre.foldl received (s₀.epEvents i)) pre.flatten := by
      simpa using hf.buffered.foldl pre
    have hbuf' := hbuf.received ch
    have hch : ch ≠ [] := by
      rintro rfl
      exact hne (by simp)
    have hpost : [] ∉ post := fun hx => hne (by simp [hx])
    have htotal : (pre.flatten ++ ch) ++ post.flatten = frameOf p := by
      rw [← hfl]
      simp
    have hverdict := hbuf'.verdict_frame (by simp only [BUFSIZ] at hp; omega) hl htotal
    have hlen : pre.flatten.length + ch.length ≤ BUFSIZ := by
      have := congrArg List.length htotal
      simp only [List.length_append, frameOf_length] at this
      omega
    have hroom : ch.length ≤ recvRoom (pre.foldl received (s₀.epEvents i)) := by
      have := recvRoom_eq (by rw [hbuf.len]; omega) (by rw [hbuf.len]; omega)
      rw [hbuf.len] at this
      omega
    have hwiring := sameWiring_foldl (s₀.epEvents i) pre
    refine Transition.run_cons_eq_some.mpr ⟨_, callbackStep_data ?_ hch ?_, ?_⟩
    · simpa using hf.live.congr hwiring
    · simpa using hroom
    · simp only [Server.setSlot_epEvents, Function.update_self, hverdict,
        flatten_eq_nil_iff_of_nonempty hpost]
      by_cases hp0 : post = []
      · have hframe : rcvBytes (received (pre.foldl received (s₀.epEvents i)) ch) = frameOf p := by
          rw [hbuf'.bytes, ← htotal, hp0]
          simp
        simp [hp0, recvdataBranch, newTask, Server.setSlot, hframe, hwiring.1, hf.handle]
      · simp [hp0, recvdataBranch, Server.setSlot]

/-- The header a slot that holds a whole frame shows is the one it was sent with. -/
theorem testpacket_whole {ev : MyEvents} {p : List UInt8} (h : rcvBytes ev = frameOf p)
    (hp : p.length < 32768) :
    testpacket ev = verdict (if p.length % 256 < 128 then (p.length : Int)
      else (p.length : Int) - 256) ((p.length : Int) + 2) := by
  have h0 : ev.mRcvBuf 0 = UInt8.ofNat (p.length / 256) := mRcvBuf_of_rcvBytes h (by simp)
  have h1 : ev.mRcvBuf 1 = UInt8.ofNat (p.length % 256) := mRcvBuf_of_rcvBytes h (by simp)
  have hlen : ev.mRcvBufLen = (p.length : Int) + 2 := by
    have := congrArg List.length h
    simp only [rcvBytes, Memory.load_length, frameOf_length] at this
    omega
  rw [testpacket_eq, h0, h1, hlen, headerLen_ofNat hp]

/-- Every way of cutting a frame is put together again if and only if the low byte of
its length is below 128. -/
theorem reassembles_iff {b : Boot} {s₀ : Server} {i : SlotIx} {c : Nat} (hf : Fresh s₀ i c)
    {p : List UInt8} (hp : p.length ≤ BUFSIZ - 2) {chunks : List (List UInt8)}
    (hne : [] ∉ chunks) (hfl : chunks.flatten = frameOf p) :
    Reassembles b s₀ i c (frameOf p) chunks ↔ p.length % 256 < 128 := by
  have hsmall : p.length < 32768 := by simp only [BUFSIZ] at hp; omega
  constructor
  · intro h
    obtain ⟨s, -, -, -, hbytes, htest, -⟩ := h chunks [] (by simp)
    rw [hfl] at hbytes
    rw [testpacket_whole hbytes hsmall, if_pos rfl, verdict_complete] at htest
    by_contra hl
    rw [if_neg hl] at htest
    omega
  · intro hl pre post hsplit
    rw [hsplit] at hne hfl
    refine ⟨_, run_deliver hf hp hl hne hfl, rfl, ?_, ?_, ?_, rfl⟩
    · have := sameWiring_foldl (s₀.epEvents i) pre
      simpa using (hf.live.congr this).1
    · simpa using (hf.buffered.foldl pre).bytes
    · have hbuf := hf.buffered.foldl pre
      rw [List.nil_append] at hbuf
      have htotal : pre.flatten ++ post.flatten = frameOf p := by rw [← hfl]; simp
      have hpost : [] ∉ post := fun hx => hne (by simp [hx])
      simpa [flatten_eq_nil_iff_of_nonempty hpost] using hbuf.verdict_frame hsmall hl htotal

/-- The first connection of a usual start. -/
def firstAccepted : Option Server :=
  acceptconnect plainBoot.start plainBoot.listenFd ⟨some 5, true, true⟩

theorem fresh_firstAccepted {s : Server} (h : firstAccepted = some s) : Fresh s 0 0 :=
  fresh_acceptconnect (wired_start plainBoot) (by decide) h

theorem tasks_firstAccepted {s : Server} (h : firstAccepted = some s) : s.tasks = [] := by
  have e : firstAccepted.map Server.tasks = some [] := by decide
  rw [h] at e
  exact Option.some.inj e

theorem reassembles_three : ∃ s, firstAccepted = some s ∧
    Reassembles plainBoot s 0 0 (frameOf [65]) [[0], [1, 65]] := by
  have hs : firstAccepted = some _ := rfl
  exact ⟨_, hs, (reassembles_iff (fresh_firstAccepted hs) (by decide) (by decide) rfl).mpr
    (by decide)⟩

/-- A payload of 128 bytes, delivered whole. -/
theorem not_reassembles_128 :
    ¬ ∀ (b : Boot) (s₀ : Server) (i : SlotIx) (c : Nat) (p : List UInt8)
      (chunks : List (List UInt8)), Fresh s₀ i c → p.length ≤ BUFSIZ - 2 → [] ∉ chunks →
      chunks.flatten = frameOf p → Reassembles b s₀ i c (frameOf p) chunks := by
  intro h
  have hs : firstAccepted = some _ := rfl
  have hp : (List.replicate 128 (65 : UInt8)).length = 128 := List.length_replicate
  obtain ⟨s, -, -, -, hbytes, htest, -⟩ :=
    h plainBoot _ 0 0 (List.replicate 128 65) [frameOf (List.replicate 128 65)]
      (fresh_firstAccepted hs) (by rw [hp]; decide) (by simp [frameOf]) (by simp)
      [frameOf (List.replicate 128 65)] [] rfl
  rw [List.flatten_cons, List.flatten_nil, List.append_nil] at hbytes
  rw [testpacket_whole hbytes (by rw [hp]; omega), hp, if_pos rfl, verdict_complete] at htest
  omega

end Netepoll
