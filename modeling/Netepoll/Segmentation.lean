import Netepoll.Reassembly

/-! A stream of frames on one connection, every task run to its end before the next
`recv`. How `recv` cuts the stream decides what the server makes of it: a frame is taken
when its last byte is the last byte of a chunk, and a chunk that runs on into the next
frame is refused as too long. -/

namespace Netepoll

/-- The server and the frames handed to the pool so far. -/
structure Session where
  server : Server
  handed : List (List UInt8)

/-- `recvdata` has closed the connection. -/
def Closed (x : Session) (i : SlotIx) : Prop := (x.server.epEvents i).mStatus = 0

instance (x : Session) (i : SlotIx) : Decidable (Closed x i) :=
  inferInstanceAs (Decidable (_ = _))

/-- One chunk and then all the statements of the tasks it queued. A closed connection
gets no more callbacks. -/
def serveChunk (b : Boot) (i : SlotIx) (x : Session) (ch : List UInt8) : Option Session :=
  if Closed x i then some x
  else
    (callbackStep b x.server (.recvdata i ⟨.data ch, true⟩)).bind fun s =>
      (Transition.run mytaskStep s (List.replicate (4 * s.tasks.length) 0)).map fun s' =>
        ⟨s', x.handed ++ s.tasks.map Task.frame⟩

def serve (b : Boot) (i : SlotIx) (s : Server) (chunks : List (List UInt8)) : Option Session :=
  Transition.run (serveChunk b i) ⟨s, []⟩ chunks

/-! ## Where chunks and frames end -/

/-- The positions at which chunks end, the first one starting at `off`. -/
def chunkEnds : Nat → List (List UInt8) → List Nat
  | _, [] => []
  | off, ch :: chunks => (off + ch.length) :: chunkEnds (off + ch.length) chunks

def alignedFrom (ends : List Nat) : Nat → List (List UInt8) → Nat
  | _, [] => 0
  | off, f :: frames =>
    if off + f.length ∈ ends then alignedFrom ends (off + f.length) frames + 1 else 0

/-- How many frames, from the first on, end where a chunk ends. -/
def aligned (frames chunks : List (List UInt8)) : Nat :=
  alignedFrom (chunkEnds 0 chunks) 0 frames

theorem chunkEnds_ge {off n : Nat} {chunks : List (List UInt8)}
    (h : n ∈ chunkEnds off chunks) : off ≤ n := by
  induction chunks generalizing off with
  | nil => cases h
  | cons ch chunks ih =>
    rcases List.mem_cons.mp h with rfl | h
    · omega
    · have := ih h
      omega

/-- A chunk end that lies before the end of every frame does not count. -/
theorem alignedFrom_cons {e off : Nat} {ends : List Nat} {frames : List (List UInt8)}
    (h : ∀ f ∈ frames.head?, e < off + f.length) :
    alignedFrom (e :: ends) off frames = alignedFrom ends off frames := by
  induction frames generalizing off with
  | nil => rfl
  | cons f frames ih =>
    have hlt : e < off + f.length := h f rfl
    have hne : off + f.length ≠ e := by omega
    have hrest : alignedFrom (e :: ends) (off + f.length) frames =
        alignedFrom ends (off + f.length) frames := ih fun g _ => by omega
    simp only [alignedFrom, List.mem_cons, hne, false_or, hrest]

theorem alignedFrom_le (ends : List Nat) (off : Nat) (frames : List (List UInt8)) :
    alignedFrom ends off frames ≤ frames.length := by
  induction frames generalizing off with
  | nil => exact Nat.le_refl 0
  | cons f frames ih =>
    simp only [alignedFrom, List.length_cons]
    split
    · exact Nat.succ_le_succ (ih _)
    · exact Nat.zero_le _

/-! ## One chunk -/

/-- The connection in slot `i` is open, its slot holds the bytes `got` of an unfinished
frame, and no task is left. -/
structure Collecting (x : Session) (i : SlotIx) (got : List UInt8) : Prop where
  live : Live (x.server.epEvents i)
  buffered : Buffered (x.server.epEvents i) got
  tasks : x.server.tasks = []

theorem Collecting.not_closed {x : Session} {i : SlotIx} {got : List UInt8}
    (h : Collecting x i got) : ¬ Closed x i := by
  intro hc
  have := h.live.1
  rw [Closed] at hc
  omega

/-- What one chunk does to a session that is collecting a frame. -/
theorem serveChunk_cases {b : Boot} {x y : Session} {i : SlotIx} {got ch : List UInt8}
    (h : Collecting x i got) (hs : serveChunk b i x ch = some y) :
    (testpacket (received (x.server.epEvents i) ch) = .dataContinue ∧
      Collecting y i (got ++ ch) ∧ y.handed = x.handed) ∨
    (testpacket (received (x.server.epEvents i) ch) = .dataComplete ∧
      ((((received (x.server.epEvents i) ch).mRcvBuf 1).toNat < 128) → Collecting y i []) ∧
      y.handed = x.handed ++ [got ++ ch]) ∨
    (testpacket (received (x.server.epEvents i) ch) = .dataError ∧
      Closed y i ∧ y.handed = x.handed) := by
  rw [serveChunk, if_neg h.not_closed] at hs
  obtain ⟨s, hcall, hs⟩ := Option.bind_eq_some_iff.mp hs
  obtain ⟨s', hrun, rfl⟩ := Option.map_eq_some_iff.mp hs
  have hbuf := h.buffered.received ch
  have hlive := h.live.congr (sameWiring_received (x.server.epEvents i) ch)
  simp only [callbackStep, h.live.1, h.live.2, and_self, if_true] at hcall
  cases recvdata_cases h.live.1 hcall with
  | kept bs hr _ _ ht =>
    cases hr
    left
    have htasks : x.server.tasks = [] := h.tasks
    simp only [Server.setSlot_tasks, htasks, List.length_nil, Nat.mul_zero, List.replicate_zero,
      Transition.run_nil, Option.some.injEq] at hrun
    subst hrun
    refine ⟨ht, ⟨?_, ?_, htasks⟩, ?_⟩
    · simpa using hlive
    · simpa using hbuf
    · simp [htasks]
  | queued bs hr _ _ _ ht =>
    cases hr
    right; left
    rw [h.tasks, List.nil_append] at hrun ⊢
    rw [List.length_singleton, Nat.mul_one, run_mytaskStep rfl rfl] at hrun
    obtain ⟨t, ht', rfl⟩ := mytask_eq_some hrun
    obtain rfl := Option.some.inj ht'
    refine ⟨ht, fun hl => ⟨?_, ?_, rfl⟩, ?_⟩
    · have hw : SameWiring (received (x.server.epEvents i) ch)
        (mytaskResets (received (x.server.epEvents i) ch)) := ⟨rfl, rfl, rfl, rfl, rfl⟩
      simpa using hlive.congr hw
    · simpa using buffered_mytaskResets hl
    · simp [hbuf.bytes]
  | closed ev hev =>
    have htasks : x.server.tasks = [] := h.tasks
    rcases hev with ⟨-, hr | hr⟩ | ⟨bs, rfl, hr, ht⟩
    · cases hr
    · cases hr
    · cases hr
      right; right
      rcases ht with ht | ⟨-, hadd⟩
      · simp only [Server.setSlot_tasks, htasks, List.length_nil, Nat.mul_zero,
          List.replicate_zero, Transition.run_nil, Option.some.injEq] at hrun
        subst hrun
        exact ⟨ht, by simp [Closed], by simp [htasks]⟩
      · cases hadd

theorem run_closed {b : Boot} {x y : Session} {i : SlotIx} {chunks : List (List UInt8)}
    (h : Closed x i) (hr : Transition.run (serveChunk b i) x chunks = some y) : y = x := by
  induction chunks with
  | nil => exact (Option.some.inj hr).symm
  | cons ch chunks ih =>
    obtain ⟨z, hz, hr⟩ := Transition.run_cons_eq_some.mp hr
    rw [serveChunk, if_pos h, Option.some.injEq] at hz
    subst hz
    exact ih hr

/-- The chunk stops inside the frame `frameOf p`. -/
theorem serveChunk_inside {b : Boot} {x y : Session} {i : SlotIx} {got ch a p : List UInt8}
    (h : Collecting x i got) (hs : serveChunk b i x ch = some y) (hp : p.length ≤ 127)
    (hcut : (got ++ ch) ++ a = frameOf p) (ha : a ≠ []) :
    Collecting y i (got ++ ch) ∧ y.handed = x.handed := by
  have hv := (h.buffered.received ch).verdict_frame (by omega) (by omega) hcut
  rw [if_neg ha] at hv
  rcases serveChunk_cases h hs with ⟨-, hc, hh⟩ | ⟨ht, -⟩ | ⟨ht, -⟩
  · exact ⟨hc, hh⟩
  · rw [hv] at ht; cases ht
  · rw [hv] at ht; cases ht

/-- The chunk stops at the end of the frame `frameOf p`. -/
theorem serveChunk_end {b : Boot} {x y : Session} {i : SlotIx} {got ch p : List UInt8}
    (h : Collecting x i got) (hs : serveChunk b i x ch = some y) (hp : p.length ≤ 127)
    (hcut : got ++ ch = frameOf p) :
    Collecting y i [] ∧ y.handed = x.handed ++ [frameOf p] := by
  have hbuf := h.buffered.received ch
  have hnil : (got ++ ch) ++ [] = frameOf p := by rw [List.append_nil, hcut]
  have hv := hbuf.verdict_frame (by omega) (by omega) hnil
  rw [if_pos rfl] at hv
  rw [hcut] at hbuf
  have hlow : (received (x.server.epEvents i) ch).mRcvBuf 1 = UInt8.ofNat (p.length % 256) :=
    hbuf.get (k := 1) (by simp)
  rcases serveChunk_cases h hs with ⟨ht, -⟩ | ⟨-, hc, hh⟩ | ⟨ht, -⟩
  · rw [hv] at ht; cases ht
  · refine ⟨hc ?_, by rw [hh, hcut]⟩
    rw [hlow, UInt8.toNat_ofNat']
    omega
  · rw [hv] at ht; cases ht

/-- The chunk runs on after the end of the frame `frameOf p`. -/
theorem serveChunk_over {b : Boot} {x y : Session} {i : SlotIx} {got ch a p : List UInt8}
    (h : Collecting x i got) (hs : serveChunk b i x ch = some y) (hp : p.length ≤ 127)
    (hcut : got ++ ch = frameOf p ++ a) (ha : a ≠ []) : Closed y i ∧ y.handed = x.handed := by
  have hbuf := h.buffered.received ch
  rw [hcut] at hbuf
  have hv := hbuf.verdict_excess (by omega) ha
  rcases serveChunk_cases h hs with ⟨ht, -⟩ | ⟨ht, -⟩ | ⟨-, hc, hh⟩
  · rw [hv] at ht; cases ht
  · rw [hv] at ht; cases ht
  · exact ⟨hc, hh⟩

/-! ## The whole stream -/

/-- From `x` on the frames were taken as far as they are aligned, and the connection was
closed if one of them is not. -/
def Served (i : SlotIx) (x y : Session) (ends : List Nat) (off : Nat)
    (frames : List (List UInt8)) : Prop :=
  y.handed = x.handed ++ frames.take (alignedFrom ends off frames) ∧
    (Closed y i ↔ alignedFrom ends off frames < frames.length)

theorem Served.skip {i : SlotIx} {x z y : Session} {ends : List Nat} {e off : Nat}
    {f : List UInt8} {frames : List (List UInt8)} (h : Served i z y ends off (f :: frames))
    (hz : z.handed = x.handed) (he : e < off + f.length) :
    Served i x y (e :: ends) off (f :: frames) := by
  have hskip : alignedFrom (e :: ends) off (f :: frames) = alignedFrom ends off (f :: frames) :=
    alignedFrom_cons fun g hg => by cases hg; exact he
  rw [Served, hskip, ← hz]
  exact h

theorem Served.take {i : SlotIx} {x z y : Session} {ends : List Nat} {off : Nat}
    {f : List UInt8} {frames : List (List UInt8)} (h : Served i z y ends (off + f.length) frames)
    (hz : z.handed = x.handed ++ [f]) (hpos : ∀ g ∈ frames, 0 < g.length) :
    Served i x y ((off + f.length) :: ends) off (f :: frames) := by
  have hone : alignedFrom ((off + f.length) :: ends) off (f :: frames) =
      alignedFrom ends (off + f.length) frames + 1 := by
    rw [alignedFrom, if_pos List.mem_cons_self, alignedFrom_cons fun g hg => ?_]
    have := hpos g (List.mem_of_mem_head? hg)
    omega
  obtain ⟨hh, hc⟩ := h
  rw [Served, hone, hh, hz, hc, List.length_cons]
  refine ⟨by simp, ?_⟩
  omega

theorem Served.refuse {i : SlotIx} {x y : Session} {ends : List Nat} {e off : Nat}
    {f : List UInt8} {frames : List (List UInt8)} (hy : y.handed = x.handed)
    (hc : Closed y i) (he : off + f.length < e) (hends : ∀ n ∈ ends, e ≤ n) :
    Served i x y (e :: ends) off (f :: frames) := by
  have hno : off + f.length ∉ e :: ends := by
    intro hmem
    rcases List.mem_cons.mp hmem with hmem | hmem
    · omega
    · have := hends _ hmem
      omega
  rw [Served, alignedFrom, if_neg hno]
  exact ⟨by simp [hy], by simp [hc]⟩

/-- Where a cut falls against the first of two blocks. -/
theorem append_cut {u r f g : List UInt8} (h : u ++ r = f ++ g) :
    (∃ a, a ≠ [] ∧ u ++ a = f ∧ r = a ++ g) ∨ (u = f ∧ r = g) ∨
      ∃ a, a ≠ [] ∧ u = f ++ a := by
  rcases List.append_eq_append_iff.mp h with ⟨a, hf, hr⟩ | ⟨a, hu, hg⟩
  · by_cases ha : a = []
    · subst ha
      exact Or.inr (Or.inl ⟨by simpa using hf.symm, by simpa using hr⟩)
    · exact Or.inl ⟨a, ha, hf.symm, hr⟩
  · by_cases ha : a = []
    · subst ha
      exact Or.inr (Or.inl ⟨by simpa using hu, by simpa using hg.symm⟩)
    · exact Or.inr (Or.inr ⟨a, ha, hu⟩)

/-- The induction is on the chunks; `got` is what the slot holds of the first frame,
which starts `off` bytes into the stream. -/
theorem run_serveChunk {b : Boot} {i : SlotIx} {x y : Session} {got : List UInt8} {off : Nat}
    {ps chunks : List (List UInt8)} (h : Collecting x i got) (hps : ∀ p ∈ ps, p.length ≤ 127)
    (hne : [] ∉ chunks) (hgot : ∀ p ∈ ps.head?, got.length < (frameOf p).length)
    (hfl : got ++ chunks.flatten = (ps.map frameOf).flatten)
    (hr : Transition.run (serveChunk b i) x chunks = some y) :
    Served i x y (chunkEnds (off + got.length) chunks) off (ps.map frameOf) := by
  induction chunks generalizing x got off ps with
  | nil =>
    obtain rfl : x = y := Option.some.inj hr
    have hps0 : ps = [] := by
      cases ps with
      | nil => rfl
      | cons p ps =>
        have hlen := congrArg List.length hfl
        have hlt := hgot p rfl
        simp only [List.flatten_nil, List.append_nil, List.map_cons, List.flatten_cons,
          List.length_append] at hlen
        omega
    subst hps0
    exact ⟨by simp [alignedFrom], by simp [alignedFrom, h.not_closed]⟩
  | cons ch chunks ih =>
    have hne' : [] ∉ chunks := fun hx => hne (by simp [hx])
    obtain ⟨z, hz, hr⟩ := Transition.run_cons_eq_some.mp hr
    cases ps with
    | nil =>
      simp only [List.flatten_cons, List.map_nil, List.flatten_nil,
        List.append_eq_nil_iff] at hfl
      exact absurd (hfl.2.1 ▸ List.mem_cons_self) hne
    | cons p ps =>
      have hp : p.length ≤ 127 := hps p List.mem_cons_self
      have hps' : ∀ q ∈ ps, q.length ≤ 127 := fun q hq => hps q (List.mem_cons_of_mem _ hq)
      have hends : chunkEnds (off + got.length) (ch :: chunks) =
          (off + (got ++ ch).length) :: chunkEnds (off + (got ++ ch).length) chunks := by
        simp [chunkEnds, Nat.add_assoc]
      rw [hends, List.map_cons]
      rw [List.flatten_cons, List.map_cons, List.flatten_cons, ← List.append_assoc] at hfl
      rcases append_cut hfl with ⟨a, ha, hcut, hrest⟩ | ⟨hcut, hrest⟩ | ⟨a, ha, hcut⟩
      · obtain ⟨hc, hh⟩ := serveChunk_inside h hz hp hcut ha
        have hlt : (got ++ ch).length < (frameOf p).length := by
          have := List.length_pos_iff.mpr ha
          rw [← hcut]
          simp only [List.length_append]
          omega
        have hstream : (got ++ ch) ++ chunks.flatten = ((p :: ps).map frameOf).flatten := by
          rw [hrest, ← List.append_assoc, hcut]
          rfl
        have hnext : Served i z y (chunkEnds (off + (got ++ ch).length) chunks) off
            (frameOf p :: ps.map frameOf) :=
          ih hc hps hne' (fun q hq => by cases hq; exact hlt) hstream hr
        exact hnext.skip hh (by omega)
      · obtain ⟨hc, hh⟩ := serveChunk_end h hz hp hcut
        have hnext : Served i z y (chunkEnds (off + (frameOf p).length) chunks)
            (off + (frameOf p).length) (ps.map frameOf) :=
          ih hc hps' hne' (fun q _ => by simp) (by simpa using hrest) hr
        rw [hcut]
        refine hnext.take hh fun g hg => ?_
        obtain ⟨q, -, rfl⟩ := List.mem_map.mp hg
        simp
      · obtain ⟨hc, hh⟩ := serveChunk_over h hz hp hcut ha
        obtain rfl := run_closed hc hr
        have hlt := List.length_pos_iff.mpr ha
        have hlen := congrArg List.length hcut
        simp only [List.length_append] at hlen ⊢
        exact Served.refuse hh hc (by omega) fun n hn => chunkEnds_ge hn

/-- What the server makes of the stream is decided by the number of leading frames that
end where a chunk ends, so two ways of cutting it agree exactly when they agree on that. -/
theorem serve_aligned {b : Boot} {s : Server} {i : SlotIx} {c : Nat} (hf : Fresh s i c)
    (ht : s.tasks = []) {ps xs ys : List (List UInt8)} (hps : ∀ p ∈ ps, p.length ≤ 127)
    (hxs : [] ∉ xs) (hys : [] ∉ ys) (hxf : xs.flatten = (ps.map frameOf).flatten)
    (hyf : ys.flatten = (ps.map frameOf).flatten) {x y : Session}
    (hx : serve b i s xs = some x) (hy : serve b i s ys = some y) :
    (x.handed = (ps.map frameOf).take (aligned (ps.map frameOf) xs) ∧
      (Closed x i ↔ aligned (ps.map frameOf) xs < ps.length)) ∧
    ((x.handed = y.handed ∧ (Closed x i ↔ Closed y i)) ↔
      aligned (ps.map frameOf) xs = aligned (ps.map frameOf) ys) := by
  have hstart : Collecting ⟨s, []⟩ i [] := ⟨hf.live, hf.buffered, ht⟩
  obtain ⟨hxh, hxc⟩ : Served i ⟨s, []⟩ x (chunkEnds 0 xs) 0 (ps.map frameOf) :=
    run_serveChunk hstart hps hxs (fun p _ => by simp) hxf hx
  obtain ⟨hyh, hyc⟩ : Served i ⟨s, []⟩ y (chunkEnds 0 ys) 0 (ps.map frameOf) :=
    run_serveChunk hstart hps hys (fun p _ => by simp) hyf hy
  simp only [List.nil_append, List.length_map] at hxh hxc hyh hyc
  refine ⟨⟨hxh, hxc⟩, ⟨fun ⟨hh, _⟩ => ?_, fun he => ?_⟩⟩
  · have hlen := congrArg List.length (hxh.symm.trans (hh.trans hyh))
    have hxle := alignedFrom_le (chunkEnds 0 xs) 0 (ps.map frameOf)
    have hyle := alignedFrom_le (chunkEnds 0 ys) 0 (ps.map frameOf)
    rw [List.length_take, List.length_take] at hlen
    simp only [aligned]
    omega
  · simp only [aligned] at he
    exact ⟨by rw [hxh, hyh, he], by rw [hxc, hyc, he]⟩

/-- Two frames of one byte each, and two ways in which `recv` can deliver them. -/
def apart : List (List UInt8) := [[0, 1, 65], [0, 1, 66]]

def together : List (List UInt8) := [[0, 1, 65, 0, 1, 66]]

/-- Both frames in pieces, of which one ends where the first frame does. -/
def inPieces : List (List UInt8) := [[0], [1, 65], [0, 1], [66]]

theorem serve_aligned_apart : ∃ s x y, firstAccepted = some s ∧
    serve plainBoot 0 s apart = some x ∧ serve plainBoot 0 s inPieces = some y ∧
      x.handed = apart ∧ x.handed = y.handed ∧ (Closed x 0 ↔ Closed y 0) := by
  have e : (firstAccepted.bind fun s => (serve plainBoot 0 s apart).bind fun x =>
      (serve plainBoot 0 s inPieces).map fun y => (x.handed, y.handed)) =
      some (apart, apart) := by decide
  obtain ⟨s, hs, e⟩ := Option.bind_eq_some_iff.mp e
  obtain ⟨x, hx, e⟩ := Option.bind_eq_some_iff.mp e
  obtain ⟨y, hy, -⟩ := Option.map_eq_some_iff.mp e
  have hps : ∀ p ∈ [[(65 : UInt8)], [66]], p.length ≤ 127 := by decide
  have hapart : apart.flatten = ([[(65 : UInt8)], [66]].map frameOf).flatten := rfl
  have hpieces : inPieces.flatten = ([[(65 : UInt8)], [66]].map frameOf).flatten := rfl
  have hmain := serve_aligned (fresh_firstAccepted hs) (tasks_firstAccepted hs) hps (by decide)
    (by decide) hapart hpieces hx hy
  exact ⟨s, x, y, hs, hx, hy, hmain.1.1, hmain.2.mpr rfl⟩

theorem not_serve_independent :
    ¬ ∀ (b : Boot) (s : Server) (i : SlotIx) (c : Nat) (ps xs ys : List (List UInt8))
      (x y : Session), Fresh s i c → s.tasks = [] → (∀ p ∈ ps, p.length ≤ 127) → [] ∉ xs →
      [] ∉ ys → xs.flatten = (ps.map frameOf).flatten → ys.flatten = (ps.map frameOf).flatten →
      serve b i s xs = some x → serve b i s ys = some y →
      x.handed = y.handed ∧ (Closed x i ↔ Closed y i) := by
  intro h
  have e : (firstAccepted.bind fun s => (serve plainBoot 0 s apart).bind fun x =>
      (serve plainBoot 0 s together).map fun y => (x.handed, y.handed)) =
      some (apart, []) := by decide
  obtain ⟨s, hs, e⟩ := Option.bind_eq_some_iff.mp e
  obtain ⟨x, hx, e⟩ := Option.bind_eq_some_iff.mp e
  obtain ⟨y, hy, e⟩ := Option.map_eq_some_iff.mp e
  have hsame := (h plainBoot s 0 0 [[65], [66]] apart together x y (fresh_firstAccepted hs)
    (tasks_firstAccepted hs) (by decide) (by decide) (by decide) rfl rfl hx hy).1
  rw [Prod.mk.injEq] at e
  rw [e.1, e.2] at hsame
  cases hsame

end Netepoll
