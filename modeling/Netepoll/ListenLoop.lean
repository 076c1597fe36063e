import Netepoll.Sockets

/-! The loop of `initlistensocket` (sock.c), which calls `getSrvSocket` until it succeeds, and
the address that `HostPort` stands for. -/

namespace Netepoll

open CString Decimal Files Inet Requests

/-! ## initlistensocket -/

/-- `"tcp"` -/
def tcpText : List UInt8 := [116, 99, 112]

/-- The loop of `initlistensocket`, with the seconds slept so far. -/
structure Listening where
  net : Net
  listenFd : Int
  i : Nat
  slept : Nat

def Listening.start (n : Net) : Listening := { net := n, listenFd := -1, i := 0, slept := 0 }

/-- One turn, for the choices of the kernel in it. -/
def listenTurn (hostPort : Block) (l : Listening) (oks : List Bool) : Option Listening :=
  if 0 ≤ l.listenFd then none
  else do
    let prog ← getSrvSocket hostPort (tcpText ++ [0]) 5
    let r ← prog.exec serveSock l.net oks
    some {
      net := r.2
      listenFd := r.1
      i := l.i + 1
      slept := l.slept + if 0 < r.1 then 0 else 30 * (1 + l.i / 10) }

/-! ## The address -/

/-- The address that a text stands for: a port, or an address and a port. -/
def addressOf (t : List UInt8) : SockaddrIn :=
  if 58 ∈ t then
    { sAddr := inetAddr (t.takeWhile fun c => c != 58),
      port := portOf ((t.dropWhile fun c => c != 58).tail) }
  else { sAddr := INADDR_ANY, port := portOf t }

theorem srvAddress_eq {b : Block} {t : List UInt8} (h : Holds b t) (hlen : t.length < 128) :
    srvAddress b = some (addressOf t) := by
  have hcopy := h.strcpy_zeros hlen
  have hservice : Holds (t ++ zeros (128 - t.length)) t := holds_zeros h.noNul (by omega)
  have hindex := hservice.index (show (58 : UInt8) ≠ 0 by decide)
  have hlen' : (t ++ zeros (128 - t.length)).length = 128 := by
    rw [List.length_append, zeros_length]
    omega
  rw [srvAddress, hcopy, Option.bind_eq_bind, Option.bind_some, hindex, Option.bind_eq_bind,
    Option.bind_some, addressOf]
  by_cases hcolon : 58 ∈ t
  · have hp : (t.takeWhile fun c => c != 58).length < t.length := by
      refine Nat.lt_of_le_of_ne (List.takeWhile_prefix _).length_le fun heq => ?_
      have hall := List.IsPrefix.eq_of_length (List.takeWhile_prefix fun c : UInt8 => c != 58) heq
      rw [← hall] at hcolon
      have hne := List.mem_takeWhile_imp hcolon
      exact absurd hne (by decide)
    have hport := (hservice.drop (n := (t.takeWhile fun c => c != 58).length + 1) hp).load
    have htail : t.drop ((t.takeWhile fun c => c != 58).length + 1) =
        (t.dropWhile fun c => c != 58).tail := by
      rw [← List.drop_drop, Words.drop_length_takeWhile, List.drop_one]
    have htake : (t ++ zeros (128 - t.length)).take (t.takeWhile fun c => c != 58).length =
        t.takeWhile fun c => c != 58 := by
      rw [hservice.take (Nat.le_of_lt hp), Words.take_length_takeWhile]
    obtain ⟨b', hpoke, hhost⟩ := poke_zero_holds
      (b := t ++ zeros (128 - t.length)) (n := (t.takeWhile fun c => c != 58).length)
      (by omega) (by
        rw [htake]
        exact fun h0 => h.noNul ((List.takeWhile_prefix _).subset h0))
    rw [htake] at hhost
    rw [htail] at hport
    simp only [if_pos hcolon, hport, hpoke, hhost.load, Option.bind_some]
  · simp only [if_neg hcolon, hservice.load, Option.bind_some]

theorem portOf_printNat {p : Nat} (hp : p < 65536) : portOf (printNat p) = p := by
  have hint : printNat p = printInt p := by
    rw [printInt, if_neg (by omega), Int.natAbs_natCast]
  have hread := atoi_printInt (n := p) (by omega) (by omega) (Words.ends_nil Decimal.isDigit)
  rw [List.append_nil] at hread
  rw [portOf, hint, hread]
  omega

/-- A port alone: any address of the machine. -/
theorem addressOf_port {p : Nat} (hp : p < 65536) :
    addressOf (printNat p) = { sAddr := INADDR_ANY, port := p } := by
  have hcolon : 58 ∉ printNat p := fun h => absurd (isDigit_printNat p 58 h) (by decide)
  rw [addressOf, if_neg hcolon, portOf_printNat hp]

/-- An address in dotted decimal, a colon and a port. -/
theorem addressOf_dotted {a b c d p : Nat} (ha : a < 256) (hb : b < 256) (hc : c < 256)
    (hd : d < 256) (hp : p < 65536) :
    addressOf (dotted a b c d ++ 58 :: printNat p) =
      { sAddr := a * 2 ^ 24 + b * 2 ^ 16 + c * 2 ^ 8 + d, port := p } := by
  have hdigit (n : Nat) : ∀ x ∈ printNat n, (x != 58) = true := by
    intro x hx
    have hd := isDigit_printNat n x hx
    rw [bne_iff_ne]
    rintro rfl
    exact absurd hd (by decide)
  have hplain : ∀ x ∈ dotted a b c d, (x != 58) = true := by
    intro x hx
    simp only [dotted, List.mem_append, List.mem_cons] at hx
    rcases hx with hx | rfl | hx | rfl | hx | rfl | hx
    · exact hdigit a x hx
    · decide
    · exact hdigit b x hx
    · decide
    · exact hdigit c x hx
    · decide
    · exact hdigit d x hx
  have hends : Words.Ends (fun x : UInt8 => x != 58) (58 :: printNat p) := Words.ends_cons rfl
  have hcolon : 58 ∈ dotted a b c d ++ 58 :: printNat p :=
    List.mem_append_right _ List.mem_cons_self
  rw [addressOf, if_pos hcolon, Words.takeWhile_append hplain hends,
    Words.dropWhile_append hplain hends, inetAddr_dotted ha hb hc hd, List.tail_cons,
    portOf_printNat hp]

/-- What may stand for an address in `HostPort`: a port, for all addresses of the machine, or
an address in dotted decimal, a colon and a port. -/
inductive HostPortText : List UInt8 → SockaddrIn → Prop
  | port (p : Nat) (hp : p < 65536) :
    HostPortText (printNat p) { sAddr := INADDR_ANY, port := p }
  | host (a b c d p : Nat) (ha : a < 256) (hb : b < 256) (hc : c < 256) (hd : d < 256)
      (hp : p < 65536) :
    HostPortText (dotted a b c d ++ 58 :: printNat p)
      { sAddr := a * 2 ^ 24 + b * 2 ^ 16 + c * 2 ^ 8 + d, port := p }

theorem addressOf_eq {t : List UInt8} {addr : SockaddrIn} (h : HostPortText t addr) :
    addressOf t = addr := by
  cases h with
  | port p hp => exact addressOf_port hp
  | host a b c d p ha hb hc hd hp => exact addressOf_dotted ha hb hc hd hp

/-! ## The loop of initlistensocket -/

/-- The seconds slept after `k` failures. -/
def napped (k : Nat) : Nat := ((List.range k).map fun i => 30 * (1 + i / 10)).sum

theorem napped_succ (k : Nat) : napped (k + 1) = napped k + 30 * (1 + k / 10) := by
  rw [napped, napped, List.range_succ, List.map_append, List.sum_append]
  simp

/-- The socket that the server listens on. -/
def listener (addr : SockaddrIn) : Socket where
  udp := false
  reuse := true
  bound := some addr
  backlog := some 5
  peer := none

/-- The loop goes on with nothing open, or has ended with the listening socket. -/
structure Listens (n : Net) (addr : SockaddrIn) (l : Listening) : Prop where
  sent : l.net.sent = n.sent
  waits : l.listenFd < 0 → n.SameFds l.net ∧ l.slept = napped l.i
  ends : 0 ≤ l.listenFd → ∃ k, l.i = k + 1 ∧
    n.Opened l.net l.listenFd.toNat (listener addr) ∧
    l.slept = napped k + if l.listenFd = 0 then 30 * (1 + k / 10) else 0

/-- What opens a descriptor behind a state with the same ones opens it behind the first. -/
theorem Net.SameFds.opened {n n' n'' : Net} (h : n.SameFds n') {fd : Nat} {sock : Socket}
    (ho : n'.Opened n'' fd sock) : n.Opened n'' fd sock where
  free := (h fd).symm.trans ho.free
  now := ho.now
  rest := fun d hd => (ho.rest d hd).trans (h d)

theorem getSrvSocket_tcp {b : Block} {t : List UInt8} (h : Holds b t) (hlen : t.length < 128)
    (qlen : Int) :
    getSrvSocket b (tcpText ++ [0]) qlen = some (srvSocket (addressOf t) false qlen) := by
  rw [getSrvSocket, srvAddress_eq h hlen]
  rfl

theorem listens_turn {b : Block} {t : List UInt8} (hb : Holds b t) (hlen : t.length < 128)
    {n : Net} {l l' : Listening} {oks : List Bool} (h : Listens n (addressOf t) l)
    (hl : listenTurn b l oks = some l') : Listens n (addressOf t) l' ∧ l'.i = l.i + 1 := by
  unfold listenTurn at hl
  split at hl
  · cases hl
  · rename_i hwait
    obtain ⟨hsame, hslept⟩ := h.waits (by omega)
    rw [getSrvSocket_tcp hb hlen, Option.bind_eq_bind, Option.bind_some] at hl
    obtain ⟨⟨r, net⟩, hexec, heq⟩ := Option.bind_eq_some_iff.mp hl
    cases heq
    obtain ⟨hsent, hmade⟩ := srvSocket_exec hexec
    refine ⟨⟨hsent.trans h.sent, fun hneg => ?_, fun hpos => ?_⟩, rfl⟩
    · rcases hmade with ⟨-, hfds⟩ | ⟨fd, hfd, -⟩
      · refine ⟨hsame.trans hfds, ?_⟩
        simp only at hneg ⊢
        rw [if_neg (by omega), napped_succ, hslept]
      · simp only at hneg
        omega
    · rcases hmade with ⟨hneg, -⟩ | ⟨fd, hfd, hopen⟩
      · simp only at hpos
        omega
      · simp only at hpos hfd ⊢
        subst hfd
        refine ⟨l.i, rfl, hsame.opened hopen, ?_⟩
        rw [hslept]
        by_cases hzero : (fd : Int) = 0
        · rw [if_neg (by omega), if_pos hzero]
        · rw [if_pos (by omega), if_neg hzero]

theorem listens_start (n : Net) (addr : SockaddrIn) : Listens n addr (.start n) where
  sent := rfl
  waits := fun _ => ⟨.refl n, rfl⟩
  ends := fun h => absurd h (by simp [Listening.start])

theorem listens_run {b : Block} {t : List UInt8} (hb : Holds b t) (hlen : t.length < 128)
    {n : Net} {l l' : Listening} {as : List (List Bool)} (h : Listens n (addressOf t) l)
    (hr : Transition.run (listenTurn b) l as = some l') :
    Listens n (addressOf t) l' ∧ l'.i = l.i + as.length := by
  induction as generalizing l with
  | nil => cases hr; exact ⟨h, rfl⟩
  | cons oks as ih =>
    obtain ⟨m, hm, hr'⟩ := Transition.run_cons_eq_some.mp hr
    obtain ⟨hm', hi⟩ := listens_turn hb hlen h hm
    obtain ⟨hl', hi'⟩ := ih hm' hr'
    exact ⟨hl', by rw [hi', hi, List.length_cons]; omega⟩

/-- A call on an open socket that succeeds. -/
theorem Net.change_ok {n : Net} {fd : Nat} {sock : Socket} (h : n.fds.get fd = some sock)
    (f : Socket → Socket) :
    ∃ n', n.change fd f true = (0, n') ∧ n'.fds.get fd = some (f sock) := by
  have hget : n.fds.get (fd : Int).toNat = some sock := h
  rw [Net.change, hget]
  exact ⟨_, if_pos ⟨rfl, by omega⟩, n.fds.get_put_self _ _⟩

theorem srvSocket_succeeds (n : Net) (addr : SockaddrIn) (qlen : Int) (rest : List Bool) :
    ∃ (fd : Nat) (n' : Net), (srvSocket addr false qlen).exec serveSock n
      (true :: true :: true :: true :: rest) = some ((fd : Int), n') := by
  have hfd : ¬((n.fds.lowestFree : Nat) : Int) < 0 := by omega
  have hzero : ¬(0 : Int) < 0 := by decide
  obtain ⟨n₁, h₁, hget₁⟩ : ∃ n₁ : Net,
      serveSock n (.socket false) true = ((n.fds.lowestFree : Int), n₁) ∧
      n₁.fds.get n.fds.lowestFree = some _ := ⟨_, rfl, n.fds.get_put_self _ _⟩
  obtain ⟨n₂, h₂, hget₂⟩ := Net.change_ok hget₁ fun sock => { sock with reuse := true }
  obtain ⟨n₃, h₃, hget₃⟩ := Net.change_ok hget₂ fun sock => { sock with bound := some addr }
  obtain ⟨n₄, h₄, -⟩ := Net.change_ok hget₃ fun sock => { sock with backlog := some qlen }
  refine ⟨n.fds.lowestFree, n₄, ?_⟩
  simp only [srvSocket, Program.exec, h₁, hfd, if_false]
  simp only [serveSock, h₂, h₃, h₄, hzero, if_false, Bool.false_eq_true, Program.exec]

/-- **The listening socket.** In every run of the loop: while it goes on, the descriptors are
those from before, however many calls have failed and whichever they were, and the seconds
slept grow by half a minute every tenth time. When it ends there is one descriptor more, which
listens at the address of `HostPort`. A turn in which the four calls succeed ends it. -/
theorem initlistensocket_run {b : Block} {t : List UInt8} (hb : Holds b t) (hlen : t.length < 128)
    {n : Net} {l : Listening} {as : List (List Bool)}
    (hr : Transition.run (listenTurn b) (.start n) as = some l) :
    l.i = as.length ∧ Listens n (addressOf t) l ∧
      (l.listenFd < 0 → ∀ rest, ∃ l',
        listenTurn b l (true :: true :: true :: true :: rest) = some l' ∧ 0 ≤ l'.listenFd) := by
  obtain ⟨hl, hi⟩ := listens_run hb hlen (listens_start n (addressOf t)) hr
  refine ⟨by rw [hi, Listening.start, Nat.zero_add], hl, fun hneg rest => ?_⟩
  obtain ⟨fd, n', hexec⟩ := srvSocket_succeeds l.net (addressOf t) 5 rest
  have hturn : listenTurn b l (true :: true :: true :: true :: rest) = some {
      net := n'
      listenFd := fd
      i := l.i + 1
      slept := l.slept + if 0 < (fd : Int) then 0 else 30 * (1 + l.i / 10) } := by
    rw [listenTurn, if_neg (by omega), getSrvSocket_tcp hb hlen, Option.bind_eq_bind,
      Option.bind_some, hexec]
    rfl
  exact ⟨_, hturn, Int.natCast_nonneg fd⟩

set_option maxRecDepth 4000 in
/-- Port 7789 is taken at first, and free at the second attempt. -/
theorem initlistensocket_run_retried : ∃ l,
    Transition.run (listenTurn [55, 55, 56, 57, 0]) (.start { fds := [], sent := [] })
      [[true, true, false, true], [true, true, true, true]] = some l ∧
    l.listenFd = 0 ∧ l.slept = 60 ∧
    l.net.fds.get 0 = some (listener { sAddr := INADDR_ANY, port := 7789 }) := by
  have hb : Holds [55, 55, 56, 57, 0] [55, 55, 56, 57] := ⟨by decide, [], rfl⟩
  obtain ⟨l, hr⟩ : ∃ l, Transition.run (listenTurn [55, 55, 56, 57, 0])
      (.start { fds := [], sent := [] })
      [[true, true, false, true], [true, true, true, true]] = some l := ⟨_, rfl⟩
  obtain ⟨hi, hl, -⟩ := initlistensocket_run hb (by decide) hr
  have hfd : l.listenFd = 0 := by
    cases hr
    rfl
  obtain ⟨k, hk, hopen, hslept⟩ := hl.ends (by omega)
  have hone : k = 1 := by
    rw [hi] at hk
    simpa using hk.symm
  subst hone
  rw [hfd] at hopen hslept
  exact ⟨l, hr, hfd, hslept, hopen.now⟩

end Netepoll
