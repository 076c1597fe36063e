import Netepoll.Lib.CString
import Netepoll.Lib.Files
import Netepoll.Lib.Inet
import Netepoll.Lib.Memory
import Netepoll.Lib.Program
import Netepoll.Slot

/-! `getSrvSocket`, `getCliSocket` and `sendtoUdpSrv` as programs of system calls; what the
kernel decides by itself is whether a call succeeds. No function leaks a descriptor, or asks for
anything on a descriptor that it has not made. -/

namespace Netepoll

open CString Decimal Files Inet Requests

/-! ## The kernel -/

/-- `struct sockaddr_in`, both fields in the order of the host. -/
structure SockaddrIn where
  sAddr : Nat
  port : Nat
  deriving DecidableEq, Repr

structure Socket where
  udp : Bool
  reuse : Bool
  bound : Option SockaddrIn
  /-- the length of the queue of a socket that listens -/
  backlog : Option Int
  peer : Option SockaddrIn
  deriving DecidableEq

/-- The descriptors, and the datagrams that were sent with their destinations. -/
structure Net where
  fds : Table Socket
  sent : List (SockaddrIn × List UInt8)

inductive SockCall where
  | socket (udp : Bool)
  /-- `SO_REUSEADDR` -/
  | setsockopt (s : Int)
  | bind (s : Int) (addr : SockaddrIn)
  | listen (s : Int) (qlen : Int)
  | connect (s : Int) (addr : SockaddrIn)
  | sendto (s : Int) (buf : List UInt8) (addr : SockaddrIn)
  | close (s : Int)

/-- The programs of this file: every system call returns an `int`. -/
abbrev SockProgram := Program SockCall (fun _ => Int) Int

/-- A call that changes an open socket, if it succeeds. -/
def Net.change (n : Net) (s : Int) (f : Socket → Socket) (ok : Bool) : Int × Net :=
  match n.fds.get s.toNat with
  | none => (-1, n)
  | some sock =>
    if ok = true ∧ 0 ≤ s then (0, { n with fds := n.fds.put s.toNat (some (f sock)) })
    else (-1, n)

/-- The greatest datagram. -/
def maxDatagram : Nat := 65507

def serveSock (n : Net) : SockCall → Bool → Int × Net
  | .socket udp, ok =>
    if ok = true then
      (n.fds.lowestFree, { n with fds := n.fds.put n.fds.lowestFree (some {
        udp := udp, reuse := false, bound := none, backlog := none, peer := none }) })
    else (-1, n)
  | .setsockopt s, ok => n.change s (fun sock => { sock with reuse := true }) ok
  | .bind s addr, ok => n.change s (fun sock => { sock with bound := some addr }) ok
  | .listen s qlen, ok => n.change s (fun sock => { sock with backlog := some qlen }) ok
  | .connect s addr, ok => n.change s (fun sock => { sock with peer := some addr }) ok
  | .sendto s buf addr, ok =>
    if ok = true ∧ 0 ≤ s ∧ (n.fds.get s.toNat).isSome = true ∧ buf.length ≤ maxDatagram then
      (buf.length, { n with sent := n.sent ++ [(addr, buf)] })
    else (-1, n)
  -- the number is free again also where `close` reports an error
  | .close s, ok =>
    if 0 ≤ s ∧ (n.fds.get s.toNat).isSome = true then
      (if ok = true then 0 else -1, { n with fds := n.fds.put s.toNat none })
    else (-1, n)

/-! ## The functions -/

/-- `"udp"` -/
def udpText : List UInt8 := [117, 100, 112]

/-- `(u_short)atoi(s)` -/
def portOf (s : List UInt8) : Nat := (atoi s % 65536).toNat

/-- The address that `getSrvSocket` makes of its argument: a port, or an address and a port. -/
def srvAddress (srvAddr : Block) : Option SockaddrIn := do
  let service ← strcpy (zeros 128) srvAddr
  let srvPort ← index 58 service
  match srvPort with
  | none =>
    let port ← load service
    some { sAddr := INADDR_ANY, port := portOf port }
  | some p =>
    let port ← load (service.drop (p + 1))
    let service ← poke service p 0
    let host ← load service
    some { sAddr := inetAddr host, port := portOf port }

/-- `getSrvSocket` behind its address, with the line numbers of its returns. -/
def srvSocket (addr : SockaddrIn) (udp : Bool) (qlen : Int) : SockProgram :=
  .ask (.socket udp) fun s =>
    if s < 0 then .done (-54)
    else .ask (.setsockopt s) fun ret =>
      if ret < 0 then .ask (.close s) fun _ => .done (-62)
      else .ask (.bind s addr) fun ret =>
        if ret < 0 then .ask (.close s) fun _ => .done (-69)
        else if udp = true then .done s
        else .ask (.listen s qlen) fun ret =>
          if ret < 0 then .ask (.close s) fun _ => .done (-75)
          else .done s

def getSrvSocket (srvAddr sockType : Block) (qlen : Int) : Option SockProgram := do
  let addr ← srvAddress srvAddr
  let udp ← memcmpEq sockType udpText
  some (srvSocket addr udp qlen)

/-- `getCliSocket` behind its address. -/
def cliSocket (addr : SockaddrIn) (udp : Bool) : SockProgram :=
  .ask (.socket udp) fun s =>
    if s < 0 then .done (-43)
    else
      let connected : SockProgram := .ask (.connect s addr) fun ret =>
        if ret < 0 then .ask (.close s) fun _ => .done (-66)
        else .done s
      if udp = true then
        .ask (.bind s { sAddr := INADDR_ANY, port := 0 }) fun ret =>
          if ret < 0 then .ask (.close s) fun _ => .done (-59)
          else connected
      else connected

def getCliSocket (host service transport : Block) : Option SockProgram := do
  let host ← load host
  let service ← load service
  let udp ← memcmpEq transport udpText
  some (cliSocket { sAddr := inetAddr host, port := portOf service } udp)

/-- `sendtoUdpSrv` behind its address. -/
def udpProgram (addr : SockaddrIn) (bytes : List UInt8) : SockProgram :=
  .ask (.socket true) fun s =>
    if s < 0 then .done (-37)
    else .ask (.bind s { sAddr := INADDR_ANY, port := 0 }) fun ret =>
      if ret < 0 then .ask (.close s) fun _ => .done (-54)
      else .ask (.sendto s bytes addr) fun ret =>
        if ret < 0 then .ask (.close s) fun _ => .done (-61)
        else .ask (.close s) fun _ => .done 0

/-- `len` goes to `sendto` as a `size_t`. -/
def sendtoUdpSrv (ip port : Block) (buf : Nat → UInt8) (len : Int) : Option SockProgram := do
  let ip ← load ip
  let port ← load port
  some (udpProgram { sAddr := inetAddr ip, port := portOf port }
    (Memory.load buf 0 (toSize len)))

/-! ## One descriptor -/

/-- The same descriptors are open, for the same sockets. -/
def Net.SameFds (n n' : Net) : Prop := ∀ d, n'.fds.get d = n.fds.get d

/-- One descriptor more is open. -/
structure Net.Opened (n n' : Net) (fd : Nat) (sock : Socket) : Prop where
  free : n.fds.get fd = none
  now : n'.fds.get fd = some sock
  rest : ∀ d, d ≠ fd → n'.fds.get d = n.fds.get d

theorem Net.SameFds.refl (n : Net) : n.SameFds n := fun _ => rfl

theorem Net.SameFds.trans {n n' n'' : Net} (h : n.SameFds n') (h' : n'.SameFds n'') :
    n.SameFds n'' := fun d => (h' d).trans (h d)

/-! ## What a call has -/

/-- What a call has: its socket with the descriptor, and the datagram that it has sent. -/
structure Holding where
  sock : Option (Nat × Socket)
  sent : Option (SockaddrIn × List UInt8)

def Holding.empty : Holding := { sock := none, sent := none }

/-- What `socket` makes. -/
def newSocket (udp : Bool) : Socket where
  udp := udp
  reuse := false
  bound := none
  backlog := none
  peer := none

/-- What a system call makes of the socket that it is about. -/
def SockCall.effect : SockCall → Option (Int × (Socket → Socket))
  | .setsockopt s => some (s, fun sock => { sock with reuse := true })
  | .bind s addr => some (s, fun sock => { sock with bound := some addr })
  | .listen s qlen => some (s, fun sock => { sock with backlog := some qlen })
  | .connect s addr => some (s, fun sock => { sock with peer := some addr })
  | _ => none

/-- The descriptor `s` is the one of the call. -/
def Holding.Has (h : Holding) (s : Int) : Prop := ∃ fd sock, h.sock = some (fd, sock) ∧ s = fd

/-- A socket is asked for where there is none, and nothing is asked about any other. -/
def Holding.MayAsk (h : Holding) : SockCall → Prop
  | .socket _ => h.sock = none
  | .setsockopt s => h.Has s
  | .bind s _ => h.Has s
  | .listen s _ => h.Has s
  | .connect s _ => h.Has s
  | .sendto s _ _ => h.Has s ∧ h.sent = none
  | .close s => h.Has s

/-- What the result of a system call makes of what the call has. -/
inductive Holding.Served (h : Holding) : SockCall → Int → Holding → Prop
  | refused (k : SockCall) (hk : ∀ s, k ≠ .close s) : h.Served k (-1) h
  | opened (udp : Bool) (fd : Nat) :
    h.Served (.socket udp) fd { h with sock := some (fd, newSocket udp) }
  | changed {k : SockCall} {s : Int} {f : Socket → Socket} (hk : k.effect = some (s, f)) {fd : Nat}
      {sock : Socket} (hsock : h.sock = some (fd, sock)) :
    h.Served k 0 { h with sock := some (fd, f sock) }
  | sent (s : Int) (buf : List UInt8) (addr : SockaddrIn) :
    h.Served (.sendto s buf addr) buf.length { h with sent := some (addr, buf) }
  | closed (s r : Int) : h.Served (.close s) r { h with sock := none }

/-! ## The calls by themselves -/

section Rules

variable {Q : Holding → Int → Prop} {fd : Nat} {sock : Socket}
  {sent : Option (SockaddrIn × List UInt8)} {next : Int → SockProgram}

theorem within_socket {udp : Bool}
    (hfail : (next (-1)).Within Holding.MayAsk Holding.Served Q { sock := none, sent := sent })
    (hok : ∀ fd : Nat, (next fd).Within Holding.MayAsk Holding.Served Q
      { sock := some (fd, newSocket udp), sent := sent }) :
    (Program.ask (.socket udp) next : SockProgram).Within Holding.MayAsk Holding.Served Q
      { sock := none, sent := sent } := by
  refine ⟨rfl, fun r h hserved => ?_⟩
  cases hserved with
  | refused k hk => exact hfail
  | opened udp fd => exact hok fd
  | changed hk hsock => cases hsock

theorem within_change {k : SockCall} {f : Socket → Socket} (hk : k.effect = some ((fd : Int), f))
    (hfail : (next (-1)).Within Holding.MayAsk Holding.Served Q
      { sock := some (fd, sock), sent := sent })
    (hok : (next 0).Within Holding.MayAsk Holding.Served Q
      { sock := some (fd, f sock), sent := sent }) :
    (Program.ask k next : SockProgram).Within Holding.MayAsk Holding.Served Q
      { sock := some (fd, sock), sent := sent } := by
  have hhas : ∀ s : Int, s = fd → Holding.Has { sock := some (fd, sock), sent := sent } s :=
    fun s hs => ⟨fd, sock, rfl, hs⟩
  refine ⟨?_, fun r h hserved => ?_⟩
  · cases k with
    | setsockopt s => cases hk; exact hhas _ rfl
    | bind s addr => cases hk; exact hhas _ rfl
    | listen s qlen => cases hk; exact hhas _ rfl
    | connect s addr => cases hk; exact hhas _ rfl
    | socket udp => cases hk
    | sendto s buf addr => cases hk
    | close s => cases hk
  · cases hserved with
    | refused k hclose => exact hfail
    | opened udp fd => cases hk
    | changed hk' hsock =>
      rw [hk] at hk'
      cases hk'
      cases hsock
      exact hok
    | sent s buf addr => cases hk
    | closed s r => cases hk

theorem within_sendto {addr : SockaddrIn} {buf : List UInt8}
    (hfail : (next (-1)).Within Holding.MayAsk Holding.Served Q
      { sock := some (fd, sock), sent := none })
    (hok : (next buf.length).Within Holding.MayAsk Holding.Served Q
      { sock := some (fd, sock), sent := some (addr, buf) }) :
    (Program.ask (.sendto fd buf addr) next : SockProgram).Within Holding.MayAsk Holding.Served Q
      { sock := some (fd, sock), sent := none } := by
  refine ⟨⟨⟨fd, sock, rfl, rfl⟩, rfl⟩, fun r h hserved => ?_⟩
  cases hserved with
  | refused k hk => exact hfail
  | changed hk hsock => cases hk
  | sent s buf addr => exact hok

theorem within_close {r : Int} (hQ : Q { sock := none, sent := sent } r) :
    (Program.ask (.close fd) fun _ => .done r : SockProgram).Within Holding.MayAsk Holding.Served Q
      { sock := some (fd, sock), sent := sent } := by
  refine ⟨⟨fd, sock, rfl, rfl⟩, fun ret h hserved => ?_⟩
  cases hserved with
  | refused k hk => exact absurd rfl (hk _)
  | changed hk hsock => cases hk
  | closed s ret => exact hQ

end Rules

/-- How a call ends that makes a socket: with nothing, or with the socket and its descriptor. -/
def HandsOver (sock : Socket) (h : Holding) (r : Int) : Prop :=
  h.sent = none ∧ (r < 0 ∧ h.sock = none ∨ ∃ fd : Nat, r = fd ∧ h.sock = some (fd, sock))

theorem HandsOver.failed {sock : Socket} {r : Int} (hr : r < 0) :
    HandsOver sock { sock := none, sent := none } r :=
  ⟨rfl, .inl ⟨hr, rfl⟩⟩

theorem HandsOver.made (sock : Socket) (fd : Nat) :
    HandsOver sock { sock := some (fd, sock), sent := none } fd :=
  ⟨rfl, .inr ⟨fd, rfl, rfl⟩⟩

theorem srvSocket_within (addr : SockaddrIn) (udp : Bool) (qlen : Int) :
    (srvSocket addr udp qlen).Within Holding.MayAsk Holding.Served (HandsOver {
      udp := udp, reuse := true, bound := some addr,
      backlog := if udp = true then none else some qlen, peer := none }) .empty := by
  refine within_socket (.failed (by decide)) fun fd => ?_
  have hfd : ¬(fd : Int) < 0 := by omega
  simp only [hfd, if_false]
  refine within_change rfl (within_close (.failed (by decide))) ?_
  refine within_change rfl (within_close (.failed (by decide))) ?_
  cases udp with
  | true => exact .made _ fd
  | false => exact within_change rfl (within_close (.failed (by decide))) (.made _ fd)

theorem cliSocket_within (addr : SockaddrIn) (udp : Bool) :
    (cliSocket addr udp).Within Holding.MayAsk Holding.Served (HandsOver {
      udp := udp, reuse := false,
      bound := if udp = true then some { sAddr := INADDR_ANY, port := 0 } else none,
      backlog := none, peer := some addr }) .empty := by
  refine within_socket (.failed (by decide)) fun fd => ?_
  have hfd : ¬(fd : Int) < 0 := by omega
  simp only [hfd, if_false]
  cases udp with
  | false => exact within_change rfl (within_close (.failed (by decide))) (.made _ fd)
  | true =>
    refine within_change rfl (within_close (.failed (by decide))) ?_
    exact within_change rfl (within_close (.failed (by decide))) (.made _ fd)

/-- How a call ends that sends a datagram: without a descriptor, and with 0 if it was sent. -/
def SentOnce (addr : SockaddrIn) (bytes : List UInt8) (h : Holding) (r : Int) : Prop :=
  h.sock = none ∧ (r = 0 ∧ h.sent = some (addr, bytes) ∨ r < 0 ∧ h.sent = none)

theorem SentOnce.failed {addr : SockaddrIn} {bytes : List UInt8} {r : Int} (hr : r < 0) :
    SentOnce addr bytes { sock := none, sent := none } r :=
  ⟨rfl, .inr ⟨hr, rfl⟩⟩

theorem udpProgram_within (addr : SockaddrIn) (bytes : List UInt8) :
    (udpProgram addr bytes).Within Holding.MayAsk Holding.Served (SentOnce addr bytes) .empty := by
  refine within_socket (.failed (by decide)) fun fd => ?_
  have hfd : ¬(fd : Int) < 0 := by omega
  have hlen : ¬(bytes.length : Int) < 0 := by omega
  simp only [hfd, if_false]
  refine within_change rfl (within_close (.failed (by decide))) ?_
  refine within_sendto (within_close (.failed (by decide))) ?_
  simp only [hlen, if_false]
  exact within_close ⟨rfl, .inl ⟨rfl, rfl⟩⟩

/-! ## The descriptors of the process -/

section Threads

variable {π : Type} [DecidableEq π]

/-- Each call has descriptors of its own, which were free before; all the others are as they
were. The datagrams that went out are those that the calls have sent. -/
structure Divided (n s : Net) (parts : π → Holding) : Prop where
  free : ∀ p fd sock, (parts p).sock = some (fd, sock) → n.fds.get fd = none
  now : ∀ p fd sock, (parts p).sock = some (fd, sock) → s.fds.get fd = some sock
  apart : ∀ p q fd sock sock', (parts p).sock = some (fd, sock) →
    (parts q).sock = some (fd, sock') → p = q
  rest : ∀ d, (∀ p sock, (parts p).sock ≠ some (d, sock)) → s.fds.get d = n.fds.get d
  sent : ∃ order : List π, order.Nodup ∧ (∀ p, p ∈ order ↔ (parts p).sent ≠ none) ∧
    s.sent = n.sent ++ order.filterMap fun p => (parts p).sent

variable {n s : Net} {parts : π → Holding} {p : π}

omit [DecidableEq π] in
theorem divided_start (n : Net) : Divided n n fun _ : π => .empty where
  free := fun _ _ _ h => by cases h
  now := fun _ _ _ h => by cases h
  apart := fun _ _ _ _ _ h => by cases h
  rest := fun _ _ => rfl
  sent := ⟨[], List.nodup_nil, fun _ => by simp [Holding.empty], by simp⟩

/-- After an update a descriptor is that of the new part, or of another call. -/
theorem update_sock {l : Holding} {q : π} {d : Nat} {sock : Socket}
    (h : (Function.update parts p l q).sock = some (d, sock)) :
    l.sock = some (d, sock) ∧ q = p ∨ (parts q).sock = some (d, sock) ∧ q ≠ p := by
  by_cases hq : q = p
  · subst hq
    rw [Function.update_self] at h
    exact .inl ⟨h, rfl⟩
  · rw [Function.update_of_ne hq] at h
    exact .inr ⟨h, hq⟩

/-- What the new part has in common with the old one, all parts have. -/
theorem update_common {β : Type} (f : Holding → β) {l : Holding} (h : f l = f (parts p)) (q : π) :
    f (Function.update parts p l q) = f (parts q) := by
  by_cases hq : q = p
  · subst hq
    rw [Function.update_self, h]
  · rw [Function.update_of_ne hq]

/-- A change of the descriptor that a call has, or gets. -/
theorem Divided.put (h : Divided n s parts) {fd : Nat} {new : Option Socket} {l : Holding}
    (hfree : n.fds.get fd = none)
    (hmine : ∀ d sock, (parts p).sock = some (d, sock) → d = fd)
    (hothers : ∀ q sock, q ≠ p → (parts q).sock ≠ some (fd, sock))
    (hl : l.sock = new.map fun sock => (fd, sock)) (hsent : l.sent = (parts p).sent) :
    Divided n { s with fds := s.fds.put fd new } (Function.update parts p l) := by
  have hnew : ∀ d sock, l.sock = some (d, sock) → fd = d ∧ new = some sock := by
    intro d sock hd
    rw [hl] at hd
    obtain ⟨sock', hsock', heq⟩ := Option.map_eq_some_iff.mp hd
    cases heq
    exact ⟨rfl, hsock'⟩
  have hother : ∀ q d sock, q ≠ p → (parts q).sock = some (d, sock) → fd ≠ d := by
    rintro q d sock hq hd rfl
    exact hothers q sock hq hd
  refine ⟨?_, ?_, ?_, ?_, ?_⟩
  · intro q d sock hd
    rcases update_sock hd with ⟨hd, -⟩ | ⟨hd, -⟩
    · rw [← (hnew d sock hd).1, hfree]
    · exact h.free q d sock hd
  · intro q d sock hd
    rcases update_sock hd with ⟨hd, -⟩ | ⟨hd, hq⟩
    · obtain ⟨rfl, rfl⟩ := hnew d sock hd
      exact s.fds.get_put_self _ _
    · exact (s.fds.get_put_ne _ (hother q d sock hq hd)).trans (h.now q d sock hd)
  · intro q q' d sock sock' hd hd'
    rcases update_sock hd with ⟨hd, hq⟩ | ⟨hd, hq⟩ <;>
      rcases update_sock hd' with ⟨hd', hq'⟩ | ⟨hd', hq'⟩
    · rw [hq, hq']
    · exact absurd (hnew d sock hd).1 (hother q' d sock' hq' hd')
    · exact absurd (hnew d sock' hd').1 (hother q d sock hq hd)
    · exact h.apart q q' d sock sock' hd hd'
  · intro d hd
    by_cases hdfd : fd = d
    · subst hdfd
      -- nobody has the descriptor any more, so it has been closed
      have hnone : new = none := by
        by_contra hsome
        obtain ⟨sock, rfl⟩ := Option.ne_none_iff_exists'.mp hsome
        refine hd p sock ?_
        rw [Function.update_self, hl]
        rfl
      rw [hnone]
      exact (s.fds.get_put_self _ _).trans hfree.symm
    · refine (s.fds.get_put_ne _ hdfd).trans (h.rest d fun q sock hq => ?_)
      by_cases hqp : q = p
      · subst hqp
        exact hdfd (hmine d sock hq).symm
      · refine hd q sock ?_
        rw [Function.update_of_ne hqp, hq]
  · obtain ⟨order, hnodup, hmem, hall⟩ := h.sent
    refine ⟨order, hnodup, ?_, ?_⟩
    · simpa only [update_common Holding.sent hsent] using hmem
    · simpa only [update_common Holding.sent hsent] using hall

/-- A call's own descriptor changes, or is closed. -/
theorem Divided.putOwn (h : Divided n s parts) {fd : Nat} {sock : Socket}
    (hsock : (parts p).sock = some (fd, sock)) (new : Option Socket) :
    Divided n { s with fds := s.fds.put fd new } (Function.update parts p
      { parts p with sock := new.map fun sock => (fd, sock) }) := by
  refine h.put (h.free p fd sock hsock) (fun d sock' hd => ?_) (fun q sock' hq hd => ?_) rfl rfl
  · rw [hsock] at hd
    cases hd
    rfl
  · exact hq (h.apart q p fd sock' sock hd hsock)

/-- A call that has no descriptor gets the lowest free one. -/
theorem Divided.putNew (h : Divided n s parts) (hnone : (parts p).sock = none) (sock : Socket) :
    Divided n { s with fds := s.fds.put s.fds.lowestFree (some sock) } (Function.update parts p
      { parts p with sock := some (s.fds.lowestFree, sock) }) := by
  have hfree : s.fds.get s.fds.lowestFree = none := s.fds.get_lowestFree
  have hothers : ∀ q sock, (parts q).sock ≠ some (s.fds.lowestFree, sock) := by
    intro q sock hd
    have hopen := h.now q _ sock hd
    rw [hfree] at hopen
    cases hopen
  refine h.put ((h.rest _ hothers).symm.trans hfree) (fun d sock hd => ?_)
    (fun q sock _ => hothers q sock) rfl rfl
  rw [hnone] at hd
  cases hd

/-- A datagram goes out. -/
theorem Divided.send (h : Divided n s parts) {dgram : SockaddrIn × List UInt8}
    (hnone : (parts p).sent = none) :
    Divided n { s with sent := s.sent ++ [dgram] }
      (Function.update parts p { parts p with sent := some dgram }) := by
  have hsame : ∀ q, (Function.update parts p { parts p with sent := some dgram } q).sock =
      (parts q).sock := update_common Holding.sock rfl
  obtain ⟨order, hnodup, hmem, hall⟩ := h.sent
  have hnew : p ∉ order := fun hp => (hmem p).mp hp hnone
  refine ⟨?_, ?_, ?_, ?_, order ++ [p], ?_, ?_, ?_⟩
  · simpa only [hsame] using h.free
  · simpa only [hsame] using h.now
  · simpa only [hsame] using h.apart
  · simpa only [hsame] using h.rest
  · exact List.nodup_append_comm.mp (List.nodup_cons.mpr ⟨hnew, hnodup⟩)
  · intro q
    rw [List.mem_append, List.mem_singleton]
    by_cases hq : q = p
    · rw [hq, Function.update_self]
      exact iff_of_true (.inr rfl) (Option.some_ne_none dgram)
    · rw [Function.update_of_ne hq, hmem q]
      exact or_iff_left hq
  · have hkept : (order.filterMap fun q =>
        (Function.update parts p { parts p with sent := some dgram } q).sent) =
        order.filterMap fun q => (parts q).sent := by
      refine List.filterMap_congr fun q hq => ?_
      have hqp : q ≠ p := by
        rintro rfl
        exact hnew hq
      rw [Function.update_of_ne hqp]
    rw [List.filterMap_append, hkept, hall, List.append_assoc]
    simp

theorem serveSock_effect {k : SockCall} {fd : Int} {f : Socket → Socket}
    (hk : k.effect = some (fd, f)) (n : Net) (ok : Bool) :
    serveSock n k ok = n.change fd f ok := by
  cases k with
  | socket udp => cases hk
  | sendto s buf addr => cases hk
  | close s => cases hk
  | _ => cases hk; rfl

/-- A system call on a call's own socket. -/
theorem serve_effect (h : Divided n s parts) {k : SockCall} {fd : Int} {f : Socket → Socket}
    (hk : k.effect = some (fd, f)) (hhas : (parts p).Has fd) (hclose : ∀ s, k ≠ .close s)
    (ok : Bool) :
    ∃ l, (parts p).Served k (serveSock s k ok).1 l ∧
      Divided n (serveSock s k ok).2 (Function.update parts p l) := by
  obtain ⟨fd, sock, hsock, rfl⟩ := hhas
  have hnow : s.fds.get (fd : Int).toNat = some sock := h.now p fd sock hsock
  have hserve : serveSock s k ok = if ok = true ∧ 0 ≤ (fd : Int) then
      (0, { s with fds := s.fds.put fd (some (f sock)) }) else (-1, s) := by
    rw [serveSock_effect hk, Net.change, hnow]
    rfl
  rw [hserve]
  split
  · exact ⟨_, .changed hk hsock, h.putOwn hsock (some (f sock))⟩
  · refine ⟨_, .refused k hclose, ?_⟩
    rw [Function.update_eq_self]
    exact h

/-- A system call that a call makes about what it has changes only that. -/
theorem serve_divided (h : Divided n s parts) {k : SockCall} (hk : (parts p).MayAsk k)
    (ok : Bool) :
    ∃ l, (parts p).Served k (serveSock s k ok).1 l ∧
      Divided n (serveSock s k ok).2 (Function.update parts p l) := by
  have hsame : Divided n s (Function.update parts p (parts p)) := by
    rw [Function.update_eq_self]
    exact h
  cases k with
  | socket udp =>
    cases ok with
    | false => exact ⟨_, .refused _ (fun _ h => by cases h), hsame⟩
    | true => exact ⟨_, .opened udp s.fds.lowestFree, h.putNew hk (newSocket udp)⟩
  | setsockopt fd => exact serve_effect h rfl hk (fun _ h => by cases h) ok
  | bind fd addr => exact serve_effect h rfl hk (fun _ h => by cases h) ok
  | listen fd qlen => exact serve_effect h rfl hk (fun _ h => by cases h) ok
  | connect fd addr => exact serve_effect h rfl hk (fun _ h => by cases h) ok
  | sendto fd buf addr =>
    rw [serveSock]
    split
    · exact ⟨_, .sent fd buf addr, h.send hk.2⟩
    · exact ⟨_, .refused _ (fun _ h => by cases h), hsame⟩
  | close fd' =>
    obtain ⟨fd, sock, hsock, rfl⟩ := hk
    have hnow : s.fds.get (fd : Int).toNat = some sock := h.now p fd sock hsock
    have hopen : (0 : Int) ≤ fd ∧ (s.fds.get (fd : Int).toNat).isSome = true :=
      ⟨by omega, by rw [hnow]; rfl⟩
    rw [serveSock, if_pos hopen]
    exact ⟨_, .closed _ _, h.putOwn hsock none⟩

end Threads

/-! ## A call alone -/

section Alone

variable {n s : Net} {h : Holding}

/-- A call that nothing comes between is the only one. -/
theorem exec_alone {Q : Holding → Int → Prop} {prog : SockProgram}
    (hprog : prog.Within Holding.MayAsk Holding.Served Q .empty) {oks : List Bool} {r : Int}
    (hr : prog.exec serveSock n oks = some (r, s)) :
    ∃ h, (Divided n s fun _ : Unit => h) ∧ Q h r := by
  have hserve (s : Net) (h : Holding) (k : SockCall) (ok : Bool)
      (hd : Divided n s fun _ : Unit => h) (hk : h.MayAsk k) :
      ∃ l, h.Served k (serveSock s k ok).1 l ∧
        Divided n (serveSock s k ok).2 fun _ : Unit => l := by
    obtain ⟨l, hl, hdivided⟩ := serve_divided (p := ()) hd hk ok
    have heq : Function.update (fun _ : Unit => h) () l = fun _ => l :=
      funext fun _ => Function.update_self ..
    exact ⟨l, hl, heq ▸ hdivided⟩
  exact hprog.exec (C := fun s h => Divided n s fun _ : Unit => h) hserve (divided_start n) hr

theorem Divided.sent_none (hd : Divided n s fun _ : Unit => h) (hnone : h.sent = none) :
    s.sent = n.sent := by
  obtain ⟨order, -, -, hall⟩ := hd.sent
  rw [hall, hnone, List.filterMap_none, List.append_nil]

theorem Divided.sent_some (hd : Divided n s fun _ : Unit => h) {dgram : SockaddrIn × List UInt8}
    (hsome : h.sent = some dgram) : s.sent = n.sent ++ [dgram] := by
  obtain ⟨order, hnodup, hmem, hall⟩ := hd.sent
  have hone : order = [()] := by
    have hin : () ∈ order := (hmem ()).mpr (by rw [hsome]; exact Option.some_ne_none dgram)
    exact List.perm_singleton.mp ((List.perm_ext_iff_of_nodup hnodup (List.nodup_singleton ())).mpr
      fun _ => iff_of_true hin (List.mem_singleton.mpr rfl))
  rw [hall, hone, hsome]
  rfl

theorem Divided.sameFds (hd : Divided n s fun _ : Unit => h) (hnone : h.sock = none) :
    n.SameFds s := by
  refine fun d => hd.rest d fun _ sock hsock => ?_
  rw [hnone] at hsock
  cases hsock

theorem Divided.opened (hd : Divided n s fun _ : Unit => h) {fd : Nat} {sock : Socket}
    (hsome : h.sock = some (fd, sock)) : n.Opened s fd sock where
  free := hd.free () fd sock hsome
  now := hd.now () fd sock hsome
  rest := fun d hne => hd.rest d fun _ sock' hsock => by
    rw [hsome] at hsock
    cases hsock
    exact hne rfl

/-- `getSrvSocket` leaks no descriptor, whichever of its calls fails, and sends nothing. -/
theorem srvSocket_exec {addr : SockaddrIn} {udp : Bool} {qlen : Int} {oks : List Bool} {r : Int}
    (hr : (srvSocket addr udp qlen).exec serveSock n oks = some (r, s)) :
    s.sent = n.sent ∧ (r < 0 ∧ n.SameFds s ∨ ∃ fd : Nat, r = fd ∧ n.Opened s fd {
      udp := udp, reuse := true, bound := some addr,
      backlog := if udp = true then none else some qlen, peer := none }) := by
  obtain ⟨h, hd, hnone, hsock⟩ := exec_alone (srvSocket_within addr udp qlen) hr
  refine ⟨hd.sent_none hnone, ?_⟩
  rcases hsock with ⟨hneg, hsock⟩ | ⟨fd, hfd, hsock⟩
  · exact .inl ⟨hneg, hd.sameFds hsock⟩
  · exact .inr ⟨fd, hfd, hd.opened hsock⟩

theorem udpProgram_exec {addr : SockaddrIn} {bytes : List UInt8} {oks : List Bool} {r : Int}
    (hr : (udpProgram addr bytes).exec serveSock n oks = some (r, s)) :
    n.SameFds s ∧ (r = 0 ∧ s.sent = n.sent ++ [(addr, bytes)] ∨ r < 0 ∧ s.sent = n.sent) := by
  obtain ⟨h, hd, hsock, hsent⟩ := exec_alone (udpProgram_within addr bytes) hr
  refine ⟨hd.sameFds hsock, ?_⟩
  rcases hsent with ⟨hzero, hsome⟩ | ⟨hneg, hnone⟩
  · exact .inl ⟨hzero, hd.sent_some hsome⟩
  · exact .inr ⟨hneg, hd.sent_none hnone⟩

end Alone

/-! ## Many datagrams -/

/-- A call of `sendtoUdpSrv`, with what the kernel chooses in it. -/
structure UdpCall where
  ip : Text
  port : Text
  buf : Nat → UInt8
  len : Int
  oks : List Bool

def UdpCall.addr (c : UdpCall) : SockaddrIn :=
  { sAddr := inetAddr c.ip.chars, port := portOf c.port.chars }

def UdpCall.bytes (c : UdpCall) : List UInt8 := Memory.load c.buf 0 (toSize c.len)

/-- The calls that have returned, with their results. -/
structure UdpCalls where
  net : Net
  returned : List (UdpCall × Int)

def udpStep (s : UdpCalls) (c : UdpCall) : Option UdpCalls := do
  let prog ← sendtoUdpSrv c.ip.block c.port.block c.buf c.len
  let r ← prog.exec serveSock s.net c.oks
  some { net := r.2, returned := s.returned ++ [(c, r.1)] }

/-- The datagrams of the calls that returned 0. -/
def delivered (calls : List (UdpCall × Int)) : List (SockaddrIn × List UInt8) :=
  (calls.filter fun c => c.2 == 0).map fun c => (c.1.addr, c.1.bytes)

theorem delivered_append (calls calls' : List (UdpCall × Int)) :
    delivered (calls ++ calls') = delivered calls ++ delivered calls' := by
  rw [delivered, List.filter_append, List.map_append, delivered, delivered]

theorem delivered_sent (c : UdpCall) : delivered [(c, 0)] = [(c.addr, c.bytes)] := rfl

theorem delivered_failed (c : UdpCall) {r : Int} (h : r < 0) : delivered [(c, r)] = [] := by
  have hne : (r == 0) = false := by
    rw [beq_eq_false_iff_ne]
    omega
  simp [delivered, hne]

theorem udpStep_sends {u v : UdpCalls} {c : UdpCall} (h : udpStep u c = some v) :
    ∃ r, v.returned = u.returned ++ [(c, r)] ∧ u.net.SameFds v.net ∧
      (r = 0 ∧ v.net.sent = u.net.sent ++ [(c.addr, c.bytes)] ∨
        r < 0 ∧ v.net.sent = u.net.sent) := by
  rw [udpStep, sendtoUdpSrv, c.ip.holds.load, c.port.holds.load] at h
  simp only [Option.bind_eq_bind, Option.bind_some] at h
  obtain ⟨⟨r, net⟩, hexec, heq⟩ := Option.bind_eq_some_iff.mp h
  cases heq
  exact ⟨r, rfl, udpProgram_exec hexec⟩

theorem udp_returned {u v : UdpCalls} {as : List UdpCall}
    (h : Transition.run udpStep u as = some v) :
    v.returned.map Prod.fst = u.returned.map Prod.fst ++ as := by
  induction as generalizing u with
  | nil => cases h; exact (List.append_nil _).symm
  | cons c as ih =>
    obtain ⟨w, hw, hr⟩ := Transition.run_cons_eq_some.mp h
    obtain ⟨r, hret, -⟩ := udpStep_sends hw
    rw [ih hr, hret, List.map_append, List.append_assoc]
    rfl

/-- **Datagrams.** However many calls are made and whichever of their system calls fail, the
datagrams that went out are those of the calls that returned 0, one for each and in the order
of the calls, and no call leaves a descriptor open. -/
theorem sendtoUdpSrv_run {n : Net} {s : UdpCalls} {as : List UdpCall}
    (hr : Transition.run udpStep { net := n, returned := [] } as = some s) :
    n.SameFds s.net ∧ s.net.sent = n.sent ++ delivered s.returned ∧
      s.returned.map Prod.fst = as := by
  have hinv := Transition.run_invariant
    (I := fun u => n.SameFds u.net ∧ u.net.sent = n.sent ++ delivered u.returned)
    (fun u c v hu hv => by
      obtain ⟨r, hret, hsame, hsent⟩ := udpStep_sends hv
      refine ⟨hu.1.trans hsame, ?_⟩
      rw [hret, delivered_append, ← List.append_assoc, ← hu.2]
      rcases hsent with ⟨rfl, hsent⟩ | ⟨hneg, hsent⟩
      · rw [hsent, delivered_sent]
      · rw [hsent, delivered_failed c hneg, List.append_nil])
    ⟨.refl n, (List.append_nil _).symm⟩ hr
  exact ⟨hinv.1, hinv.2, udp_returned hr⟩

/-- A datagram that is sent, and one for which `bind` fails. -/
theorem sendtoUdpSrv_run_two : ∃ s,
    Transition.run udpStep { net := { fds := [], sent := [] }, returned := [] }
      [⟨⟨[49], by decide⟩, ⟨[56], by decide⟩, fun _ => 65, 2, [true, true, true, true]⟩,
        ⟨⟨[49], by decide⟩, ⟨[56], by decide⟩, fun _ => 66, 2, [true, false, true]⟩] = some s ∧
    s.net.sent = [({ sAddr := 1, port := 8 }, [65, 65])] ∧ ∀ d, s.net.fds.get d = none := by
  obtain ⟨s, hr⟩ : ∃ s,
      Transition.run udpStep { net := { fds := [], sent := [] }, returned := [] }
        [⟨⟨[49], by decide⟩, ⟨[56], by decide⟩, fun _ => 65, 2, [true, true, true, true]⟩,
          ⟨⟨[49], by decide⟩, ⟨[56], by decide⟩, fun _ => 66, 2, [true, false, true]⟩] = some s :=
    ⟨_, rfl⟩
  obtain ⟨hsame, -, -⟩ := sendtoUdpSrv_run hr
  refine ⟨s, hr, ?_, fun d => (hsame d).trans ?_⟩
  · cases hr
    rfl
  · simp [Table.get]

end Netepoll
