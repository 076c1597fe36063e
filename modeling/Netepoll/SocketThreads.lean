import Netepoll.Sockets

/-! `getSrvSocket`, `getCliSocket` and `sendtoUdpSrv` in many threads of one process, whose
system calls interleave. A descriptor belongs to the call that it was made for, from `socket`
on until `close` or until it is returned, and no call touches the descriptor of another. -/

namespace Netepoll

open CString Files Inet Requests

inductive SocketCall where
  | getSrvSocket (srvAddr sockType : Block) (qlen : Int)
  | getCliSocket (host service transport : Block)
  | sendtoUdpSrv (ip port : Block) (buf : Nat → UInt8) (len : Int)

def SocketCall.program : SocketCall → Option SockProgram
  | .getSrvSocket srvAddr sockType qlen => Netepoll.getSrvSocket srvAddr sockType qlen
  | .getCliSocket host service transport => Netepoll.getCliSocket host service transport
  | .sendtoUdpSrv ip port buf len => Netepoll.sendtoUdpSrv ip port buf len

/-- What a call has when it returns. -/
def SocketCall.Ends (h : Holding) (r : Int) : SocketCall → Prop
  | .getSrvSocket srvAddr sockType qlen => ∃ addr udp,
      srvAddress srvAddr = some addr ∧ memcmpEq sockType udpText = some udp ∧
      HandsOver {
        udp := udp, reuse := true, bound := some addr,
        backlog := if udp = true then none else some qlen, peer := none } h r
  | .getCliSocket host service transport => ∃ host' service' udp,
      load host = some host' ∧ load service = some service' ∧
      memcmpEq transport udpText = some udp ∧
      HandsOver {
        udp := udp, reuse := false,
        bound := if udp = true then some { sAddr := INADDR_ANY, port := 0 } else none,
        backlog := none,
        peer := some { sAddr := inetAddr host', port := portOf service' } } h r
  | .sendtoUdpSrv ip port buf len => ∃ ip' port',
      load ip = some ip' ∧ load port = some port' ∧
      SentOnce { sAddr := inetAddr ip', port := portOf port' } (Memory.load buf 0 (toSize len)) h r

theorem program_within {call : SocketCall} {prog : SockProgram} (h : call.program = some prog) :
    prog.Within Holding.MayAsk Holding.Served (fun h r => call.Ends h r) .empty := by
  cases call with
  | getSrvSocket srvAddr sockType qlen =>
    obtain ⟨addr, haddr, h⟩ := Option.bind_eq_some_iff.mp h
    obtain ⟨udp, hudp, h⟩ := Option.bind_eq_some_iff.mp h
    cases h
    exact (srvSocket_within addr udp qlen).imp fun l r hr => ⟨addr, udp, haddr, hudp, hr⟩
  | getCliSocket host service transport =>
    obtain ⟨host', hhost, h⟩ := Option.bind_eq_some_iff.mp h
    obtain ⟨service', hservice, h⟩ := Option.bind_eq_some_iff.mp h
    obtain ⟨udp, hudp, h⟩ := Option.bind_eq_some_iff.mp h
    cases h
    exact (cliSocket_within _ udp).imp fun l r hr =>
      ⟨host', service', udp, hhost, hservice, hudp, hr⟩
  | sendtoUdpSrv ip port buf len =>
    obtain ⟨ip', hip, h⟩ := Option.bind_eq_some_iff.mp h
    obtain ⟨port', hport, h⟩ := Option.bind_eq_some_iff.mp h
    cases h
    exact (udpProgram_within _ _).imp fun l r hr => ⟨ip', port', hip, hport, hr⟩

section Threads

variable {π : Type} [DecidableEq π]

/-- Calls under way, and the descriptors of their process. -/
abbrev SocketThreads (π : Type) := Processes π Net SockCall (fun _ => Int) Int

/-- The next system call of one of them, which the kernel refuses or not. -/
def socketMove (s : SocketThreads π) (a : π × Bool) : Option (SocketThreads π) :=
  processMove (fun n k ok => some (serveSock n k ok)) id s (.goes a.1 a.2)

/-- **No leak, and no descriptor taken for another.** Any number of calls are made, in any
threads, and their system calls interleave and fail in any way. In every state of every run
each call has a descriptor of its own, or none: the ones that are open beside those from before
are the sockets of the calls, as far as they have come, and the datagrams that went out are
those that they have sent. A call that has returned a number below 0 has none; one that has
returned a descriptor has the socket that it was called for, and `sendtoUdpSrv` has none either
way, and has sent its datagram, once, exactly if it has returned 0. -/
theorem socketCalls_run (calls : π → SocketCall) {progs : π → SockProgram}
    (hprogs : ∀ p, (calls p).program = some (progs p)) {n : Net}
    {t : SocketThreads π} {as : List (π × Bool)}
    (hr : Transition.run socketMove { system := n, program := progs } as = some t) :
    ∃ parts : π → Holding, Divided n t.system parts ∧
      ∀ p r, t.program p = .done r → (calls p).Ends (parts p) r := by
  have hserve : ∀ (s : Net) (parts : π → Holding) p k ok a s', Divided n s parts →
      (parts p).MayAsk k → some (serveSock s k ok) = some (a, s') →
      ∃ l, (parts p).Served k a l ∧ Divided n s' (Function.update parts p l) := by
    intro s parts p k ok a s' h hk ha
    have hserved := serve_divided h hk ok
    rw [Option.some.inj ha] at hserved
    exact hserved
  obtain ⟨parts, hdivided, hwithin⟩ := run_within (Q := fun p h r => (calls p).Ends h r)
    hserve (divided_start n) (fun p => program_within (hprogs p)) hr
  refine ⟨parts, hdivided, fun p r hp => ?_⟩
  have hend := hwithin p
  rw [hp] at hend
  exact hend

end Threads

/-- `true` connects to port 8 of 0.0.0.1, and `false` sends two bytes there. -/
def twoSocketCalls : Bool → SocketCall
  | true => .getCliSocket [49, 0] [56, 0] [116, 99, 112, 0]
  | false => .sendtoUdpSrv [49, 0] [56, 0] (fun _ => 65) 2

def twoSocketMoves : List (Bool × Bool) :=
  [(true, true), (false, true), (true, false), (false, true), (true, true), (false, true),
    (false, false)]

/-- `connect` fails between the `socket` and the `bind` of the other call. Both descriptors are
closed again, although one `close` reports an error. -/
theorem socketCalls_run_two : ∃ progs t,
    (∀ p, (twoSocketCalls p).program = some (progs p)) ∧
    Transition.run socketMove { system := { fds := [], sent := [] }, program := progs }
      twoSocketMoves = some t ∧
    t.program true = .done (-66) ∧ t.program false = .done 0 ∧
    ∀ d, t.system.fds.get d = none := by
  obtain ⟨cli, hcli⟩ : ∃ prog, (twoSocketCalls true).program = some prog := ⟨_, rfl⟩
  obtain ⟨udp, hudp⟩ : ∃ prog, (twoSocketCalls false).program = some prog := ⟨_, rfl⟩
  have hprogs : ∀ p, (twoSocketCalls p).program = some (if p = true then cli else udp) := by
    intro p
    cases p with
    | true => exact hcli
    | false => exact hudp
  obtain ⟨t, hr, htrue, hfalse⟩ : ∃ t, Transition.run socketMove
      { system := { fds := [], sent := [] }, program := fun p => if p = true then cli else udp }
      twoSocketMoves = some t ∧ t.program true = .done (-66) ∧ t.program false = .done 0 := by
    cases hcli
    cases hudp
    exact ⟨_, rfl, rfl, rfl⟩
  obtain ⟨parts, hdivided, hends⟩ := socketCalls_run twoSocketCalls hprogs hr
  refine ⟨_, t, hprogs, hr, htrue, hfalse, fun d => (hdivided.rest d fun p sock hp => ?_).trans ?_⟩
  · cases p with
    | true =>
      obtain ⟨_, _, _, -, -, -, -, hsock⟩ := hends true _ htrue
      rcases hsock with ⟨-, hnone⟩ | ⟨fd, hfd, -⟩
      · rw [hnone] at hp
        cases hp
      · omega
    | false =>
      obtain ⟨_, _, -, -, hnone, -⟩ := hends false _ hfalse
      rw [hnone] at hp
      cases hp
  · simp [Table.get]

end Netepoll
