import PtsTools.Lib.Network
import PtsTools.Listener.Survival
import PtsTools.Listener.Strangers
import PtsTools.Wire.Receive

/-!
# The clients and the listener in a network

`imlistening.py` on the Windows host, and any number of runs of `e.py`, `ee.py` and
`eee.py` on other machines, over a network that loses, repeats and reorders datagrams.
Nothing in the datagrams says who sent them but the source address, and other hosts
may send what `others` allows, in any name.

A run of a client sends at most one datagram.  The `sendto` of a client may fail, and
it does for a payload that does not fit into a datagram.  The `OSError` ends the run.
-/

namespace PtsTools.Remote

open PtsTools.Python PtsTools.Clients PtsTools.Listener PtsTools.Wire
open PtsTools.Lib.Network (Protocol Net Reachable Keeps)

/-! ## The programs -/

/-- An address: an IP address, as `recvfrom` reports it, and a port. -/
structure Addr where
  ip : Str
  port : Nat
  deriving DecidableEq, Repr

/-- `UDP_PORT` of the listener and `PORT` of the clients. -/
def udpPort : Nat := 6821

/-- The bytes that fit into a datagram. -/
def maxPayload : Nat := 65507

/-- The datagrams of the network. -/
abbrev Packet : Type := Lib.Network.Datagram Addr Bytes

/-- A datagram as the listener sees it. -/
def received (p : Packet) : Datagram := ⟨p.src.ip, p.src.port, p.payload⟩

/-- The programs. -/
inductive Node (ι : Type)
  | listener
  | client (i : ι)
  deriving DecidableEq, Repr

/-- The listener between two datagrams: what it has done, how its loop stands, and its
state. -/
structure Service (W : Type) where
  actions : List Action
  status : Status
  state : State W

/-- A run of a client. -/
inductive Process
  | start
  | done (sent : Sent)
  | oserror
  deriving DecidableEq, Repr

/-- How a program stands. -/
abbrev Standing (W : Type) {ι : Type} : Node ι → Type
  | .listener => Service W
  | .client _ => Process

/-- The listener after one more datagram. -/
def Service.next {W : Type} (host : Host W) (x : Service W) (d : Datagram) : Service W :=
  match step host x.state d with
  | (acts, .ready s) => ⟨x.actions ++ acts, .waiting, s⟩
  | (acts, .left s) => ⟨x.actions ++ acts, .stopped, s⟩
  | (acts, .failed e s) => ⟨x.actions ++ acts, .failed d e, s⟩

/-- The Windows host, the runs of the clients with the machines that they run on, and
what other hosts may send. -/
structure World (ι W : Type) where
  host : Host W
  init : W
  ip : Str
  client : ι → Client
  env : ι → Env
  argv : ι → List Str
  source : ι → Addr
  others : Packet → Prop

variable {ι W : Type}

/-- How a run of a client ends. -/
def World.sent (w : World ι W) (i : ι) : Sent := (w.client i).run (w.env i) (w.argv i)

/-- The address of the listener. -/
def World.listener (w : World ι W) : Addr := ⟨w.ip, udpPort⟩

/-- A run of a client. -/
inductive ClientAct (w : World ι W) (i : ι) : Process → Process → List Packet → Prop
  | stays (h : ∀ ip payload, w.sent i ≠ .sendto ip payload) :
      ClientAct w i .start (.done (w.sent i)) []
  | sent {ip : Str} {payload : Bytes} (h : w.sent i = .sendto ip payload)
      (hfits : payload.length ≤ maxPayload) :
      ClientAct w i .start (.done (w.sent i)) [⟨w.source i, ⟨ip, udpPort⟩, payload⟩]
  | oserror {ip : Str} {payload : Bytes} (h : w.sent i = .sendto ip payload) :
      ClientAct w i .start .oserror []

/-- One round of the loop of the listener. -/
inductive ListenerReceive (host : Host W) (x : Service W) (p : Packet) :
    Service W → List Packet → Prop
  | round (h : x.status = .waiting) : ListenerReceive host x p (x.next host (received p)) []

/-- The protocol. -/
def World.protocol (w : World ι W) : Protocol (Node ι) (Standing W) Addr Bytes where
  address
    | .listener => w.listener
    | .client i => w.source i
  init
    | .listener => (⟨[], .waiting, start w.init⟩ : Service W)
    | .client _ => Process.start
  act
    | .listener, _, _, _ => False
    | .client i, x, x', out => ClientAct w i x x' out
  receive
    | .listener, x, p, x', out => ListenerReceive w.host x p x' out
    | .client _, _, _, _, _ => False
  others := w.others

/-! ## Requests -/

/-- A datagram that a client sends to the listener. -/
def World.Asks (w : World ι W) (d : Datagram) : Prop :=
  ∃ i payload, w.sent i = .sendto w.ip payload ∧ payload.length ≤ maxPayload ∧
    d = ⟨(w.source i).ip, (w.source i).port, payload⟩

/-- A datagram that another host sends to the listener. -/
def World.Forges (w : World ι W) (d : Datagram) : Prop :=
  ∃ p, w.others p ∧ p.dst = w.listener ∧ d = received p

/-- A request: a datagram to the listener with the address of a machine that the
listener obeys. -/
structure World.Request (w : World ι W) (d : Datagram) : Prop where
  trusted : d.ip ∈ Gigacitys
  comes : w.Asks d ∨ w.Forges d

/-- What the listener does for a datagram from a machine that it obeys. -/
def answer (d : Datagram) : List Action :=
  match decode (recvfrom d) with
  | none => []
  | some cmd =>
    match dispatch d.ip cmd (tokenize cmd) with
    | .ok (.popen branch text) => [.popen branch text]
    | .ok (.exec text) => [.exec (text.drop 7)]
    | .ok .leave => []
    | .error _ => []

end PtsTools.Remote
