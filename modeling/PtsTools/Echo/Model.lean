import PtsTools.Lib.Inet
import PtsTools.Lib.Network

/-!
# The echo programs `udpechoclient.cpp` and `udpechoserver.cpp`

The client sends one string to the server and prints the answer if it is as long as
the string.  The server sends every datagram back to where it came from.  Both use
the sockets of `PracticalSocket.cpp`, whose functions throw a `SocketException` when
a system call fails.  Any system call may fail here, and the exception ends the
program.

A client socket is not connected, so the client takes the first datagram that comes
to its address, whoever sent it.
-/

namespace PtsTools.Echo

open PtsTools.Lib.Scanf PtsTools.Lib.Inet PtsTools.Lib.Network

/-! ## Sockets -/

/-- What the system knows about names. -/
structure Os where
  lookup : Text → Option Ip
  getservbyname : (service protocol : Text) → Option UInt16

/-- `gethostbyname`.  An address in dotted form is not looked up. -/
def Os.gethostbyname (os : Os) (name : Text) : Option Ip :=
  match dotted name with
  | some ip => some ip
  | none => os.lookup name

/-- `fillAddr`. -/
def Os.fillAddr (os : Os) (address : Text) (port : UInt16) : Option Addr :=
  (os.gethostbyname address).map fun ip => ⟨ip, port⟩

/-- The exception of `fillAddr`. -/
def resolveFailed : Text := bytes "Failed to resolve name (gethostbyname())"

/-- The text of an exception with the system message. -/
def socketException (message : String) (strerror : Text) : Text :=
  bytes message ++ bytes ": " ++ strerror

/-- An `int` as an `unsigned short`. -/
def toPort (n : Int32) : UInt16 := n.toUInt32.toUInt16

/-- `Socket::resolveService`. -/
def Os.resolveService (os : Os) (service protocol : Text) : UInt16 :=
  match os.getservbyname service protocol with
  | some port => port
  | none => toPort (atoi service)

/-! ## The client -/

/-- `ECHOMAX`. -/
def echoMax : Nat := 255

/-- What the client makes of its arguments. -/
structure Request where
  servAddress : Text
  echoString : Text
  echoServPort : UInt16
  deriving DecidableEq, Repr

/-- The arguments of a program: `argv[0]` and the others. -/
structure Argv where
  name : Text
  args : List Text
  deriving DecidableEq, Repr

/-- The check of the length.  The answer is the text of the error. -/
def checkLength (os : Os) (servAddress echoString service : Text) : Except Text Request :=
  if echoMax < echoString.length then .error (bytes "Echo string too long\n")
  else .ok ⟨servAddress, echoString, os.resolveService service (bytes "udp")⟩

/-- The checks in front of the socket. -/
def request (os : Os) (argv : Argv) : Except Text Request :=
  match argv.args with
  | [servAddress, echoString] => checkLength os servAddress echoString (bytes "echo")
  | [servAddress, echoString, service] => checkLength os servAddress echoString service
  | _ => .error (bytes "Usage: " ++ argv.name ++ bytes " <Server> <Echo String> [<Server Port>]\n")

/-- How a program stands: it has not opened its socket, it waits for a datagram, or
it has ended with a status and what it wrote. -/
inductive Process
  | start
  | receiving (out : Text)
  | exited (status : Nat) (out err : Text)
  deriving DecidableEq, Repr

/-- What the client does when `recv` returns. -/
def reply (r : Request) (payload : Text) : Process :=
  let echoBuffer := payload.take echoMax
  if echoBuffer.length ≠ r.echoString.length then .exited 1 [] (bytes "Unable to receive\n")
  else .exited 0 (bytes "Received: " ++ cstring echoBuffer ++ bytes "\n") []

/-- The steps of the client that are no `recv`. -/
inductive ClientAct (os : Os) (argv : Argv) (address : Addr) :
    Process → Process → List (Datagram Addr Text) → Prop
  | refused {err : Text} (h : request os argv = .error err) :
      ClientAct os argv address .start (.exited 1 [] err) []
  | noSocket {r : Request} (h : request os argv = .ok r) (strerror : Text) :
      ClientAct os argv address .start
        (.exited 1 [] (socketException "Socket creation failed (socket())" strerror ++ bytes "\n"))
        []
  | notResolved {r : Request} (h : request os argv = .ok r)
      (hnone : os.fillAddr r.servAddress r.echoServPort = none) :
      ClientAct os argv address .start (.exited 1 [] (resolveFailed ++ bytes "\n")) []
  | notSent {r : Request} {dst : Addr} (h : request os argv = .ok r)
      (hdst : os.fillAddr r.servAddress r.echoServPort = some dst) (strerror : Text) :
      ClientAct os argv address .start
        (.exited 1 [] (socketException "Send failed (sendto())" strerror ++ bytes "\n")) []
  | sent {r : Request} {dst : Addr} (h : request os argv = .ok r)
      (hdst : os.fillAddr r.servAddress r.echoServPort = some dst) :
      ClientAct os argv address .start (.receiving []) [⟨address, dst, r.echoString⟩]
  | notReceived (strerror : Text) :
      ClientAct os argv address (.receiving [])
        (.exited 1 [] (socketException "Received failed (recv())" strerror ++ bytes "\n")) []

/-- The `recv` of the client. -/
inductive ClientReceive (os : Os) (argv : Argv) :
    Process → Datagram Addr Text → Process → List (Datagram Addr Text) → Prop
  | received {r : Request} (h : request os argv = .ok r) (d : Datagram Addr Text) :
      ClientReceive os argv (.receiving []) d (reply r d.payload) []

/-! ## The server -/

/-- The line that the server prints for a datagram. -/
def receivedPacket (src : Addr) : Text :=
  bytes "Received packet from " ++ inetNtoa src.ip ++ bytes ":" ++ decimal src.port.toNat ++
    bytes "\n"

/-- The steps of the server that are no `recvFrom`. -/
inductive ServerAct (argv : Argv) : Process → Process → Prop
  | refused (h : argv.args.length ≠ 1) :
      ServerAct argv .start
        (.exited 1 [] (bytes "Usage: " ++ argv.name ++ bytes " <Server Port>\n"))
  | noSocket (h : argv.args.length = 1) (message : String)
      (hmessage : message = "Socket creation failed (socket())" ∨
        message = "Set of local port failed (bind())") (strerror : Text) :
      ServerAct argv .start (.exited 1 [] (socketException message strerror ++ bytes "\n"))
  | bound (h : argv.args.length = 1) : ServerAct argv .start (.receiving [])
  | notReceived (out strerror : Text) :
      ServerAct argv (.receiving out)
        (.exited 1 out (socketException "Receive failed (recvfrom())" strerror ++ bytes "\n"))

/-- One round of the loop of the server.  The address goes through its text. -/
inductive ServerReceive (os : Os) (address : Addr) :
    Process → Datagram Addr Text → Process → List (Datagram Addr Text) → Prop
  | notResolved (out : Text) {d : Datagram Addr Text}
      (hnone : os.fillAddr (inetNtoa d.src.ip) d.src.port = none) :
      ServerReceive os address (.receiving out) d
        (.exited 1 (out ++ receivedPacket d.src) (resolveFailed ++ bytes "\n")) []
  | notSent (out : Text) {d : Datagram Addr Text} {dst : Addr}
      (hdst : os.fillAddr (inetNtoa d.src.ip) d.src.port = some dst) (strerror : Text) :
      ServerReceive os address (.receiving out) d
        (.exited 1 (out ++ receivedPacket d.src)
          (socketException "Send failed (sendto())" strerror ++ bytes "\n")) []
  | echoed (out : Text) {d : Datagram Addr Text} {dst : Addr}
      (hdst : os.fillAddr (inetNtoa d.src.ip) d.src.port = some dst) :
      ServerReceive os address (.receiving out) d (.receiving (out ++ receivedPacket d.src))
        [⟨address, dst, d.payload.take echoMax⟩]

/-! ## The programs in a network -/

/-- The programs. -/
inductive Node (ι : Type)
  | server
  | client (i : ι)
  deriving DecidableEq, Repr

/-- One server and the runs of the client, with the addresses of their sockets, and
what other hosts may send. -/
structure World (ι : Type) where
  os : Os
  serverArgv : Argv
  clientArgv : ι → Argv
  /-- Arguments are C strings. -/
  no_zero : ∀ i, ∀ arg ∈ (clientArgv i).args, 0 ∉ arg
  server : Addr
  /-- For port 0 the system picks one. -/
  serverPort : ∀ arg ∈ serverArgv.args, toPort (atoi arg) ≠ 0 → server.port = toPort (atoi arg)
  client : ι → Addr
  others : Datagram Addr Text → Prop

variable {ι : Type}

/-- The protocol. -/
def World.protocol (w : World ι) : Protocol (Node ι) (fun _ => Process) Addr Text where
  address
    | .server => w.server
    | .client i => w.client i
  init _ := .start
  act n x x' out :=
    match n with
    | .server => ServerAct w.serverArgv x x' ∧ out = []
    | .client i => ClientAct w.os (w.clientArgv i) (w.client i) x x' out
  receive n x d x' out :=
    match n with
    | .server => ServerReceive w.os w.server x d x' out
    | .client i => ClientReceive w.os (w.clientArgv i) x d x' out
  others := w.others

/-- An address keeps its meaning when it goes through its text. -/
theorem Os.fillAddr_inetNtoa (os : Os) (ip : Ip) (port : UInt16) :
    os.fillAddr (inetNtoa ip) port = some ⟨ip, port⟩ := by
  unfold fillAddr gethostbyname
  rw [dotted_inetNtoa]
  rfl

theorem checkLength_ok {os : Os} {servAddress echoString service : Text} {r : Request}
    (h : checkLength os servAddress echoString service = .ok r) :
    r.echoString = echoString ∧ r.echoString.length ≤ echoMax := by
  unfold checkLength at h
  split_ifs at h with hlong
  rw [← Except.ok.inj h]
  exact ⟨rfl, Nat.le_of_not_lt hlong⟩

/-- A request carries an argument that is not too long. -/
theorem request_ok {os : Os} {argv : Argv} {r : Request} (h : request os argv = .ok r) :
    r.echoString ∈ argv.args ∧ r.echoString.length ≤ echoMax := by
  unfold request at h
  split at h
  · rename_i servAddress echoString hargs
    obtain ⟨heq, hle⟩ := checkLength_ok h
    refine ⟨?_, hle⟩
    rw [heq, hargs]
    exact List.mem_cons_of_mem _ List.mem_cons_self
  · rename_i servAddress echoString service hargs
    obtain ⟨heq, hle⟩ := checkLength_ok h
    refine ⟨?_, hle⟩
    rw [heq, hargs]
    exact List.mem_cons_of_mem _ List.mem_cons_self
  · cases h

end PtsTools.Echo
