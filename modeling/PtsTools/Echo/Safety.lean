import PtsTools.Echo.Model

/-!
# What the echo client prints

The network may lose, repeat and reorder datagrams.  In a `Closed` world all clients
call the server, every socket has its own address, and no other host sends to a
client or in its name.  There a client that ends well has printed its own string,
whatever the order of events: `closed_prints_iff`.

The client checks nothing but the length.  In a world in which other hosts may send
anything, it can print any text that is not longer than its own: `open_prints_iff`.
-/

namespace PtsTools.Echo

open PtsTools.Lib.Scanf PtsTools.Lib.Inet PtsTools.Lib.Network

variable {ι : Type} {w : World ι} {i : ι} {net : Net (Node ι) (fun _ => Process) Addr Text}

/-- What the client has printed when it ends well. -/
def received (text : Text) : Process :=
  .exited 0 (bytes "Received: " ++ text ++ bytes "\n") []

/-- The client `i` has a request, and knows the address that it calls. -/
def World.Calls (w : World ι) (i : ι) (r : Request) (dst : Addr) : Prop :=
  request w.os (w.clientArgv i) = .ok r ∧ w.os.fillAddr r.servAddress r.echoServPort = some dst

theorem World.Calls.unique {r r' : Request} {dst dst' : Addr} (h : w.Calls i r dst)
    (h' : w.Calls i r' dst') : r = r' ∧ dst = dst' := by
  have hr : r = r' := Except.ok.inj (h.1.symm.trans h'.1)
  refine ⟨hr, ?_⟩
  rw [← hr] at h'
  exact Option.some.inj (h.2.symm.trans h'.2)

theorem World.Calls.no_zero {r : Request} {dst : Addr} (h : w.Calls i r dst) :
    0 ∉ r.echoString :=
  w.no_zero i _ (request_ok h.1).1

/-- A text without a zero byte is a C string. -/
theorem cstring_append_zeros {text : Text} (h : 0 ∉ text) (n : Nat) :
    cstring (text ++ List.replicate n 0) = text := by
  unfold cstring
  rw [List.takeWhile_append_of_pos]
  · cases n with
    | zero => simp
    | succ n => simp [List.replicate_succ]
  · intro b hb
    have hne : b ≠ 0 := fun heq => h (heq ▸ hb)
    simp [hne]

theorem cstring_of_no_zero {text : Text} (h : 0 ∉ text) : cstring text = text := by
  have hzeros := cstring_append_zeros h 0
  rwa [List.replicate_zero, List.append_nil] at hzeros

/-- The answer that has the length of the string. -/
theorem reply_of_length {r : Request} {payload : Text}
    (h : (payload.take echoMax).length = r.echoString.length) :
    reply r payload = received (cstring (payload.take echoMax)) := by
  unfold reply received
  exact if_neg (fun hne => hne h)

/-! ## Closed worlds -/

/-- All clients call the server, every socket has its own address, and no other host
sends to a client or in its name. -/
structure Closed (w : World ι) : Prop where
  calls : ∀ {i r dst}, w.Calls i r dst → dst = w.server
  injective : Function.Injective w.client
  ne_server : ∀ i, w.client i ≠ w.server
  others : ∀ d, w.others d → ∀ i, d.src ≠ w.client i ∧ d.dst ≠ w.client i

/-- The process of a client that has printed something has printed its own string. -/
def Honest (w : World ι) (n : Node ι) (x : Process) : Prop :=
  match n with
  | .server => True
  | .client i =>
    match x with
    | .start => True
    | .receiving _ => ∃ r, w.Calls i r w.server
    | .exited 0 out err => ∃ r, w.Calls i r w.server ∧ .exited 0 out err = received r.echoString
    | .exited _ _ _ => True

/-- A datagram from a client or to a client carries the string of that client. -/
def Own (w : World ι) (d : Datagram Addr Text) : Prop :=
  ∀ i, d.src = w.client i ∨ d.dst = w.client i →
    ∃ r, w.Calls i r w.server ∧ d.payload = r.echoString

/-- What the server sends back goes to the address that it came from. -/
theorem server_receive_cases {x x' : Process} {d : Datagram Addr Text}
    {out : List (Datagram Addr Text)} (h : ServerReceive w.os w.server x d x' out) :
    ∀ d' ∈ out, d' = ⟨w.server, d.src, d.payload.take echoMax⟩ := by
  cases h with
  | notResolved out hnone => exact fun d' hd' => absurd hd' List.not_mem_nil
  | notSent out hdst strerror => exact fun d' hd' => absurd hd' List.not_mem_nil
  | echoed out hdst =>
    rw [Os.fillAddr_inetNtoa] at hdst
    rw [← Option.some.inj hdst]
    exact fun d' hd' => List.mem_singleton.mp hd'

/-- The string of a client survives the buffer of the server. -/
theorem World.Calls.take {r : Request} {dst : Addr} (h : w.Calls i r dst) :
    r.echoString.take echoMax = r.echoString :=
  List.take_of_length_le (request_ok h.1).2

/-- In a closed world every client keeps to its own string. -/
theorem closed_keeps (hw : Closed w) : Keeps w.protocol (Honest w) (Own w) where
  init n := by
    cases n with
    | server => trivial
    | client i => trivial
  act n x x' out hx hact := by
    cases n with
    | server =>
      obtain ⟨_, rfl⟩ := hact
      exact ⟨trivial, fun d hd => absurd hd List.not_mem_nil⟩
    | client i =>
      cases hact with
      | @sent r dst h hdst =>
        obtain rfl : dst = w.server := hw.calls ⟨h, hdst⟩
        refine ⟨⟨r, h, hdst⟩, ?_⟩
        intro d hd j hj
        rw [List.mem_singleton.mp hd] at hj ⊢
        rcases hj with hj | hj
        · rw [← hw.injective hj]
          exact ⟨r, ⟨h, hdst⟩, rfl⟩
        · exact absurd hj.symm (hw.ne_server j)
      | _ => exact ⟨trivial, fun d hd => absurd hd List.not_mem_nil⟩
  receive n x d x' out hx hd hdst hreceive := by
    cases n with
    | server =>
      refine ⟨trivial, ?_⟩
      intro d' hd' j hj
      rw [server_receive_cases hreceive d' hd'] at hj ⊢
      rcases hj with hj | hj
      · exact absurd hj.symm (hw.ne_server j)
      · obtain ⟨r, hcalls, hpayload⟩ := hd j (Or.inl hj)
        exact ⟨r, hcalls, by rw [hpayload, hcalls.take]⟩
    | client i =>
      cases hreceive with
      | @received r h d =>
        refine ⟨?_, fun d hd => absurd hd List.not_mem_nil⟩
        obtain ⟨r', hcalls, hpayload⟩ := hd i (Or.inr hdst)
        obtain rfl : r = r' := Except.ok.inj (h.symm.trans hcalls.1)
        rw [hpayload, reply_of_length (by rw [hcalls.take]), hcalls.take]
        rw [cstring_of_no_zero hcalls.no_zero]
        exact ⟨r, hcalls, rfl⟩
  others d hd j hj := by
    rcases hj with hj | hj
    · exact absurd hj (hw.others d hd j).1
    · exact absurd hj (hw.others d hd j).2

/-! ## Any world -/

/-- The process of a client that has printed something has printed no more than its
own string has. -/
def Short (w : World ι) (n : Node ι) (x : Process) : Prop :=
  match n with
  | .server => True
  | .client i =>
    match x with
    | .start => True
    | .receiving _ => ∃ r dst, w.Calls i r dst
    | .exited 0 out err => ∃ r dst text, w.Calls i r dst ∧ 0 ∉ text ∧
        text.length ≤ r.echoString.length ∧ .exited 0 out err = received text
    | .exited _ _ _ => True

/-- A C string ends in front of the first zero byte. -/
theorem zero_not_mem_cstring (s : Text) : 0 ∉ cstring s := by
  intro h
  have hne := List.mem_takeWhile_imp h
  exact absurd hne (by decide)

/-- In any world a client prints nothing that is longer than its string. -/
theorem short_keeps (w : World ι) : Keeps w.protocol (Short w) fun _ => True where
  init n := by
    cases n with
    | server => trivial
    | client i => trivial
  act n x x' out hx hact := by
    refine ⟨?_, fun _ _ => trivial⟩
    cases n with
    | server => trivial
    | client i =>
      cases hact with
      | @sent r dst h hdst => exact ⟨r, dst, h, hdst⟩
      | _ => trivial
  receive n x d x' out hx hd hdst hreceive := by
    refine ⟨?_, fun _ _ => trivial⟩
    cases n with
    | server => trivial
    | client i =>
      cases hreceive with
      | @received r h d =>
        obtain ⟨r', dst, hcalls⟩ := hx
        obtain rfl : r = r' := Except.ok.inj (h.symm.trans hcalls.1)
        by_cases hlength : (d.payload.take echoMax).length = r.echoString.length
        · rw [reply_of_length hlength]
          refine ⟨r, dst, _, hcalls, zero_not_mem_cstring _, ?_, rfl⟩
          rw [← hlength]
          exact (List.takeWhile_sublist _).length_le
        · unfold reply
          rw [if_pos hlength]
          trivial
  others d hd := trivial

/-! ## What can happen -/

variable [DecidableEq ι]

/-- A client that waits takes any datagram to its address. -/
theorem receive_reachable {r : Request} {dst : Addr} (hcalls : w.Calls i r dst)
    (hnet : Reachable w.protocol net) (hwait : net.node (.client i) = .receiving [])
    {d : Datagram Addr Text} (hd : d ∈ net.sent) (hdst : d.dst = w.client i) :
    ∃ net', Reachable w.protocol net' ∧ net'.node (.client i) = reply r d.payload := by
  refine ⟨net.next (.client i) (reply r d.payload) [], ?_, Net.next_node_self _ _ _ _⟩
  refine Reachable.receive hnet hd hdst ?_
  rw [hwait]
  exact .received hcalls.1 d

/-- A client sends its string and waits. -/
theorem sent_reachable {r : Request} {dst : Addr} (hcalls : w.Calls i r dst) :
    Reachable w.protocol
      (w.protocol.start.next (.client i) (.receiving []) [⟨w.client i, dst, r.echoString⟩]) :=
  Reachable.act .start (.sent hcalls.1 hcalls.2)

/-- When the server runs and has got the string of a client that waits, the client can
get its string back. -/
theorem echoed_reachable {r : Request} {out : Text} (hcalls : w.Calls i r w.server)
    (hnet : Reachable w.protocol net) (hserver : net.node .server = .receiving out)
    (hwait : net.node (.client i) = .receiving [])
    (hsent : ⟨w.client i, w.server, r.echoString⟩ ∈ net.sent) :
    ∃ net', Reachable w.protocol net' ∧ net'.node (.client i) = received r.echoString := by
  have hechoed : Reachable w.protocol
      (net.next .server (.receiving (out ++ receivedPacket (w.client i)))
        [⟨w.server, w.client i, r.echoString.take echoMax⟩]) := by
    refine hnet.receive hsent rfl ?_
    rw [hserver]
    exact ServerReceive.echoed out (w.os.fillAddr_inetNtoa _ _)
  have hback : ⟨w.server, w.client i, r.echoString.take echoMax⟩ ∈
      (net.next .server (.receiving (out ++ receivedPacket (w.client i)))
        [⟨w.server, w.client i, r.echoString.take echoMax⟩]).sent :=
    List.mem_append_right _ List.mem_cons_self
  have hwait' : (net.next .server (.receiving (out ++ receivedPacket (w.client i)))
      [⟨w.server, w.client i, r.echoString.take echoMax⟩]).node (.client i) = .receiving [] := by
    rw [Net.next_node_of_ne net (by simp)]
    exact hwait
  obtain ⟨net', hnet', hexit⟩ := receive_reachable hcalls hechoed hwait' hback rfl
  refine ⟨net', hnet', ?_⟩
  have htake : (r.echoString.take echoMax).take echoMax = r.echoString := by
    rw [hcalls.take, hcalls.take]
  rw [hexit, reply_of_length (by rw [htake]), htake, cstring_of_no_zero hcalls.no_zero]

/-- In a closed world with a server, a client can end well if it calls the server, and
when it does, it has printed its own string. -/
theorem closed_prints_iff (hw : Closed w) (hserver : w.serverArgv.args.length = 1) (i : ι)
    (out err : Text) :
    (∃ net, Reachable w.protocol net ∧ net.node (.client i) = .exited 0 out err) ↔
      ∃ r, w.Calls i r w.server ∧ .exited 0 out err = received r.echoString := by
  constructor
  · intro h
    obtain ⟨net, hnet, hexit⟩ := h
    have hhonest := (hnet.invariant (closed_keeps hw)).1 (.client i)
    rw [hexit] at hhonest
    exact hhonest
  · intro h
    obtain ⟨r, hcalls, hout⟩ := h
    have hidle : (w.protocol.start.next (.client i) (.receiving [])
        [⟨w.client i, w.server, r.echoString⟩]).node .server = .start :=
      Net.next_node_of_ne _ (by simp) _ _
    have hbound := Reachable.act (sent_reachable hcalls)
      (show w.protocol.act .server _ (.receiving []) [] from
        ⟨by rw [hidle]; exact .bound hserver, rfl⟩)
    rw [hout]
    refine echoed_reachable hcalls hbound (Net.next_node_self _ _ _ _) ?_ ?_
    · rw [Net.next_node_of_ne _ (by simp)]
      exact Net.next_node_self _ _ _ _
    · exact List.mem_append_left _ (List.mem_append_right _ List.mem_cons_self)

/-- Two clients that call the server by its address, in dotted form. -/
def twoClients (others : Datagram Addr Text → Prop) : World Bool where
  os := ⟨fun _ => none, fun _ _ => some 7⟩
  serverArgv := ⟨bytes "UDPEchoServer", [bytes "7"]⟩
  clientArgv i := ⟨bytes "UDPEchoClient",
    [inetNtoa ⟨10, 0, 0, 1⟩, if i then bytes "hi" else bytes "ho"]⟩
  no_zero := by decide
  server := ⟨⟨10, 0, 0, 1⟩, 7⟩
  serverPort := by decide
  client i := ⟨⟨10, 0, 0, 2⟩, if i then 4001 else 4000⟩
  others := others

theorem twoClients_calls (others : Datagram Addr Text → Prop) :
    (twoClients others).Calls true ⟨inetNtoa ⟨10, 0, 0, 1⟩, bytes "hi", 7⟩
      (twoClients others).server :=
  ⟨rfl, Os.fillAddr_inetNtoa _ _ _⟩

theorem twoClients_closed : Closed (twoClients fun _ => False) where
  calls := by
    intro i r dst h
    have hcalls : (twoClients fun _ => False).Calls i
        ⟨inetNtoa ⟨10, 0, 0, 1⟩, if i then bytes "hi" else bytes "ho", 7⟩
        (twoClients fun _ => False).server := by
      cases i with
      | false => exact ⟨rfl, Os.fillAddr_inetNtoa _ _ _⟩
      | true => exact ⟨rfl, Os.fillAddr_inetNtoa _ _ _⟩
    exact (h.unique hcalls).2
  injective i j h := by
    revert h
    revert i j
    decide
  ne_server := by decide
  others d hd := hd.elim

theorem twoClients_closed_prints : ∃ net, Reachable (twoClients fun _ => False).protocol net ∧
    net.node (.client true) = .exited 0 (bytes "Received: hi\n") [] :=
  (closed_prints_iff twoClients_closed rfl true _ _).mpr ⟨_, twoClients_calls _, by decide⟩

/-- Where other hosts may send anything, a client can print every text that is not
longer than its own string. -/
theorem open_prints_iff (hw : ∀ d, w.others d) (i : ι) (out err : Text) :
    (∃ net, Reachable w.protocol net ∧ net.node (.client i) = .exited 0 out err) ↔
      ∃ r dst text, w.Calls i r dst ∧ 0 ∉ text ∧ text.length ≤ r.echoString.length ∧
        .exited 0 out err = received text := by
  constructor
  · intro h
    obtain ⟨net, hnet, hexit⟩ := h
    have hshort := (hnet.invariant (short_keeps w)).1 (.client i)
    rw [hexit] at hshort
    exact hshort
  · intro h
    obtain ⟨r, dst, text, hcalls, hzero, hlength, hout⟩ := h
    -- a zero byte ends what is printed, so zeros fill the text up to the right length
    let payload := text ++ List.replicate (r.echoString.length - text.length) 0
    have hfill : payload.length = r.echoString.length := by
      rw [List.length_append, List.length_replicate]
      omega
    have htake : payload.take echoMax = payload := by
      apply List.take_of_length_le
      rw [hfill]
      exact (request_ok hcalls.1).2
    have hforged := (sent_reachable hcalls).others (hw ⟨dst, w.client i, payload⟩)
    obtain ⟨net, hnet, hexit⟩ := receive_reachable hcalls hforged
      (Net.next_node_self _ _ _ _) (List.mem_append_right _ List.mem_cons_self) rfl
    refine ⟨net, hnet, ?_⟩
    rw [hexit, reply_of_length (by rw [htake, hfill]), htake, hout,
      cstring_append_zeros hzero]

theorem twoClients_open_prints : ∃ net, Reachable (twoClients fun _ => True).protocol net ∧
    net.node (.client true) = .exited 0 (bytes "Received: x\n") [] :=
  (open_prints_iff (fun _ => trivial) true _ _).mpr
    ⟨_, _, bytes "x", twoClients_calls _, by decide, by decide, by decide⟩

end PtsTools.Echo
