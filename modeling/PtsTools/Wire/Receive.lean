import PtsTools.Clients.Model
import PtsTools.Listener.Model

/-!
# From a client to the listener

A client sends the UTF-8 encoding of one command, and the listener reads the
first 1024 bytes of it.  A command that is longer arrives cut off, or does not
decode at all when the cut falls inside a character.  `decode_cut` says what is
left: the front part of the command, with every text that fits in front.
-/

namespace PtsTools.Wire

open PtsTools.Python PtsTools.Clients PtsTools.Listener

/-- The datagram of a client, as the listener receives it. -/
def datagram (ip : Str) (port : Nat) (cmd : Str) : Datagram := ⟨ip, port, encode cmd⟩

/-- A session from one of the addresses that the listener obeys. -/
def session (cwd : Str) : Env where
  sshClient := some "192.168.217.53 50000 22".toList
  cwd := cwd
  repoType := some "git".toList

/-- A command that fits into the buffer arrives whole. -/
theorem decode_datagram {ip : Str} {port : Nat} (cmd : Str) (h : (encode cmd).length ≤ 1024) :
    decode (recvfrom (datagram ip port cmd)) = some cmd := by
  rw [recvfrom, datagram, List.take_of_length_le h, decode_encode]

/-- What decodes is the command up to the cut, and it is the whole command exactly
when that fits into the buffer. -/
theorem decode_cut {ip : Str} {port : Nat} {before rest cmd : Str}
    (hbefore : (encode before).length ≤ 1024)
    (h : decode (recvfrom (datagram ip port (before ++ rest))) = some cmd) :
    ∃ rest', cmd = before ++ rest' ∧ rest' <+: rest ∧
      (rest' = rest ↔ (encode (before ++ rest)).length ≤ 1024) := by
  have htake : encode cmd = (encode (before ++ rest)).take 1024 := encode_of_decode h
  have hcmd : cmd <+: before ++ rest := by
    refine decode_prefix ?_ (decode_encode cmd)
    rw [htake]
    exact List.take_prefix 1024 _
  have hpre : before <+: cmd := by
    rcases List.prefix_or_prefix_of_prefix (List.prefix_append before rest) hcmd with hp | hp
    · exact hp
    · -- The command is no longer than the text in front, so the cut is behind both.
      obtain ⟨u, rfl⟩ := hp
      have hlen := congrArg List.length htake
      rw [encode_append] at hbefore
      simp only [encode_append, List.length_append, List.length_take] at hlen hbefore
      have hu : (encode u).length = 0 := by omega
      have hnil : u = [] := by
        have := length_le_length_encode u
        exact List.eq_nil_of_length_eq_zero (by omega)
      rw [hnil, List.append_nil]
  obtain ⟨rest', rfl⟩ := hpre
  refine ⟨rest', rfl, (List.prefix_append_right_inj before).mp hcmd, ?_⟩
  constructor
  · intro heq
    subst heq
    have hlen := congrArg List.length htake
    rw [List.length_take] at hlen
    omega
  · intro hfit
    rw [List.take_of_length_le hfit] at htake
    exact List.append_cancel_left (encode_injective htake)

/-! ## Commands that arrive whole -/

/-- The clients. -/
inductive Client
  | e
  | ee
  | eee
  deriving DecidableEq, Repr

/-- A run of a client with its arguments. -/
def Client.run : Client → Env → List Str → Sent
  | .e => Clients.e
  | .ee => Clients.ee
  | .eee => Clients.eee

theorem send_payload {env : Env} {cmd ip : Str} {payload : Bytes}
    (h : send env cmd = .sendto ip payload) : ∃ cmd, payload = encode cmd :=
  ⟨cmd, (send_eq_sendto h).1⟩

/-- Every end of `ee.py` that sends a datagram goes through `send`. -/
theorem ee_sendto {env : Env} {argv : List Str} {ip : Str} {payload : Bytes}
    (h : Clients.ee env argv = .sendto ip payload) : ∃ cmd, payload = encode cmd := by
  unfold Clients.ee at h
  cases hrepo : env.repoType with
  | none =>
    rw [hrepo] at h
    exact absurd h (by simp)
  | some repoType =>
    rw [hrepo] at h
    dsimp only at h
    split at h
    · split_ifs at h
      · exact send_payload h
      · exact send_payload h
      · exact send_payload h
      · split at h
        · exact absurd h (by simp)
        · exact send_payload h
      · exact send_payload h
      · exact send_payload h
    · exact absurd h (by simp)

/-- A datagram of a client is the encoding of a command. -/
theorem run_sendto (client : Client) {env : Env} {argv : List Str} {ip : Str} {payload : Bytes}
    (h : client.run env argv = .sendto ip payload) : ∃ cmd, payload = encode cmd := by
  cases client with
  | e =>
    have hsent : Clients.e env argv = .sendto ip payload := h
    unfold Clients.e at hsent
    split at hsent
    · split_ifs at hsent
      split at hsent
      · exact absurd hsent (by simp)
      · exact send_payload hsent
    · exact send_payload hsent
  | ee => exact ee_sendto h
  | eee =>
    have hsent : Clients.eee env argv = .sendto ip payload := h
    unfold Clients.eee at hsent
    split_ifs at hsent
    exact send_payload hsent

/-- The whole command decodes exactly if it fits into the buffer. -/
theorem decode_datagram_iff (ip : Str) (port : Nat) (cmd : Str) :
    decode (recvfrom (datagram ip port cmd)) = some cmd ↔ (encode cmd).length ≤ 1024 := by
  constructor
  · intro hdecode
    have htake : encode cmd = (encode cmd).take 1024 := encode_of_decode hdecode
    have hlen := congrArg List.length htake
    rw [List.length_take] at hlen
    omega
  · intro hfit
    exact decode_datagram cmd hfit

/-- The command of a client arrives exactly if its encoding fits into the buffer of
the listener. -/
theorem arrives_iff (client : Client) {env : Env} {argv : List Str} {ip : Str} {payload : Bytes}
    (h : client.run env argv = .sendto ip payload) (src : Str) (port : Nat) :
    ∃ cmd, payload = encode cmd ∧
      (decode (recvfrom ⟨src, port, payload⟩) = some cmd ↔ payload.length ≤ 1024) := by
  rcases run_sendto client h with ⟨cmd, hpayload⟩
  refine ⟨cmd, hpayload, ?_⟩
  rw [hpayload]
  exact decode_datagram_iff src port cmd

/-- A short command arrives. -/
theorem arrives_explorer :
    ∃ cmd, encode "explorer /home/tsp".toList = encode cmd ∧
      (decode (recvfrom ⟨"192.168.217.53".toList, 50000, encode "explorer /home/tsp".toList⟩) =
        some cmd ↔ (encode "explorer /home/tsp".toList).length ≤ 1024) :=
  arrives_iff .e (by decide : Client.e.run (session "/home/tsp".toList) ["e".toList] =
    .sendto "192.168.217.53".toList (encode "explorer /home/tsp".toList)) _ _

/-- `eee.py` sends a single argument as it is. -/
theorem eee_single (arg : Str) :
    Client.eee.run (session []) ["eee".toList, arg] =
      .sendto "192.168.217.53".toList (encode arg) := by
  have hsplit : split (session []).host =
      ["192.168.217.53".toList, "50000".toList, "22".toList] := by decide
  have hhost : (session []).host ≠ "Not set".toList := by decide
  show Clients.eee (session []) _ = _
  unfold Clients.eee send
  rw [if_neg (by simp), if_neg hhost, hsplit]
  simp [join]

theorem length_encode_letters (n : Nat) : (encode (List.replicate n 'a')).length = n := by
  have hchar : String.utf8EncodeChar 'a' = [97] := by decide
  unfold encode
  rw [List.flatMap_replicate, hchar]
  simp

/-- A command of 1025 letters fits into a datagram and is cut off. -/
theorem cut_letters :
    Client.eee.run (session []) ["eee".toList, List.replicate 1025 'a'] =
        .sendto "192.168.217.53".toList (encode (List.replicate 1025 'a')) ∧
      (encode (List.replicate 1025 'a')).length ≤ 65507 ∧
      decode (recvfrom ⟨"192.168.217.53".toList, 50000, encode (List.replicate 1025 'a')⟩) ≠
        some (List.replicate 1025 'a') := by
  have hlen := length_encode_letters 1025
  refine ⟨eee_single _, by omega, ?_⟩
  intro h
  have hfit := (decode_datagram_iff _ _ _).mp h
  omega

end PtsTools.Wire
