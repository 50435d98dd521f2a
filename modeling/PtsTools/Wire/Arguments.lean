import PtsTools.Wire.Receive

/-!
# Arguments on the wire

`eee.py` joins its arguments with single blanks, and the listener cuts the text
again.  Nothing marks where an argument ended, so an argument with white space
arrives in pieces.  `argsOf_eee` says what arrives for arguments without quotes,
and `eee_args_iff` reads off that the list survives exactly when no argument has
white space.
-/

namespace PtsTools.Wire

open PtsTools.Python PtsTools.Clients PtsTools.Listener

/-- What the listener makes of arguments without quotes: the fields of the joined
text. -/
theorem argsOf_eee (ip : Str) (port : Nat) {args : List Str}
    (hq : ∀ a ∈ args, ∀ c ∈ a, c ∉ Shlex.quotes)
    (hlen : (encode (join [' '] args)).length ≤ 1024) :
    argsOf (datagram ip port (join [' '] args)) = some (Shlex.fields (join [' '] args)) := by
  rw [argsOf, decode_datagram _ hlen, Option.map_some,
    tokenize_eq_fields (of_mem_join (by decide) hq)]

/-- The listener gets the argument list back exactly when no argument has a
blank, a tab, a carriage return or a line feed. -/
theorem eee_args_iff (env : Env) (argv0 : Str) (args : List Str) (src dst : Str) (port : Nat)
    (payload : Bytes) (hne : ∀ a ∈ args, a ≠ []) (hq : ∀ a ∈ args, ∀ c ∈ a, c ∉ Shlex.quotes)
    (hsent : eee env (argv0 :: args) = .sendto dst payload) (hlen : payload.length ≤ 1024) :
    argsOf ⟨src, port, payload⟩ = some args ↔ ∀ a ∈ args, ∀ c ∈ a, c ∉ Shlex.whitespace := by
  have hpayload : payload = encode (join [' '] args) := by
    rw [eee] at hsent
    split_ifs at hsent
    exact (send_eq_sendto hsent).1
  rw [hpayload] at hlen
  have hargs := argsOf_eee src port hq hlen
  rw [datagram, ← hpayload] at hargs
  rw [hargs, Option.some_inj]
  constructor
  · intro h a ha
    rw [← h] at ha
    exact Shlex.notMem_whitespace_of_mem_fields ha
  · intro h
    exact Shlex.fields_join hne h

/-- A command of plain words arrives as it was typed. -/
theorem eee_args_code :
    argsOf ⟨"192.168.217.53".toList, 50000, encode "code.cmd --remote gg8".toList⟩
      = some ["code.cmd".toList, "--remote".toList, "gg8".toList] :=
  (eee_args_iff (session []) "eee".toList ["code.cmd".toList, "--remote".toList, "gg8".toList]
    "192.168.217.53".toList "192.168.217.53".toList 50000 (encode "code.cmd --remote gg8".toList)
    (by decide) (by decide) (by decide) (by decide)).mpr (by decide)

/-- An argument with a blank arrives as two. -/
theorem eee_splits_argument :
    eee (session []) ["eee".toList, "notepad".toList, "my file.txt".toList]
        = .sendto "192.168.217.53".toList (encode "notepad my file.txt".toList) ∧
      argsOf ⟨"192.168.217.53".toList, 50000, encode "notepad my file.txt".toList⟩
        ≠ some ["notepad".toList, "my file.txt".toList] := by
  refine ⟨by decide, ?_⟩
  have h : decode (recvfrom ⟨"192.168.217.53".toList, 50000,
      encode "notepad my file.txt".toList⟩) = some "notepad my file.txt".toList :=
    decode_datagram "notepad my file.txt".toList (by decide)
  rw [argsOf, h]
  decide

end PtsTools.Wire
