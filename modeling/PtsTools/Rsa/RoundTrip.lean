import PtsTools.Rsa.Model

/-!
# What comes back from `rsadec`

The buffer of `rsadec` has the size of the modulus, and the message is written
at its start.  The second call sets `outlen` to the length of the message, and
nobody looks at it, so the whole buffer comes back: the message with zero bytes
behind it.  The padding takes 42 bytes at least, so there are always some.

The encryption has the same form, and there it does no harm: a ciphertext fills
its buffer.
-/

namespace PtsTools.Rsa

variable {KeyPair PublicKey Seed : Type} {ossl : OpenSsl KeyPair PublicKey Seed}
  {publicKey : KeyPair → PublicKey} {size : PublicKey → Nat}
  {oaepEncrypt : PublicKey → Seed → Ustring → Ustring}
  {oaepDecrypt : KeyPair → Ustring → Option Ustring}

/-- The buffer after both calls: what the second one wrote, and zero bytes. -/
theorem sizeThenFill_eq {call : Option Ustring → Nat → Option (Ustring × Nat)} {outlen k n : Nat}
    {data : Ustring} (hnull : call none outlen = some ([], k))
    (hbuffer : call (some (List.replicate k 0)) k = some (writeAt (List.replicate k 0) data, n)) :
    sizeThenFill call outlen = some (data ++ List.replicate (k - data.length) 0) := by
  rw [sizeThenFill, hnull]
  show (call (some (List.replicate k 0)) k).bind _ = _
  rw [hbuffer, writeAt, List.drop_replicate]
  rfl

/-- The PEM text is what OpenSSL wrote. -/
theorem getPemPKey_eq (ossl : OpenSsl KeyPair PublicKey Seed) (key : KeyPair) :
    getPemPKey ossl key = ossl.pemWritePubkey key := by
  simp [getPemPKey, Bio.write, Bio.pending, Bio.read, writeAt]

/-- The DER bytes are what OpenSSL wrote. -/
theorem getDerKey_eq (ossl : OpenSsl KeyPair PublicKey Seed) (key : KeyPair) :
    getDerKey ossl key = ossl.i2dPublicKey key := by
  simp [getDerKey, writeAt]

variable (hl : ossl.Lawful publicKey size oaepEncrypt oaepDecrypt)
include hl

/-- The encryption with a public key gives exactly the ciphertext. -/
theorem encrypt_eq (pkey : PublicKey) (seed : Seed) (outlen : Nat) {input : Ustring}
    (hlen : input.length + 42 ≤ size pkey) :
    sizeThenFill (fun out outlen => ossl.encrypt pkey seed out outlen input) outlen =
      some (oaepEncrypt pkey seed input) := by
  have hbuffer := hl.encrypt_buffer pkey seed (List.replicate (size pkey) 0) input hlen (by simp)
  rw [List.length_replicate] at hbuffer
  rw [sizeThenFill_eq (hl.encrypt_null pkey seed outlen input) hbuffer,
    hl.length_oaepEncrypt pkey seed input hlen]
  simp

/-- Both forms of the key encrypt with the same public key. -/
theorem rsaenc_eq (key : KeyPair) (seed : Seed) (outlen : Nat) {input : Ustring}
    (hlen : input.length + 42 ≤ size (publicKey key)) :
    rsaencPem ossl seed outlen (getPemPKey ossl key) input =
        some (oaepEncrypt (publicKey key) seed input) ∧
      rsaencDer ossl seed outlen (getDerKey ossl key) input =
        some (oaepEncrypt (publicKey key) seed input) := by
  have henc := encrypt_eq hl (publicKey key) seed outlen hlen
  constructor
  · rw [rsaencPem, getPemPKey_eq, Bio.write, List.nil_append, hl.pemRead_pemWrite]
    exact henc
  · rw [rsaencDer, getDerKey_eq, hl.d2i_i2d]
    exact henc

/-- The decryption of a ciphertext gives the message and zero bytes up to the
size of the modulus. -/
theorem rsadec_eq (key : KeyPair) (seed : Seed) (outlen : Nat) {input : Ustring}
    (hlen : input.length + 42 ≤ size (publicKey key)) :
    rsadec ossl outlen key (oaepEncrypt (publicKey key) seed input) =
      some (input ++ List.replicate (size (publicKey key) - input.length) 0) := by
  have hbuffer := hl.decrypt_buffer key (List.replicate (size (publicKey key)) 0) _ input
    (hl.oaepDecrypt_oaepEncrypt key seed input hlen) (by simp)
  rw [List.length_replicate] at hbuffer
  exact sizeThenFill_eq (hl.decrypt_null key outlen _) hbuffer

omit hl

/-- No message comes back as it was, whatever its length and the form of the key:
`rsadec` returns it with zero bytes up to the size of the modulus. -/
theorem rsadec_rsaenc (ossl : OpenSsl KeyPair PublicKey Seed) (publicKey : KeyPair → PublicKey)
    (size : PublicKey → Nat) (oaepEncrypt : PublicKey → Seed → Ustring → Ustring)
    (oaepDecrypt : KeyPair → Ustring → Option Ustring)
    (hl : ossl.Lawful publicKey size oaepEncrypt oaepDecrypt) (key : KeyPair) (seed : Seed)
    (outlen outlen' : Nat) (m : Ustring)
    (hlen : m.length + 42 ≤ size (publicKey key)) :
    ∃ c, rsaencPem ossl seed outlen (getPemPKey ossl key) m = some c ∧
      rsaencDer ossl seed outlen (getDerKey ossl key) m = some c ∧
      rsadec ossl outlen' key c =
        some (m ++ List.replicate (size (publicKey key) - m.length) 0) ∧
      rsadec ossl outlen' key c ≠ some m := by
  obtain ⟨hpem, hder⟩ := rsaenc_eq hl key seed outlen hlen
  have hdec := rsadec_eq hl key seed outlen' hlen
  refine ⟨_, hpem, hder, hdec, ?_⟩
  rw [hdec, ne_eq, Option.some_inj]
  intro h
  have hsize := congrArg List.length h
  rw [List.length_append, List.length_replicate] at hsize
  omega

/-! ## An instance -/

/-- A stand-in for the encryption with a modulus of 256 bytes: the length of the
message, the message, and zero bytes. -/
def plainEncrypt (input : Ustring) : Ustring :=
  UInt8.ofNat input.length :: (input ++ List.replicate (255 - input.length) 0)

/-- The decryption for it. -/
def plainDecrypt : Ustring → Option Ustring
  | [] => none
  | n :: rest => some (rest.take n.toNat)

/-- A library with one key and that encryption. -/
def plainSsl : OpenSsl Unit Unit Unit where
  pemWritePubkey _ := [45, 45]
  pemReadPubkey _ := some ()
  i2dPublicKey _ := [48]
  d2iPublicKey _ := some ()
  encrypt _ _ out _ input :=
    match out with
    | none => some ([], 256)
    | some buf =>
      if input.length + 42 ≤ 256 then
        some (writeAt buf (plainEncrypt input), (plainEncrypt input).length)
      else none
  decrypt _ out _ input :=
    match out with
    | none => some ([], 256)
    | some buf => (plainDecrypt input).map fun plain => (writeAt buf plain, plain.length)

theorem plainSsl_lawful :
    plainSsl.Lawful (fun _ => ()) (fun _ => 256) (fun _ _ => plainEncrypt)
      (fun _ => plainDecrypt) where
  pemRead_pemWrite _ := rfl
  d2i_i2d _ := rfl
  encrypt_null _ _ _ _ := rfl
  encrypt_buffer _ _ _ _ hlen _ := if_pos hlen
  decrypt_null _ _ _ := rfl
  decrypt_buffer _ _ input plain h _ := by
    show (plainDecrypt input).map _ = _
    rw [h]
    rfl
  length_oaepEncrypt _ _ input hlen := by
    simp [plainEncrypt]
    omega
  oaepDecrypt_oaepEncrypt _ _ input hlen := by
    have htake : (UInt8.ofNat input.length).toNat = input.length := by
      rw [UInt8.toNat_ofNat']
      omega
    rw [plainEncrypt, plainDecrypt, htake, List.take_left]

/-- Two bytes come back as 256. -/
theorem rsadec_rsaenc_hi :
    ∃ c, rsaencPem plainSsl () 0 (getPemPKey plainSsl ()) [104, 105] = some c ∧
      rsaencDer plainSsl () 0 (getDerKey plainSsl ()) [104, 105] = some c ∧
      rsadec plainSsl 0 () c = some ([104, 105] ++ List.replicate 254 0) ∧
      rsadec plainSsl 0 () c ≠ some [104, 105] :=
  rsadec_rsaenc plainSsl _ _ _ _ plainSsl_lawful () () 0 0 [104, 105] (by decide)

/-- The message is not what comes back, so decryption does not undo encryption. -/
theorem rsadec_pads_hi :
    (rsaencPem plainSsl () 0 (getPemPKey plainSsl ()) [104, 105]).bind (rsadec plainSsl 0 ())
      ≠ some [104, 105] := by
  decide +kernel

end PtsTools.Rsa
