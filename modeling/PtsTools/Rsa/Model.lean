import Mathlib.Data.List.Basic

/-!
# The RSA functions of `rsatt.cpp`

`OpenSsl` is what the program calls of OpenSSL, and `OpenSsl.Lawful` is what its
documentation says of these calls.  The functions of the program are written
over it, byte for byte.

The three functions that encrypt or decrypt call OpenSSL twice: without a buffer
to learn a size, then with a buffer of that size.  `sizeThenFill` is that
protocol.  It returns the buffer as it is after the second call.

A call that fails ends the process in `handleErrors`, which is `none` here.
Making a context and choosing the OAEP padding always succeed.
-/

namespace PtsTools.Rsa

/-- `ustring`. -/
abbrev Ustring := List UInt8

/-- What the program calls of OpenSSL.  `encrypt` and `decrypt` get the buffer, or
`none` for a null pointer, and the value of `outlen`.  They answer with the
buffer and `outlen` after the call.  `Seed` is what the padding draws. -/
structure OpenSsl (KeyPair PublicKey Seed : Type) where
  pemWritePubkey : KeyPair → Ustring
  pemReadPubkey : Ustring → Option PublicKey
  i2dPublicKey : KeyPair → Ustring
  d2iPublicKey : Ustring → Option PublicKey
  encrypt : PublicKey → Seed → Option Ustring → Nat → Ustring → Option (Ustring × Nat)
  decrypt : KeyPair → Option Ustring → Nat → Ustring → Option (Ustring × Nat)

variable {KeyPair PublicKey Seed : Type}

/-- The buffer after `data` was written at its start. -/
def writeAt (buf data : Ustring) : Ustring := data ++ buf.drop data.length

/-- What OpenSSL promises: the key that is read is the one that was written, the
calls follow the protocol of the two calls, and decryption undoes encryption. -/
structure OpenSsl.Lawful (ossl : OpenSsl KeyPair PublicKey Seed)
    (publicKey : KeyPair → PublicKey) (size : PublicKey → Nat)
    (oaepEncrypt : PublicKey → Seed → Ustring → Ustring)
    (oaepDecrypt : KeyPair → Ustring → Option Ustring) : Prop where
  pemRead_pemWrite : ∀ key, ossl.pemReadPubkey (ossl.pemWritePubkey key) = some (publicKey key)
  d2i_i2d : ∀ key, ossl.d2iPublicKey (ossl.i2dPublicKey key) = some (publicKey key)
  encrypt_null : ∀ pkey seed outlen input,
    ossl.encrypt pkey seed none outlen input = some ([], size pkey)
  encrypt_buffer : ∀ pkey seed buf input, input.length + 42 ≤ size pkey →
    buf.length = size pkey →
      ossl.encrypt pkey seed (some buf) buf.length input =
        some (writeAt buf (oaepEncrypt pkey seed input), (oaepEncrypt pkey seed input).length)
  decrypt_null : ∀ key outlen input,
    ossl.decrypt key none outlen input = some ([], size (publicKey key))
  decrypt_buffer : ∀ key buf input plain, oaepDecrypt key input = some plain →
    buf.length = size (publicKey key) →
      ossl.decrypt key (some buf) buf.length input = some (writeAt buf plain, plain.length)
  length_oaepEncrypt : ∀ pkey seed input, input.length + 42 ≤ size pkey →
    (oaepEncrypt pkey seed input).length = size pkey
  oaepDecrypt_oaepEncrypt : ∀ key seed input, input.length + 42 ≤ size (publicKey key) →
    oaepDecrypt key (oaepEncrypt (publicKey key) seed input) = some input

/-! ## The program -/

/-- A memory `BIO`. -/
abbrev Bio := Ustring

/-- `BIO_write`. -/
def Bio.write (bio : Bio) (data : Ustring) : Bio := bio ++ data

/-- `BIO_pending`. -/
def Bio.pending (bio : Bio) : Nat := bio.length

/-- `BIO_read`, into the start of a buffer. -/
def Bio.read (bio : Bio) (buf : Ustring) (n : Nat) : Ustring := writeAt buf (bio.take n)

/-- `getPemPKey`. -/
def getPemPKey (ossl : OpenSsl KeyPair PublicKey Seed) (key : KeyPair) : Ustring :=
  let pub := Bio.write [] (ossl.pemWritePubkey key)
  let pubLen := Bio.pending pub
  let buf := List.replicate pubLen 0
  Bio.read pub buf pubLen

/-- `getDerKey`. -/
def getDerKey (ossl : OpenSsl KeyPair PublicKey Seed) (key : KeyPair) : Ustring :=
  let pkeyLen := (ossl.i2dPublicKey key).length
  let buf := List.replicate pkeyLen 0
  writeAt buf (ossl.i2dPublicKey key)

/-- The two calls, for an operation that takes the buffer and `outlen`.  The first
`outlen` is not initialised, and the last one is not read. -/
def sizeThenFill (call : Option Ustring → Nat → Option (Ustring × Nat)) (outlen : Nat) :
    Option Ustring := do
  let (_, outlen) ← call none outlen
  let buf := List.replicate outlen 0
  let (buf, _) ← call (some buf) outlen
  return buf

/-- `rsaenc` for a key in PEM form. -/
def rsaencPem (ossl : OpenSsl KeyPair PublicKey Seed) (seed : Seed) (outlen : Nat)
    (pem input : Ustring) : Option Ustring := do
  let pub := Bio.write [] pem
  let key ← ossl.pemReadPubkey pub
  sizeThenFill (fun out outlen => ossl.encrypt key seed out outlen input) outlen

/-- `rsaenc` for a key in DER form. -/
def rsaencDer (ossl : OpenSsl KeyPair PublicKey Seed) (seed : Seed) (outlen : Nat)
    (der input : Ustring) : Option Ustring := do
  let key ← ossl.d2iPublicKey der
  sizeThenFill (fun out outlen => ossl.encrypt key seed out outlen input) outlen

/-- `rsadec`. -/
def rsadec (ossl : OpenSsl KeyPair PublicKey Seed) (outlen : Nat) (key : KeyPair)
    (input : Ustring) : Option Ustring :=
  sizeThenFill (fun out outlen => ossl.decrypt key out outlen input) outlen

end PtsTools.Rsa
