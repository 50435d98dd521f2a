import Mathlib.Data.List.DropRight

/-!
# The program `exported.cpp`

`exported` reads an INI file that a device exported, takes the salt and the stamp of
the key from it, makes a key of a passphrase and prints the passwords in the file.

The functions of `tta` are not in the repository.  They are in a `Tta`, and return
normally on every input.  An INI tree is what `tree.get` finds under a path.  Where
the program copies more bytes than a vector holds, or takes an element that a vector
does not have, its run ends, and an `Ending` says how.
-/

namespace PtsTools.Exported

/-- A `std::string`. -/
abbrev Text := List Char

/-- A `std::vector<unsigned char>`. -/
abbrev Bytes := List UInt8

/-- What the program uses of `tta`. -/
structure Tta where
  fromBase64 : Text → Bytes
  toBase64 : Bytes → Text
  getKey : (passphrase : Text) → (salt : Bytes) → Bytes
  toHash64 : Bytes → Text
  fromAes64 : Text → (key : Bytes) → Text
  toAes64 : Text → (key : Bytes) → Text
  /-- `sizeof salt.salt` -/
  sizeofSalt : Nat
  /-- `sizeof key.key` -/
  sizeofKey : Nat
  keyLen : Nat
  kniLen : Nat

/-- An INI tree: the value under a path. -/
abbrev Ini := Text → Option Text

/-- `e.what()` for a path that is not there. -/
def noSuchNode (path : Text) : Text := "No such node (".toList ++ path ++ ")".toList

/-! ## The salt entry -/

/-- `salt.erase(remove(salt.begin(), salt.end(), '"'), salt.end())` -/
def eraseQuotes (s : Text) : Text := s.filter (· ≠ '"')

/-- `is_any_of(" \"")` -/
def blankOrQuote (c : Char) : Bool := c = ' ' || c = '"'

/-- `trim_if(a, is_any_of(" \""))` -/
def trim (a : Text) : Text := (a.dropWhile blankOrQuote).rdropWhile blankOrQuote

/-- `split(sns, salt, is_any_of(","), token_compress_on)`: adjacent commas are one, and
an empty token is only there in front of the first one and behind the last. -/
def splitCompress (s : Text) : List Text :=
  match s.splitOnP (· = ',') with
  | [] => []
  | first :: rest =>
    match rest.getLast? with
    | none => [first]
    | some last => first :: (rest.dropLast.filter (· ≠ []) ++ [last])

/-- The tokens of the salt entry. -/
def tokens (salt : Text) : List Text := (splitCompress (eraseQuotes salt)).map trim

/-! ## The report -/

def decimal (n : Nat) : Text := Nat.toDigits 10 n

/-- `%02x` -/
def hex (b : UInt8) : Text :=
  [Nat.digitChar (b.toNat / 16), Nat.digitChar (b.toNat % 16)]

/-- The bytes of the key, with a new line in front of the one at `key_len`. -/
def hexLines (keyLen : Nat) (keyv : Bytes) : List Text :=
  if keyLen < keyv.length then
    [(keyv.take keyLen).flatMap hex, (keyv.drop keyLen).flatMap hex]
  else [keyv.flatMap hex]

/-- `passwords`. -/
def passwords : List Text :=
  ["General.user_ttapassword".toList, "General.camera_ttapassword".toList,
    "General.ddns_wns_password".toList, "General.ddns_custom_pass".toList,
    "General.xdsl_password".toList, "General.event_email_userpass".toList,
    "General.event_ftp_password".toList]

/-- What is printed for one of the passwords. -/
def passwordLines (tta : Tta) (ini : Ini) (key : Bytes) (var : Text) : List Text :=
  (var ++ ":".toList) ::
    ((match ini var with
      | some a => [eraseQuotes a, tta.fromAes64 (eraseQuotes a) key]
      | none => [noSuchNode var]) ++ [[]])

/-- `test2`. -/
def test2 : Text := "12345,12345,,,,,,,,,,,,,,,,,,,,,,,,,,,,,,,,,,".toList

/-- The first lines behind the message that the passphrase is right. -/
def keyLines (tta : Tta) (keyv : Bytes) : List Text :=
  ["keyv64: ".toList ++ tta.toBase64 keyv] ++ hexLines tta.keyLen keyv ++ [[]]

/-- All lines behind that message. -/
def report (tta : Tta) (ini : Ini) (keyv : Bytes) : List Text :=
  let key := keyv.take tta.sizeofKey
  keyLines tta keyv ++
    ["keyv sz ".toList ++ decimal keyv.length ++ ", sizeof key.key ".toList ++
      decimal tta.sizeofKey] ++
    passwords.flatMap (passwordLines tta ini key) ++
    ["test camera_ttapasswd:".toList, test2, tta.toAes64 test2 key]

/-! ## `main` -/

/-- What the program prints. -/
inductive Event
  /-- a token of the salt entry -/
  | token (a : Text)
  /-- the message of the exception for a salt entry -/
  | badSalt (message : Text)
  /-- `keyv sz …?` -/
  | keySize (size : Nat)
  /-- the message that the passphrase is right, with the lines behind it -/
  | passed (lines : List Text)
  /-- the message that it is wrong -/
  | wrong
  deriving DecidableEq, Repr

/-- How a run ends. -/
inductive Ending
  /-- `return 0` -/
  | returned
  /-- a `std::out_of_range` that nothing catches -/
  | outOfRange
  /-- a copy of more bytes than a vector holds -/
  | overread (copied held : Nat)
  deriving DecidableEq, Repr

/-- A run. -/
structure Run where
  events : List Event
  ending : Ending
  deriving DecidableEq, Repr

/-- The first part of `main`: the tokens, and what is printed on the way. -/
def readSalt (ini : Ini) : List Text × List Event :=
  match ini "General.salt".toList with
  | some salt => (tokens salt, (tokens salt).map .token)
  | none => ([], [.badSalt (noSuchNode "General.salt".toList)])

/-- The part of `main` behind the key. -/
def checkKey (tta : Tta) (ini : Ini) (events : List Event) (stamp : Text) (keyv : Bytes) : Run :=
  if keyv.length < tta.kniLen then
    { events := events ++ [.keySize keyv.length], ending := .returned }
  else if stamp = tta.toHash64 keyv then
    if keyv.length < tta.sizeofKey then
      { events := events ++ [.passed (keyLines tta keyv)],
        ending := .overread tta.sizeofKey keyv.length }
    else { events := events ++ [.passed (report tta ini keyv)], ending := .returned }
  else { events := events ++ [.wrong], ending := .returned }

/-- `main`, from the INI tree and the second argument on. -/
def main (tta : Tta) (ini : Ini) (passphrase : Option Text) : Run :=
  let pp := passphrase.getD "11111".toList
  let (sns, events) := readSalt ini
  match sns[0]? with
  | none => { events := events, ending := .outOfRange }
  | some salt64 =>
    let saltv := tta.fromBase64 salt64
    if saltv.length < tta.sizeofSalt then
      { events := events, ending := .overread tta.sizeofSalt saltv.length }
    else
      match sns[1]? with
      | none => { events := events, ending := .outOfRange }
      | some stamp => checkKey tta ini events stamp (tta.getKey pp (saltv.take tta.sizeofSalt))

end PtsTools.Exported
