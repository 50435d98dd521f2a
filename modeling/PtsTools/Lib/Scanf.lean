import Mathlib.Data.Nat.Digits.Defs
import Mathlib.Data.List.TakeWhile

/-!
# Reading text in C and C++

`sscanf` for the directives that skip white space, match a character, and read a
number or a word, and `std::istream::getline`.  A text is a list of bytes.

* White space in a format matches any amount of white space, also none.  Any
  other character matches itself only.
* `%d` and `%s` skip white space first.  A number is a sign, if there is one,
  and decimal digits.  It goes through `strtol`, which clamps, into an `int`.
* `sscanf` reads a C string, so it sees nothing behind a zero byte.

A word of any length is a value here, while C stores it, with a zero byte behind it,
into a buffer of the caller that may be smaller: `Arg.size` is what a value takes.

`sscanf` answers with the number of assigned values, or with -1 if the text ends
before the first conversion.  `scanInt_signed` and `scanInt_unsigned` say what
`%d` makes of a text that starts with a decimal number.
-/

namespace PtsTools.Lib.Scanf

/-- A text in C. -/
abbrev Text := List UInt8

/-- The bytes of an ASCII literal. -/
def bytes (s : String) : Text := s.toList.map fun c => UInt8.ofNat c.toNat

/-- `isspace` in the C locale. -/
def isspace (b : UInt8) : Bool := b = 32 || (9 ≤ b && b ≤ 13)

/-- `isdigit`. -/
def isdigit (b : UInt8) : Bool := 48 ≤ b && b ≤ 57

/-- The text up to the first zero byte. -/
def cstring (s : Text) : Text := s.takeWhile (· ≠ 0)

/-! ## Formats -/

/-- A directive of a format. -/
inductive Directive
  | space
  | lit (b : UInt8)
  | int (assign : Bool)
  | str
  deriving DecidableEq, Repr

/-- The directives of a format. -/
def format : List Char → List Directive
  | '%' :: '*' :: 'd' :: rest => .int false :: format rest
  | '%' :: 'd' :: rest => .int true :: format rest
  | '%' :: 's' :: rest => .str :: format rest
  | c :: rest =>
    let b := UInt8.ofNat c.toNat
    (if isspace b then .space else .lit b) :: format rest
  | [] => []

/-- A value that a conversion assigns. -/
inductive Arg
  | int (n : Int32)
  | str (s : Text)
  deriving DecidableEq, Repr

/-- The bytes that a value takes: those of an `int`, or a word and its zero byte. -/
def Arg.size : Arg → Nat
  | .int _ => 4
  | .str s => s.length + 1

/-! ## Conversions -/

/-- The number that a list of digits stands for. -/
def digitsValue (ds : Text) : Nat := ds.foldl (fun v d => 10 * v + (d.toNat - 48)) 0

/-- What `%d` stores for a number: `strtol` clamps it to 64 bits, and an `int`
keeps the lower half. -/
def toInt (z : Int) : Int32 := Int32.ofInt (max (-2 ^ 63) (min z (2 ^ 63 - 1)))

/-- The sign of a number, and the text behind it. -/
def scanSign : Text → Int × Text
  | 45 :: s => (-1, s)
  | 43 :: s => (1, s)
  | s => (1, s)

/-- A number and the text behind it. -/
def scanInt (s : Text) : Option (Int × Text) :=
  let (sign, t) := scanSign s
  match t.takeWhile isdigit with
  | [] => none
  | ds => some (sign * digitsValue ds, t.dropWhile isdigit)

/-- The conversions of a format.  The second component says that the text ended
before a conversion was done, and `done` that one has been done already. -/
def scan : Bool → List Directive → Text → List Arg × Bool
  | _, [], _ => ([], false)
  | done, .space :: ds, s => scan done ds (s.dropWhile isspace)
  | done, .lit _ :: _, [] => ([], !done)
  | done, .lit b :: ds, c :: s => if c = b then scan done ds s else ([], false)
  | done, .int assign :: ds, s =>
    match scanInt (s.dropWhile isspace) with
    | none => ([], !done && s.dropWhile isspace = [])
    | some (z, rest) =>
      let (args, eof) := scan true ds rest
      (if assign then .int (toInt z) :: args else args, eof)
  | done, .str :: ds, s =>
    match s.dropWhile isspace with
    | [] => ([], !done)
    | t =>
      let (args, eof) := scan true ds (t.dropWhile (! isspace ·))
      (.str (t.takeWhile (! isspace ·)) :: args, eof)

/-- `sscanf`: the answer and the values. -/
def sscanf (s : Text) (fmt : String) : Int × List Arg :=
  let (args, eof) := scan false (format fmt.toList) (cstring s)
  (if args = [] ∧ eof then -1 else args.length, args)

/-- `atoi`, which is a conversion of `strtol` to `int`. -/
def atoi (s : Text) : Int32 :=
  match scanInt ((cstring s).dropWhile isspace) with
  | none => 0
  | some (z, _) => toInt z

/-! ## `std::istream::getline` -/

/-- An input stream. -/
structure Istream where
  rest : Text
  eofbit : Bool
  failbit : Bool
  deriving DecidableEq, Repr

/-- A stream at its start. -/
def Istream.open (s : Text) : Istream := ⟨s, false, false⟩

/-- How the characters of a line end. -/
inductive LineEnd
  | eof
  | delim
  | full
  deriving DecidableEq, Repr

/-- At most `k` characters, up to a line feed, which is taken and not stored. -/
def takeLine : Nat → Text → Text × LineEnd × Text
  | _, [] => ([], .eof, [])
  | 0, c :: s => if c = 10 then ([], .delim, s) else ([], .full, c :: s)
  | k + 1, c :: s =>
    if c = 10 then ([], .delim, s)
    else
      let (line, last, rest) := takeLine k s
      (c :: line, last, rest)

/-- `getline(line, n)`. -/
def Istream.getline (cin : Istream) (n : Nat) : Text × Istream :=
  if cin.eofbit || cin.failbit then ([], { cin with failbit := true })
  else
    match takeLine (n - 1) cin.rest with
    | (line, .eof, rest) => (line, ⟨rest, true, line = []⟩)
    | (line, .delim, rest) => (line, ⟨rest, false, false⟩)
    | (line, .full, rest) => (line, ⟨rest, false, true⟩)

/-! ## Decimal numbers -/

/-- A number in decimal digits. -/
def decimal (n : Nat) : Text :=
  if n = 0 then [48] else (Nat.digits 10 n).reverse.map fun d => UInt8.ofNat (48 + d)

theorem toNat_digit {d : Nat} (hd : d < 10) : (UInt8.ofNat (48 + d)).toNat = 48 + d := by
  rw [UInt8.toNat_ofNat']
  omega

theorem isdigit_digit {d : Nat} (hd : d < 10) : isdigit (UInt8.ofNat (48 + d)) = true := by
  have hall : ∀ d < 10, isdigit (UInt8.ofNat (48 + d)) = true := by decide
  exact hall d hd

/-- A decimal number consists of digits. -/
theorem isdigit_of_mem_decimal {n : Nat} {b : UInt8} (h : b ∈ decimal n) : isdigit b = true := by
  unfold decimal at h
  split_ifs at h with hn
  · rw [List.mem_singleton.mp h]
    decide
  · obtain ⟨d, hd, rfl⟩ := List.mem_map.mp h
    exact isdigit_digit (Nat.digits_lt_base (by omega) (List.mem_reverse.mp hd))

theorem decimal_ne_nil (n : Nat) : decimal n ≠ [] := by
  unfold decimal
  split_ifs with hn
  · simp
  · rw [ne_eq, List.map_eq_nil_iff, List.reverse_eq_nil_iff]
    exact Nat.digits_ne_nil_iff_ne_zero.mpr hn

/-- The digits of a number stand for that number. -/
theorem digitsValue_decimal (n : Nat) : digitsValue (decimal n) = n := by
  unfold decimal
  split_ifs with hn
  · subst hn
    rfl
  · have hfold : ∀ ds : List Nat, (∀ d ∈ ds, d < 10) →
        digitsValue (ds.reverse.map fun d => UInt8.ofNat (48 + d)) = Nat.ofDigits 10 ds := by
      intro ds
      induction ds with
      | nil => intro _; rfl
      | cons d ds ih =>
        intro hds
        have hd := hds d List.mem_cons_self
        have ih' := ih fun e he => hds e (List.mem_cons_of_mem d he)
        rw [digitsValue] at ih' ⊢
        rw [List.reverse_cons, List.map_append, List.foldl_append, ih', Nat.ofDigits_cons]
        simp only [List.map_cons, List.map_nil, List.foldl_cons, List.foldl_nil, toNat_digit hd]
        omega
    rw [hfold _ fun d hd => Nat.digits_lt_base (by omega) hd, Nat.ofDigits_digits]

/-- A text that starts with digits and goes on with another character. -/
theorem takeWhile_digits {ds : Text} (hds : ∀ b ∈ ds, isdigit b = true) {c : UInt8}
    (hc : isdigit c = false) (s : Text) :
    (ds ++ c :: s).takeWhile isdigit = ds ∧ (ds ++ c :: s).dropWhile isdigit = c :: s := by
  rw [List.takeWhile_append_of_pos hds, List.dropWhile_append_of_pos hds]
  simp [hc]

/-- `%d` reads the digits behind the sign. -/
theorem scanInt_eq {s t ds : Text} {sign : Int} (hsign : scanSign s = (sign, t))
    (htake : t.takeWhile isdigit = ds) (hne : ds ≠ []) :
    scanInt s = some (sign * digitsValue ds, t.dropWhile isdigit) := by
  unfold scanInt
  rw [hsign]
  simp only [htake]

/-- `%d` reads a decimal number with a sign. -/
theorem scanInt_signed {g : UInt8} {sign : Int} (hg : g = 45 ∧ sign = -1 ∨ g = 43 ∧ sign = 1)
    (n : Nat) {c : UInt8} (hc : isdigit c = false) (s : Text) :
    scanInt (g :: (decimal n ++ c :: s)) = some (sign * n, c :: s) := by
  obtain ⟨htake, hdrop⟩ := takeWhile_digits (fun _ => isdigit_of_mem_decimal (n := n)) hc s
  have hsign : scanSign (g :: (decimal n ++ c :: s)) = (sign, decimal n ++ c :: s) := by
    rcases hg with ⟨rfl, rfl⟩ | ⟨rfl, rfl⟩ <;> rfl
  rw [scanInt_eq hsign htake (decimal_ne_nil n), digitsValue_decimal, hdrop]

/-- `%d` reads a decimal number without a sign. -/
theorem scanInt_unsigned (n : Nat) {c : UInt8} (hc : isdigit c = false) (s : Text) :
    scanInt (decimal n ++ c :: s) = some ((n : Int), c :: s) := by
  obtain ⟨htake, hdrop⟩ := takeWhile_digits (fun _ => isdigit_of_mem_decimal (n := n)) hc s
  obtain ⟨d, ds, hd⟩ := List.exists_cons_of_ne_nil (decimal_ne_nil n)
  have hdigit : isdigit d = true := isdigit_of_mem_decimal (n := n) (by rw [hd]; simp)
  have hsign : scanSign (decimal n ++ c :: s) = (1, decimal n ++ c :: s) := by
    have h45 : d ≠ 45 := by
      intro heq
      subst heq
      exact absurd hdigit (by decide)
    have h43 : d ≠ 43 := by
      intro heq
      subst heq
      exact absurd hdigit (by decide)
    rw [hd, List.cons_append, scanSign]
    · simpa using h45
    · simpa using h43
  rw [scanInt_eq hsign htake (decimal_ne_nil n), digitsValue_decimal, hdrop, one_mul]

end PtsTools.Lib.Scanf
