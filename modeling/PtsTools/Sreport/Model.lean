import PtsTools.Lib.Scanf

/-!
# The program `sreport.cpp`

`sreport` reads a diff line by line and prints the paths and the line numbers in
it.  It keeps nothing between two lines: `classify` is the body of the loop.

The locals `left` and `right` are not initialised.  Where a conversion does not
assign one of them, it holds whatever was on the stack, which is the argument
`Locals` of the body.

The buffer `fn` has 1024 bytes, and `%s` has no width, so a longer word in a line
overruns it.  C++ says nothing about a run from there on, and neither does this
model.  The usage text of the program is left out.
-/

namespace PtsTools.Sreport

open PtsTools.Lib.Scanf

/-- One call that prints in the loop: `cout<<fn`, the warning, and the two forms of
line numbers. -/
inductive Output
  | path (fn : Text)
  | warning
  | line (left : Int32)
  | lines (left right : Int32)
  deriving DecidableEq, Repr

/-- What the uninitialised locals hold. -/
structure Locals where
  left : Int32
  right : Int32
  deriving DecidableEq, Repr

/-- The value of an `int` after `sscanf`: the `i`-th assigned value, or what it
held before. -/
def assigned (args : List Arg) (i : Nat) (before : Int32) : Int32 :=
  match args[i]? with
  | some (.int n) => n
  | _ => before

/-- The branch for a hunk header, from the two numbers on. -/
def hunk (left right : Int32) : List Output :=
  let left := left * -1
  let warnings := if left ≤ 1 ∨ right ≤ 1 then [.warning] else []
  let left := left + 3
  let right := right + 3
  warnings ++ if left = right then [.line left] else [.lines left right]

/-- The first conversion stores more than the 1024 bytes of `fn`. -/
def overruns (line : Text) : Bool := (sscanf line "+++ %s").2.any (1024 < ·.size)

/-- The body of the loop for one line that does not overrun `fn`. -/
def classify (line : Text) (locals : Locals) : List Output :=
  let (n, args) := sscanf line "+++ %s"
  if 0 < n then
    match args with
    | .str fn :: _ => [.path fn]
    | _ => []
  else
    let (n, args) := sscanf line "@@ %d,%*d %d,%*d @@"
    if 0 < n then hunk (assigned args 0 locals.left) (assigned args 1 locals.right) else []

/-- The loop over the standard input.  In the `i`-th round the locals hold
`junk i`.  The answer is `none` when the fuel runs out first, and when a line
overruns `fn`. -/
def loop (junk : Nat → Locals) : Nat → Nat → Istream → Option (List Output)
  | 0, _, _ => none
  | fuel + 1, i, cin =>
    let (line, cin) := cin.getline (10240 - 1)
    if cin.eofbit then some []
    else if overruns line then none
    else (loop junk fuel (i + 1) cin).map (classify line (junk i) ++ ·)

/-- The program on an input. -/
def sreport (junk : Nat → Locals) (fuel : Nat) (input : Text) : Option (List Output) :=
  loop junk fuel 0 (.open input)

/-! ## The loop over whole lines -/

/-- What the rounds from the `i`-th on print for these lines. -/
def outputs (junk : Nat → Locals) : Nat → List Text → List Output
  | _, [] => []
  | i, line :: rest => classify line (junk i) ++ outputs junk (i + 1) rest

/-- The lines as they come in. -/
def unlines (ls : List Text) : Text := ls.flatMap (· ++ [10])

/-- A line without a line feed that fits is taken as it is. -/
theorem takeLine_line {line : Text} (hline : 10 ∉ line) {k : Nat} (hlen : line.length ≤ k)
    (rest : Text) : takeLine k (line ++ 10 :: rest) = (line, .delim, rest) := by
  induction line generalizing k with
  | nil => cases k <;> rfl
  | cons c line ih =>
    have hk : k ≠ 0 := by
      rw [List.length_cons] at hlen
      omega
    obtain ⟨k, rfl⟩ := Nat.exists_eq_add_one_of_ne_zero hk
    have hc : c ≠ 10 := fun h => hline (by rw [h]; exact List.mem_cons_self)
    have ih' := ih (fun h => hline (List.mem_cons_of_mem c h)) (by simpa using hlen)
    rw [List.cons_append, takeLine, if_neg hc, ih']

/-- One round of `getline` on such a line. -/
theorem getline_line {line : Text} (hline : 10 ∉ line) {n : Nat} (hlen : line.length ≤ n - 1)
    (rest : Text) : (Istream.open (line ++ 10 :: rest)).getline n = (line, .open rest) := by
  unfold Istream.getline
  simp only [Istream.open, takeLine_line hline hlen]
  rfl

end PtsTools.Sreport
