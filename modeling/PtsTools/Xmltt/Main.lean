import PtsTools.Python.Getopt
import PtsTools.Xmltt.Model

/-!
# The arguments of `xmltt.py`

`main` reads its arguments with `getopt` and goes through the options in their order.
`-h` ends the run at once, and a later tag replaces an earlier one.  `meaning` says what
the options ask for without their order, and `main_cases` that `main` does that for
everything that can be written with its options, and refuses everything else.

`parse` is what `parse_xml` does with a file and a tag: `parseXml` of the document in the
file, where it can be read and the tag is a name.
-/

namespace PtsTools.Xmltt

open PtsTools.Python PtsTools.Python.Getopt

/-! ## `main` -/

/-- `"hst:"` and `["help", "silence", "tag="]` -/
def options : Options where
  shortopts := "hst:".toList
  longopts := ["help".toList, "silence".toList, "tag=".toList]

/-- A message on the standard error.  The message about the arguments shows them as a
list of Python. -/
inductive Notice
  | text (t : Str)
  | arguments (args : List Str) (tag : Str)
  deriving DecidableEq, Repr

/-- The message of `usage`. -/
def usage : Notice :=
  .text ("\nTesting xml node. v1.0\nnotice(\"usage: testxml -t tag <filename>\n".toList ++
    "-h, --help:\tThis message\n-t, --tag:\tTag name is mandatory.\n".toList ++
    "-s, --silence:\tDon't print out the result.\n".toList)

/-- How a run of the script ends. -/
inductive Ending
  | returned
  | exit (status : Nat)
  /-- `args[0]` of an empty list -/
  | indexError
  deriving DecidableEq, Repr

/-- A run of the script. -/
structure Run where
  notices : List Notice
  printed : List Report
  ending : Ending
  deriving DecidableEq, Repr

/-- The loop over the options, on the tag and `option_silence`.  There is no answer if
`-h` ends it. -/
def readOpts : List Pair → Str × Bool → Option (Str × Bool)
  | [], st => some st
  | (opt, arg) :: opts, st =>
    if opt = "-h".toList ∨ opt = "--help".toList then none
    else if opt = "-t".toList ∨ opt = "--tag".toList then readOpts opts (arg, st.2)
    else if opt = "-s".toList ∨ opt = "--silence".toList then readOpts opts (st.1, true)
    else readOpts opts st

/-- `parse_xml` for a file, as `main` calls it. -/
def runParse (parse : Str → Str → Outcome) (args : List Str) (tag : Str) (silence : Bool) :
    Run :=
  match args with
  | [] => ⟨[], [], .indexError⟩
  | file :: _ =>
    let o := parse file tag
    { notices := .arguments args tag :: o.notices.map .text
      printed := o.printed silence
      ending :=
        match o.exit with
        | some status => .exit status
        | none => .returned }

/-- `main`. -/
def main (parse : Str → Str → Outcome) (argv : List Str) : Run :=
  match getopt options argv with
  | none => ⟨[usage, .text "I've gotten error.".toList], [], .exit 2⟩
  | some (opts, args) =>
    match readOpts opts ([], false) with
    | none => ⟨[usage], [], .exit 2⟩
    | some (tag, silence) =>
      if tag = [] then ⟨[usage], [], .exit 2⟩ else runParse parse args tag silence

/-! ## What the options ask for -/

def isHelp (p : Pair) : Bool := p.1 = "-h".toList || p.1 = "--help".toList

def isTag (p : Pair) : Bool := p.1 = "-t".toList || p.1 = "--tag".toList

def isSilence (p : Pair) : Bool := p.1 = "-s".toList || p.1 = "--silence".toList

/-- The last tag. -/
def lastTag (opts : List Pair) : Str := ((opts.filter isTag).getLast?.map Prod.snd).getD []

/-- What options and arguments ask for: the usage, if it is asked for or no tag is named,
or else the last tag in the file, without a report if any option asks for silence. -/
def meaning (parse : Str → Str → Outcome) (opts : List Pair) (args : List Str) : Run :=
  if opts.any isHelp ∨ lastTag opts = [] then ⟨[usage], [], .exit 2⟩
  else runParse parse args (lastTag opts) (opts.any isSilence)

/-- Arguments as they can be written: some options, and the arguments behind them. -/
structure Reading (argv : List Str) (opts : List Pair) (args : List Str) : Prop where
  written : ∃ ws : List Written, ∃ tail, (∀ w ∈ ws, w.Valid options) ∧ Ends tail args ∧
    argv = ws.flatMap Written.words ++ tail ∧ opts = ws.flatMap Written.pairs

/-- The last tag of some options, behind an earlier one. -/
def tagBehind (first : Str) (opts : List Pair) : Str :=
  ((opts.filter isTag).getLast?.map Prod.snd).getD first

theorem tagBehind_tag {p : Pair} (h : isTag p = true) (first : Str) (opts : List Pair) :
    tagBehind first (p :: opts) = tagBehind p.2 opts := by
  unfold tagBehind
  rw [List.filter_cons_of_pos h, List.getLast?_cons]
  cases (opts.filter isTag).getLast? with
  | none => rfl
  | some q => rfl

theorem tagBehind_other {p : Pair} (h : isTag p = false) (first : Str) (opts : List Pair) :
    tagBehind first (p :: opts) = tagBehind first opts := by
  unfold tagBehind
  rw [List.filter_cons_of_neg (by rw [h]; decide)]

theorem isSilence_of_isTag {p : Pair} (h : isTag p = true) : isSilence p = false := by
  unfold isTag isSilence at *
  rw [Bool.or_eq_true, decide_eq_true_eq, decide_eq_true_eq] at h
  rcases h with h | h
  · rw [h]
    decide
  · rw [h]
    decide

/-- One round of the loop. -/
theorem readOpts_cons (p : Pair) (opts : List Pair) (st : Str × Bool) :
    readOpts (p :: opts) st =
      if isHelp p then none
      else if isTag p then readOpts opts (p.2, st.2)
      else if isSilence p then readOpts opts (st.1, true)
      else readOpts opts st := by
  obtain ⟨opt, arg⟩ := p
  simp only [readOpts, isHelp, isTag, isSilence, Bool.or_eq_true, decide_eq_true_eq]

/-- The loop goes through the options to the end unless `-h` is among them. -/
theorem readOpts_eq (opts : List Pair) (tag : Str) (silence : Bool) :
    readOpts opts (tag, silence) =
      if opts.any isHelp then none
      else some (tagBehind tag opts, silence || opts.any isSilence) := by
  induction opts generalizing tag silence with
  | nil => simp [readOpts, tagBehind]
  | cons p opts ih =>
    rw [readOpts_cons, List.any_cons, List.any_cons]
    cases hhelp : isHelp p with
    | true => rfl
    | false =>
      cases htag : isTag p with
      | true =>
        rw [tagBehind_tag htag, isSilence_of_isTag htag]
        exact ih p.2 silence
      | false =>
        rw [tagBehind_other htag]
        cases hsilence : isSilence p with
        | true =>
          rw [Bool.true_or, Bool.or_true]
          exact (ih tag true).trans (by rw [Bool.true_or]; rfl)
        | false => exact ih tag silence

theorem getopt_iff_reading {argv args : List Str} {opts : List Pair} :
    getopt options argv = some (opts, args) ↔ Reading argv opts args := by
  rw [getopt_eq_some_iff]
  exact ⟨fun h => ⟨h⟩, fun h => h.written⟩

/-- What `main` does with any arguments: what the options ask for, if the arguments can
be written with its options, and otherwise the usage with an error. -/
theorem main_cases (parse : Str → Str → Outcome) (argv : List Str) :
    (∃ opts args, Reading argv opts args ∧ main parse argv = meaning parse opts args) ∨
      ((¬ ∃ opts args, Reading argv opts args) ∧
        main parse argv = ⟨[usage, .text "I've gotten error.".toList], [], .exit 2⟩) := by
  cases hgetopt : getopt options argv with
  | none =>
    right
    refine ⟨?_, ?_⟩
    · intro h
      obtain ⟨opts, args, hreading⟩ := h
      rw [getopt_iff_reading.mpr hreading] at hgetopt
      cases hgetopt
    · unfold main
      rw [hgetopt]
  | some r =>
    obtain ⟨opts, args⟩ := r
    refine Or.inl ⟨opts, args, getopt_iff_reading.mp hgetopt, ?_⟩
    unfold main meaning lastTag
    rw [hgetopt]
    dsimp only
    rw [readOpts_eq]
    cases hhelp : opts.any isHelp with
    | true => rfl
    | false => simp [tagBehind]

end PtsTools.Xmltt
