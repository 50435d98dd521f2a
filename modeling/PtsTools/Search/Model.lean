import Mathlib.Data.List.DropRight
import PtsTools.Lib.Find

/-!
# The search `findcc` of `hidvr.aliases.sh`

`findcc0` runs `find` from a path, and `egrep` on the source files that it meets
outside `./.venv`.  `findcc` and `findcci` call it with other options for `egrep` and
take the lines with `project_` out of what it prints.

No argument is quoted on the way, so the shell expands `$*`, `$Path` and `$Target`.
It expands `\*.[hc]` and `\*.[hc]pp` too, where only the star is quoted: they stand for
the names `*.h`, `*.c` and so on in the working directory, and for themselves if there
are none.

An `Env` holds what the shell sees: the working directory, what an expansion without
quotes makes of a word, the trees, and which lines `egrep` selects.  The messages of
`find` and `egrep` for errors are left out, and so is `findcc2`: the shell takes its
`-A1` for the name of a command, so it searches nothing.
-/

namespace PtsTools.Search

open PtsTools.Lib.Find

/-- A text of the shell. -/
abbrev Text := List Char

/-! ## Files -/

/-- A name in a directory. -/
structure Name where
  text : Text
  ne_nil : text ≠ []
  no_slash : '/' ∉ text
  no_newline : '\n' ∉ text
  ne_dot : text ≠ ".".toList
  ne_dots : text ≠ "..".toList
  deriving DecidableEq

/-- A file that is no directory. -/
inductive Content
  | regular (lines : List Text)
  | other
  deriving DecidableEq, Repr

/-- A command line of `find`, with the words in place of `$Target` where it holds them. -/
inductive Command
  | source (icase : Bool) (target : List Text)
  | ui
  | js
  deriving DecidableEq, Repr

/-- What the commands read. -/
structure Env where
  /-- the names on the way to the working directory -/
  dir : List Text
  /-- the words of an expansion without quotes -/
  expand : Text → List Text
  /-- the file that a path names -/
  tree : Text → Option (Tree Name Content)
  /-- the line holds the pattern, where `icase` stands for `-i` -/
  selects : (icase : Bool) → (pattern line : Text) → Bool
  /-- what is printed if the words in place of `$Path` are not all paths for `find`, or those
  in place of `$Target` are no single pattern -/
  other : Command → (path : List Text) → List Text

/-- The names in the working directory. -/
def Env.names (env : Env) : List Text :=
  match env.tree ".".toList with
  | some (.dir entries) => entries.names.map Name.text
  | _ => []

/-- The path of an entry of a directory. -/
def child (path : Text) (name : Name) : Text :=
  if path.getLast? = some '/' then path ++ name.text else path ++ '/' :: name.text

/-- The path of a place below the start. -/
def pathOf (start : Text) (place : List Name) : Text := place.foldl child start

/-- The last part of a path, as `-name` sees it. -/
def baseName (path : Text) : Text := (path.rdropWhile (· = '/')).rtakeWhile (· ≠ '/')

/-! ## `findcc0` -/

/-- A line that `egrep -nH` prints. -/
structure Match where
  path : Text
  number : Nat
  line : Text
  deriving DecidableEq, Repr

/-- `file:number:line` -/
def Match.text (m : Match) : Text :=
  m.path ++ ':' :: (Nat.toDigits 10 m.number ++ ':' :: m.line)

/-- `egrep -nH pattern path` -/
def egrep (env : Env) (icase : Bool) (pattern path : Text) : Content → List Match
  | .regular lines =>
    ((lines.zipIdx 1).filter fun l => env.selects icase pattern l.1).map fun l =>
      { path := path, number := l.2, line := l.1 }
  | .other => []

/-- `-path pattern`, for a pattern without special characters. -/
def pathTest (start pattern : Text) : Expr Name Content Text :=
  .test fun node => pathOf start node.1 = pattern

/-- A tree is a regular file. -/
def isRegular : Tree Name Content → Bool
  | .leaf (.regular _) => true
  | _ => false

/-- `-type f` -/
def typeF : Expr Name Content Text := .test fun node => isRegular node.2

/-- `-name`, for a pattern that is a star and one of some endings. -/
def nameTest (start : Text) (endings : List Text) : Expr Name Content Text :=
  .test fun node => endings.any fun e => e.isSuffixOf (baseName (pathOf start node.1))

/-- The endings in `\*.[hc]`. -/
def hc : List Text := [".h".toList, ".c".toList]

/-- The endings in `\*.[hc]pp`. -/
def hcpp : List Text := [".hpp".toList, ".cpp".toList]

/-- The endings for which the working directory has a name that is a star and the ending. -/
def starred (env : Env) (endings : List Text) : List Text :=
  endings.filter fun e => env.names.any (· = '*' :: e)

/-- The endings that are left of a star and a choice of endings when the shell has expanded
it. -/
def expanded (env : Env) (endings : List Text) : List Text :=
  if starred env endings = [] then endings else starred env endings

/-- `find` refuses its arguments, because there are two words behind a `-name`. -/
def Refused (env : Env) : Prop :=
  1 < (starred env hc).length ∨ 1 < (starred env hcpp).length

instance (env : Env) : Decidable (Refused env) := inferInstanceAs (Decidable (_ ∨ _))

/-- `\( -name \*.[hc] -o -name \*.[hc]pp -o -name \*.inc -o -name \*.rc -o -name \*.cs \)` -/
def names (env : Env) (start : Text) : Expr Name Content Text :=
  ((((nameTest start (expanded env hc)).or
      (nameTest start (expanded env hcpp))).or
      (nameTest start [".inc".toList])).or
      (nameTest start [".rc".toList])).or
      (nameTest start [".cs".toList])

/-- `-exec egrep $Grep_args $Target {} \;` -/
def execEgrep (env : Env) (icase : Bool) (start target : Text) : Expr Name Content Text :=
  .exec fun node =>
    match node.2 with
    | .leaf content =>
      let found := egrep env icase target (pathOf start node.1) content
      (found.map Match.text, found ≠ [])
    | .dir _ => ([], false)

/-- The directory that is pruned. -/
def venv : Text := "./.venv".toList

/-- The expression of `findcc0`.  `-o` binds less than the other connective. -/
def expression (env : Env) (icase : Bool) (start target : Text) : Expr Name Content Text :=
  ((pathTest start venv).and .prune).or
    ((typeF.and (names env start)).and (execEgrep env icase start target))

/-- The usage text. -/
def usage : List Text :=
  ["Usage: findcc [path] <pattern>".toList,
   "Tip: If you want space in pattern, you can do it like this 'findcc abc\\sxyz'".toList]

/-- What `find` prints from one path. -/
def searchFrom (env : Env) (icase : Bool) (target start : Text) : List Text :=
  match env.tree start with
  | none => []
  | some tree => find (expression env icase start target) [] tree

/-- `find` takes the word for a path: it is no option and no operator. -/
def IsPath (word : Text) : Prop :=
  word ≠ [] ∧ word.head? ≠ some '-' ∧
    word ∉ ["(".toList, ")".toList, "!".toList, ",".toList]

instance : DecidablePred IsPath := fun _ => inferInstanceAs (Decidable (_ ∧ _ ∧ _))

/-- `egrep` gets the word behind `-exec` as it is, and takes it for a pattern. -/
def IsPattern (word : Text) : Prop :=
  word ≠ [] ∧ word.head? ≠ some '-' ∧ word ≠ ";".toList ∧ ¬ ['{', '}'] <:+: word

instance : DecidablePred IsPattern := fun _ => inferInstanceAs (Decidable (_ ∧ _ ∧ _ ∧ _))

/-- The paths of a search.  Without any, `find` starts from `.`. -/
def starts (words : List Text) : List Text := if words = [] then [".".toList] else words

/-- `find $Path …`, with the words in place of `$Path` and `$Target`. -/
def search (env : Env) (icase : Bool) (path target : List Text) : List Text :=
  match target with
  | [pattern] =>
    if (∀ word ∈ path, IsPath word) ∧ IsPattern pattern then
      if Refused env then [] else (starts path).flatMap (searchFrom env icase pattern)
    else env.other (.source icase target) path
  | _ => env.other (.source icase target) path

/-- `findcc0`. -/
def findcc0 (env : Env) (icase : Bool) : List Text → List Text
  | [] => usage
  | [target] => search env icase [".".toList] (env.expand target)
  | path :: target :: _ => search env icase (env.expand path) (env.expand target)

/-! ## The commands -/

/-- `project_`. -/
def project : Text := "project_".toList

/-- `grep -v project_` -/
def grepV (lines : List Text) : List Text := lines.filter fun l => ¬ project <:+: l

/-- `findcc`. -/
def findcc (env : Env) (args : List Text) : List Text :=
  grepV (findcc0 env false (args.flatMap env.expand))

/-- `findcci`. -/
def findcci (env : Env) (args : List Text) : List Text :=
  grepV (findcc0 env true (args.flatMap env.expand))

/-! ## Arguments -/

/-- A path that reaches `find` as it was typed. -/
structure StartPath (env : Env) where
  text : Text
  kept : env.expand text = [text]
  isPath : IsPath text

/-- A pattern that reaches `egrep` as it was typed. -/
structure Pattern (env : Env) where
  text : Text
  kept : env.expand text = [text]
  isPattern : IsPattern text

/-- `[path] <pattern>` -/
def arguments {env : Env} (path : Option (StartPath env)) (pattern : Pattern env) : List Text :=
  (path.map StartPath.text).toList ++ [pattern.text]

/-- The path at which the search starts. -/
def startOf {env : Env} (path : Option (StartPath env)) : Text :=
  (path.map StartPath.text).getD ".".toList

/-! ## What should be found -/

/-- The names on the way to a path from the root. -/
def resolve (dir : List Text) (path : Text) : List Text :=
  (path.splitOnP (· = '/')).foldl
    (fun names part =>
      if part = [] ∨ part = ".".toList then names
      else if part = "..".toList then names.dropLast
      else names ++ [part])
    (if path.head? = some '/' then [] else dir)

/-- The path leads to something below `./.venv`. -/
def Below (dir : List Text) (path : Text) : Prop :=
  dir ++ [".venv".toList] <+: (resolve dir path).dropLast

instance (dir : List Text) (path : Text) : Decidable (Below dir path) :=
  inferInstanceAs (Decidable (_ <+: _))

/-- The extensions of the source files. -/
def extensions : List Text :=
  [".h".toList, ".c".toList, ".hpp".toList, ".cpp".toList, ".inc".toList, ".rc".toList,
    ".cs".toList]

/-- The path has one of the extensions. -/
def Source (path : Text) : Prop := ∃ e ∈ extensions, e <:+ baseName path

instance (path : Text) : Decidable (Source path) :=
  inferInstanceAs (Decidable (∃ e ∈ extensions, _))

/-- The endings that `find` tests for. -/
def tested (env : Env) : List Text :=
  if Refused env then []
  else expanded env hc ++ expanded env hcpp ++ [".inc".toList, ".rc".toList, ".cs".toList]

/-- The path has one of the endings that `find` tests for. -/
def Tested (env : Env) (path : Text) : Prop := ∃ e ∈ tested env, e <:+ baseName path

instance (env : Env) (path : Text) : Decidable (Tested env path) :=
  inferInstanceAs (Decidable (∃ e ∈ tested env, _))

/-- The matches in all source files below the start. -/
def hits (env : Env) (icase : Bool) (start target : Text) : List Match :=
  ((env.tree start).map Tree.leaves).getD [] |>.flatMap fun l =>
    if Source (pathOf start l.1) then egrep env icase target (pathOf start l.1) l.2 else []

/-- A match that should be printed. -/
def Wanted (env : Env) (m : Match) : Prop := ¬ Below env.dir m.path ∧ ¬ project <:+: m.path

instance (env : Env) (m : Match) : Decidable (Wanted env m) :=
  inferInstanceAs (Decidable (_ ∧ _))

/-- What `findcc` is meant to print. -/
def wantedLines (env : Env) (icase : Bool) (start target : Text) : List Text :=
  ((hits env icase start target).filter fun m => Wanted env m).map Match.text

end PtsTools.Search
