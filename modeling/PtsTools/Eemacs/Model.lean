import PtsTools.Lib.Scanf

/-!
# The program `eemacs.cpp`

`eemacs` opens its first argument in an Emacs that runs on another machine, where
the home directory is the drive `n:`.  It makes the argument for `emacsclient` from
the spelling of the file, in three ways, and starts `emacs` for the rest.

`execvp` does not return here.  The array for `emacsclient` has as many entries as
the program has arguments, so with a single file its third entry lies behind the
array.  The model takes it as written.
-/

namespace PtsTools.Eemacs

open PtsTools.Lib.Scanf

/-! ## Strings in C and C++ -/

/-- `strstr(s, t)`: the place of the first `t` in `s`. -/
def strstr (t : Text) : Text → Option Nat
  | [] => if t.isPrefixOf [] then some 0 else none
  | c :: s => if t.isPrefixOf (c :: s) then some 0 else (strstr t s).map (· + 1)

/-- `s.replace(0, n, t)`. -/
def replaceFront (s : Text) (n : Nat) (t : Text) : Text := t ++ s.drop n

/-- The pointer test `s == strstr(s, t)` says that `s` starts with `t`. -/
theorem strstr_eq_zero_iff (t s : Text) : strstr t s = some 0 ↔ t <+: s := by
  rw [← List.isPrefixOf_iff_prefix]
  cases s with
  | nil =>
    unfold strstr
    split_ifs with h
    · simp [h]
    · simp [h]
  | cons c s =>
    unfold strstr
    split_ifs with h
    · simp [h]
    · simp [h]

/-! ## The program -/

/-- `home`. -/
def home : Text := bytes "/home/ts.p"

/-- How a run ends: with the usage text, or as another program. -/
inductive Run
  | usage
  | execvp (file : Text) (argv : List Text)
  deriving DecidableEq, Repr

/-- `eemacs` in a directory. -/
def eemacs (pwd : Text) (argv : List Text) : Run :=
  match argv with
  | argv0 :: arg1 :: more =>
    if strstr (bytes "~/") arg1 = some 0 then
      .execvp (bytes "emacsclient")
        [argv0, replaceFront arg1 (bytes "~/").length (bytes "n:/")]
    else if strstr home arg1 = some 0 then
      .execvp (bytes "emacsclient") [argv0, replaceFront arg1 home.length (bytes "n:/")]
    else if arg1.head? = some 47 then .execvp (bytes "emacs") (argv0 :: arg1 :: more)
    else
      let a1 := pwd ++ bytes "/" ++ arg1
      .execvp (bytes "emacsclient") [argv0, replaceFront a1 home.length (bytes "n:/")]
  | _ => .usage

end PtsTools.Eemacs
