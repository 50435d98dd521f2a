import PtsTools.Lib.Sed
import PtsTools.Project.Model

/-!
# The functions that `hidvr.aliases.sh` takes out of the environment script

`edvr_hddvr_hisilicon_env.sh` sets the environment of a model and ends the shell with
`exit 1` where something is wrong, so a login shell cannot source it.  A `sed` script
takes the functions of the models out of it, once for each project.  What it writes is
sourced at every login: `model_specific_env.$Myprj`.

`mem_extract_iff` says which lines are taken, without the state of the ranges, and
`logins_no_exit` that none of them can end the shell in that way.
-/

namespace PtsTools.Project

open PtsTools.Lib.Sed

/-! ## The script -/

/-- `/word/` -/
def holds (word line : Text) : Bool := decide (word <:+: line)

/-- `exit 1` -/
def exitText : Text := "exit 1".toList

/-- The texts at the ends of the first range. -/
def modelFirst : Text := "function set_common_post_env".toList

def modelLast : Text := "model environment variable".toList

/-- The texts at the ends of the second range. -/
def socFirst : Text := "SOC ID & Console bin path".toList

def socLast : Text := "version environment variable".toList

/-- `export WHBS_QT_VERSION=` -/
def qtVersion : Text := "export WHBS_QT_VERSION=".toList

/-- `function set_console_socid {` -/
def setConsoleSocidText : Text := "function set_console_socid \x7b".toList

/-- The `sed` script. -/
def extractScript : List (Cmd Text) :=
  [.delete (holds exitText), .printRange (holds modelFirst) (holds modelLast),
    .printRange (holds socFirst) (holds socLast), .substPrint (subst qtVersion setConsoleSocidText)]

/-- What the script takes out of the lines of the environment script. -/
def extract (lines : List Text) : List Text := sed extractScript lines

/-- The file `model_specific_env.$Myprj` behind a login, from the file before and the
environment script: it is only made if it is not there. -/
def modelSpecificEnv (file : Option (List Text)) (lines : List Text) : List Text :=
  file.getD (extract lines)

/-- The file behind some logins, with the environment script as each of them finds it. -/
def logins (scripts : List (List Text)) : Option (List Text) :=
  scripts.foldl (fun file lines => some (modelSpecificEnv file lines)) none

/-! ## The lines -/

/-- The lines in front of a line that the ranges see. -/
def visible (before : List Text) : List Text := before.filter fun l => !holds exitText l

/-- A line belongs to a block: it starts the block, or the block was started in front of
it and has not ended. -/
def InBlock (first last : Text) (before : List Text) (line : Text) : Prop :=
  first <:+: line ∨ Opened (holds first) (holds last) (visible before)

/-- No line both starts and ends a block. -/
def Separate (first last : Text) (lines : List Text) : Prop :=
  ∀ l ∈ lines, first <:+: l → ¬ last <:+: l

theorem inRange_iff {first last : Text} {before : List Text} (line : Text)
    (hseparate : Separate first last before) :
    inRange (holds first) (holds last) (visible before) line = true ↔
      InBlock first last before line := by
  have hboth : ∀ l ∈ visible before, holds first l = true → holds last l = false := by
    intro l hl hfirst
    exact decide_eq_false (hseparate l (List.mem_of_mem_filter hl) (of_decide_eq_true hfirst))
  unfold inRange InBlock
  rw [Bool.or_eq_true, openBehind_iff hboth, or_comm]
  exact or_congr_left decide_eq_true_iff

/-- What is printed for a line. -/
theorem mem_printed_iff {before : List Text} {line text : Text} :
    text ∈ printed extractScript before line ↔
      ¬ exitText <:+: line ∧
        ((text = line ∧ inRange (holds modelFirst) (holds modelLast) (visible before) line = true) ∨
          (text = line ∧ inRange (holds socFirst) (holds socLast) (visible before) line = true) ∨
          subst qtVersion setConsoleSocidText line = some text) := by
  unfold extractScript
  simp only [printed]
  by_cases hexit : exitText <:+: line
  · have hholds : holds exitText line = true := decide_eq_true hexit
    simp [hholds, hexit]
  · have hholds : holds exitText line = false := decide_eq_false hexit
    rw [hholds, if_neg (by decide), and_iff_right hexit]
    rw [List.mem_append, List.mem_append]
    refine or_congr ?_ (or_congr ?_ ?_)
    · unfold visible
      split_ifs with hrange
      · simp [hrange]
      · simp [hrange]
    · unfold visible
      split_ifs with hrange
      · simp [hrange]
      · simp [hrange]
    · cases subst qtVersion setConsoleSocidText line with
      | none => simp
      | some line' => simp [eq_comm]

/-- The lines that are taken out: the lines of the two blocks, and the line of the Qt
version under the name of the function.  A line with `exit 1` is never taken, and it
neither starts nor ends a block. -/
theorem mem_extract_iff {lines : List Text} (hmodel : Separate modelFirst modelLast lines)
    (hsoc : Separate socFirst socLast lines) (text : Text) :
    text ∈ extract lines ↔
      ∃ before line after, lines = before ++ line :: after ∧ ¬ exitText <:+: line ∧
        ((text = line ∧
            (InBlock modelFirst modelLast before line ∨ InBlock socFirst socLast before line)) ∨
          subst qtVersion setConsoleSocidText line = some text) := by
  unfold extract
  rw [sed_eq, mem_printedFrom_iff]
  refine exists_congr fun before => exists_congr fun line => exists_congr fun after => ?_
  refine and_congr_right fun hlines => ?_
  have hsub : before ⊆ lines := by
    rw [hlines]
    exact List.subset_append_left _ _
  rw [List.nil_append, mem_printed_iff, inRange_iff line fun l hl => hmodel l (hsub hl),
    inRange_iff line fun l hl => hsoc l (hsub hl), ← or_assoc, ← and_or_left]

/-- An environment script. -/
def someScript : List Text :=
  ["[ $1 ] || exit 1".toList, "function set_common_post_env".toList, "ARCH=arm".toList,
    "[ $ARCH ] || exit 1".toList, "# model environment variable".toList, "ARCH=x86".toList]

theorem mem_extract_someScript : "ARCH=arm".toList ∈ extract someScript :=
  (mem_extract_iff (by unfold Separate; decide) (by unfold Separate; decide) _).mpr
    ⟨someScript.take 2, "ARCH=arm".toList, someScript.drop 3, rfl, by decide,
      Or.inl ⟨rfl, Or.inl (Or.inr ⟨[], _, [], rfl, by decide, by decide⟩)⟩⟩

theorem not_exit_of_mem_extract {lines : List Text} {text : Text} (h : text ∈ extract lines) :
    ¬ exitText <:+: text := by
  unfold extract at h
  rw [sed_eq, mem_printedFrom_iff] at h
  obtain ⟨before, line, after, -, hprinted⟩ := h
  obtain ⟨hline, hcases⟩ := mem_printed_iff.mp hprinted
  rcases hcases with ⟨rfl, -⟩ | ⟨rfl, -⟩ | hsubst
  · exact hline
  · exact hline
  · -- the new text has other characters at its ends, so it cannot be a part of `exit 1`
    have hends : ('f' :: "unction set_console_socid ".toList ++ ['\x7b']) = setConsoleSocidText :=
      rfl
    rw [← hends] at hsubst
    exact not_infix_subst hsubst (by decide) (by decide) (by decide) hline

/-! ## Logins -/

/-- The first login makes the file, and no later one makes it again. -/
theorem logins_cons (lines : List Text) (scripts : List (List Text)) :
    logins (lines :: scripts) = some (extract lines) := by
  induction scripts using List.reverseRecOn with
  | nil => rfl
  | append_singleton scripts last ih =>
    unfold logins at ih ⊢
    rw [← List.cons_append, List.foldl_append, ih]
    rfl

/-- No login shell sources a line with the text `exit 1`, whatever the environment
scripts were. -/
theorem logins_no_exit (scripts : List (List Text)) :
    ∀ file ∈ logins scripts, ∀ text ∈ file, ¬ exitText <:+: text := by
  intro file hfile text htext
  cases scripts with
  | nil => cases hfile
  | cons lines scripts =>
    rw [logins_cons] at hfile
    cases hfile
    exact not_exit_of_mem_extract htext

end PtsTools.Project
