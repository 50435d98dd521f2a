import PtsTools.Sreport.Headers

/-!
# Edits and the line numbers of their hunks

An edit between two files is a list of steps: a line that both files have, a line
of the old file only, or a line of the new file only.  A hunk of its diff starts
with up to three common lines, then comes its first change, and what else belongs
to it is left open, so the theorem holds for every way to group the changes.

The program adds three to both starts, which is right for a hunk with three common
lines in front.  A hunk has fewer only when nothing of one file comes before it,
and then its start in that file is at most one: `start_le_one`.  So the warning is
printed for all of them.  The numbers are `int`, which is where the property ends.
-/

namespace PtsTools.Sreport

open PtsTools.Lib.Scanf

/-! ## Edits -/

/-- The two files of an edit. -/
inductive Side
  | old
  | new
  deriving DecidableEq, Repr

/-- A step of an edit. -/
inductive Step
  | keep (l : Text)
  | delete (l : Text)
  | insert (l : Text)
  deriving DecidableEq, Repr

/-- The line of a file in a step. -/
def Step.line? : Side → Step → Option Text
  | _, .keep l => some l
  | .old, .delete l => some l
  | .new, .insert l => some l
  | _, _ => none

/-- A file of an edit. -/
def file (side : Side) (script : List Step) : List Text := script.filterMap (Step.line? side)

/-- A hunk of an edit: the steps before it, the common lines in front, the first
change, the other steps in it, and the steps behind it.  It has three lines in
front, or all that come before it. -/
structure EditHunk (script : List Step) where
  before : List Step
  lead : List Text
  change : Step
  body : List Step
  after : List Step
  script_eq : script = before ++ lead.map .keep ++ change :: body ++ after
  change_ne_keep : ∀ l, change ≠ .keep l
  lead_length : lead.length = min 3 (min (file .old (before ++ lead.map .keep)).length
    (file .new (before ++ lead.map .keep)).length)

variable {script : List Step}

/-- The steps of a hunk. -/
def EditHunk.steps (h : EditHunk script) : List Step := h.lead.map .keep ++ h.change :: h.body

/-- The length of a hunk in a file. -/
def EditHunk.length (h : EditHunk script) (side : Side) : Nat := (file side h.steps).length

/-- The start of a hunk in a file: from one on, or one less if the length is zero. -/
def EditHunk.start (h : EditHunk script) (side : Side) : Nat :=
  if h.length side = 0 then (file side h.before).length else (file side h.before).length + 1

/-- The header of a hunk, with both lengths. -/
def EditHunk.header (h : EditHunk script) (tail : Text) : Text :=
  hunkHeader (h.start .old) (h.length .old) (h.start .new) (h.length .new) tail

/-- The number of the line of a file that the first change is at. -/
def EditHunk.line (h : EditHunk script) (side : Side) : Nat :=
  (file side (h.before ++ h.lead.map .keep)).length + 1

/-! ## The lines of an edit -/

theorem file_append (side : Side) (s t : List Step) :
    file side (s ++ t) = file side s ++ file side t :=
  List.filterMap_append

/-- Both files have the common lines. -/
theorem file_keep (side : Side) (ls : List Text) : file side (ls.map .keep) = ls := by
  unfold file
  rw [List.filterMap_map]
  cases side <;> exact List.filterMap_some

theorem EditHunk.line_eq (h : EditHunk script) (side : Side) :
    h.line side = (file side h.before).length + h.lead.length + 1 := by
  unfold EditHunk.line
  rw [file_append, file_keep, List.length_append]

/-- If the first change is at a line of a file, it is the line with this number. -/
theorem EditHunk.line_change (h : EditHunk script) {side : Side} {l : Text}
    (hchange : h.change.line? side = some l) : (file side script)[h.line side - 1]? = some l := by
  have hscript : file side script = file side (h.before ++ h.lead.map .keep) ++
      l :: file side (h.body ++ h.after) := by
    have heq := congrArg (file side) h.script_eq
    have hcons : file side (h.change :: (h.body ++ h.after)) = l :: file side (h.body ++ h.after) :=
      List.filterMap_cons_some hchange
    rw [List.append_assoc, file_append, List.cons_append, hcons] at heq
    exact heq
  rw [hscript, EditHunk.line, Nat.add_sub_cancel, List.getElem?_append_right (Nat.le_refl _),
    Nat.sub_self]
  rfl

/-! ## Hunks with a short lead -/

/-- A hunk has three common lines in front, or it starts at the top of one of the
files. -/
theorem start_le_one (h : EditHunk script) (hlead : h.lead.length ≠ 3) :
    ∃ side, h.start side ≤ 1 := by
  have hlength := h.lead_length
  rw [file_append, file_append, file_keep, file_keep, List.length_append, List.length_append]
    at hlength
  have hnone : ∃ side, (file side h.before).length = 0 := by
    by_cases hold : (file .old h.before).length = 0
    · exact ⟨.old, hold⟩
    · exact ⟨.new, by omega⟩
  rcases hnone with ⟨side, hnone⟩
  refine ⟨side, ?_⟩
  unfold EditHunk.start
  split_ifs <;> omega

/-- With three common lines in front, the start is three lines before the first
change. -/
theorem start_add_three (h : EditHunk script) (hlead : h.lead.length = 3) (side : Side) :
    h.start side + 3 = h.line side := by
  have hlength : h.length side ≠ 0 := by
    unfold EditHunk.length EditHunk.steps
    rw [file_append, file_keep, List.length_append]
    omega
  rw [h.line_eq, EditHunk.start, if_neg hlength]
  omega

/-! ## The printed line numbers -/

/-- The two line numbers of a call that prints them. -/
def Output.lineNumbers? : Output → Option (Int × Int)
  | .line left => some (left.toInt, left.toInt)
  | .lines left right => some (left.toInt, right.toInt)
  | _ => none

/-- Without a warning both starts are larger than one. -/
theorem one_lt_of_no_warning {a b : Nat} (ha : a < 2 ^ 31) (hb : b < 2 ^ 31)
    (hwarning : .warning ∉ hunk (toInt (-a)) (toInt b)) : 1 < a ∧ 1 < b := by
  have hle : ∀ k : Nat, k < 2 ^ 31 → (Int32.ofNat k ≤ 1 ↔ k ≤ 1) := by
    intro k hk
    rw [Int32.le_iff_toInt_le, Int32.toInt_ofNat_of_lt hk]
    show (k : Int) ≤ 1 ↔ _
    omega
  unfold hunk at hwarning
  rw [toInt_neg (by omega), toInt_natCast (by omega)] at hwarning
  dsimp only at hwarning
  by_contra hnot
  have hsmall : Int32.ofNat a ≤ 1 ∨ Int32.ofNat b ≤ 1 := by
    rw [hle a ha, hle b hb]
    omega
  rw [if_pos hsmall] at hwarning
  exact hwarning (by simp)

/-- The line numbers that are printed for a hunk. -/
theorem hunk_lineNumbers {a b : Nat} (ha : a < 2 ^ 31 - 3) (hb : b < 2 ^ 31 - 3) :
    (hunk (toInt (-a)) (toInt b)).filterMap Output.lineNumbers? =
      [(((a + 3 : Nat) : Int), ((b + 3 : Nat) : Int))] := by
  have hlast : ∀ left right : Int32, (hunk left right).filterMap Output.lineNumbers? =
      (hunk left right).getLast?.toList.filterMap Output.lineNumbers? := by
    intro left right
    unfold hunk
    dsimp only
    split_ifs <;> rfl
  have htoInt : ∀ k : Nat, k < 2 ^ 31 - 3 → (Int32.ofNat (k + 3)).toInt = ((k + 3 : Nat) : Int) :=
    fun k hk => Int32.toInt_ofNat_of_lt (by omega)
  rw [hlast, hunk_numbers ha hb, ← htoInt a ha, ← htoInt b hb]
  split_ifs with heq
  · subst heq
    rfl
  · rfl

/-- If the program prints no warning for a hunk, it prints the line numbers of the
first change. -/
theorem exact_of_no_warning (h : EditHunk script) (hstart : ∀ side, h.start side ≤ 2 ^ 31 - 4)
    (tail : Text) (locals : Locals) (hwarning : .warning ∉ classify (h.header tail) locals) :
    (classify (h.header tail) locals).filterMap Output.lineNumbers? =
      [((h.line .old : Int), (h.line .new : Int))] := by
  have hold := hstart .old
  have hnew := hstart .new
  unfold EditHunk.header at hwarning ⊢
  rw [classify_hunk] at hwarning ⊢
  have hone := one_lt_of_no_warning (by omega) (by omega) hwarning
  have hlead : h.lead.length = 3 := by
    by_contra hlead
    rcases start_le_one h hlead with ⟨side, hside⟩
    cases side <;> omega
  rw [hunk_lineNumbers (by omega) (by omega), start_add_three h hlead, start_add_three h hlead]

/-- The edit that puts a line behind `k + 3` others, as a hunk. -/
def lateInsertion (k : Nat) (l : Text) :
    EditHunk (List.replicate k (.keep l) ++ [l, l, l].map .keep ++ .insert l :: [] ++ []) where
  before := List.replicate k (.keep l)
  lead := [l, l, l]
  change := .insert l
  body := []
  after := []
  script_eq := rfl
  change_ne_keep := by simp
  lead_length := by
    rw [file_append, file_append, file_keep, file_keep, List.length_append, List.length_append]
    show 3 = _
    simp

/-- The starts of that hunk. -/
theorem lateInsertion_start (k : Nat) (l : Text) (side : Side) :
    (lateInsertion k l).start side = k + 1 := by
  have hlength : (lateInsertion k l).length side ≠ 0 := by
    cases side <;> exact Nat.succ_ne_zero _
  have hbefore : (file side (lateInsertion k l).before).length = k := by
    show (file side (List.replicate k (Step.keep l))).length = k
    rw [← List.map_replicate, file_keep, List.length_replicate]
  unfold EditHunk.start
  rw [if_neg hlength, hbefore]

/-- An insertion behind five lines. -/
theorem exact_insertion :
    (classify ((lateInsertion 2 (bytes "a")).header []) ⟨0, 0⟩).filterMap Output.lineNumbers? =
      [(6, 6)] :=
  exact_of_no_warning (lateInsertion 2 (bytes "a"))
    (fun side => by rw [lateInsertion_start]; decide) [] ⟨0, 0⟩ (by decide)

/-- An insertion behind `2 ^ 31 - 1` lines: no warning, and a number that has gone
over the end of an `int`. -/
theorem wrong_insertion :
    .warning ∉ classify ((lateInsertion (2 ^ 31 - 4) (bytes "a")).header []) ⟨0, 0⟩ ∧
      (classify ((lateInsertion (2 ^ 31 - 4) (bytes "a")).header []) ⟨0, 0⟩).filterMap
        Output.lineNumbers? = [(-2 ^ 31, -2 ^ 31)] ∧
      (lateInsertion (2 ^ 31 - 4) (bytes "a")).line .old = 2 ^ 31 := by
  have hstart := lateInsertion_start (2 ^ 31 - 4) (bytes "a")
  have hline := start_add_three (lateInsertion (2 ^ 31 - 4) (bytes "a")) rfl .old
  unfold EditHunk.header
  rw [classify_hunk, hstart, hstart]
  refine ⟨by decide, by decide, ?_⟩
  rw [← hline, hstart]
  omega

end PtsTools.Sreport
