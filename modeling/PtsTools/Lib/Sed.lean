import PtsTools.Lib.Replace

/-!
# Scripts of `sed -n`

A script is a list of commands, and `sed` runs it on every line.  A command with two
addresses remembers whether its range is open.  The range opens at a line that matches
the first address, and the second address is only looked at behind that line.  A `d`
ends the script for its line, so the commands behind it neither print the line nor
look at it for their ranges.

`sed_eq` says what a script prints without any memory: what it prints for a line is
decided by the lines in front of it that reach the command (`printed`), and a range is
open where a line matched the first address and none behind it matched the second one
(`openBehind_iff`).
-/

namespace PtsTools.Lib.Sed

variable {α : Type}

/-! ## Commands -/

/-- A command. -/
inductive Cmd (α : Type)
  /-- `/address/ d` -/
  | delete (address : α → Bool)
  /-- `/first/,/last/ p` -/
  | printRange (first last : α → Bool)
  /-- `s/…/…/p` -/
  | substPrint (s : α → Option α)

/-- A command and whether its range is open. -/
abbrev Running (α : Type) : Type := Cmd α × Bool

/-- The commands for one line, with what they print. -/
def cycle : List (Running α) → α → List α × List (Running α)
  | [], _ => ([], [])
  | (.delete address, o) :: script, line =>
    if address line then ([], (.delete address, o) :: script)
    else ((cycle script line).1, (.delete address, o) :: (cycle script line).2)
  | (.printRange first last, o) :: script, line =>
    let rest := cycle script line
    if o then (line :: rest.1, (.printRange first last, !last line) :: rest.2)
    else if first line then (line :: rest.1, (.printRange first last, true) :: rest.2)
    else (rest.1, (.printRange first last, false) :: rest.2)
  | (.substPrint s, o) :: script, line =>
    match s line with
    | some line' => (line' :: (cycle script line').1, (.substPrint s, o) :: (cycle script line').2)
    | none => ((cycle script line).1, (.substPrint s, o) :: (cycle script line).2)

/-- The commands for all lines. -/
def cycles : List (Running α) → List α → List α
  | _, [] => []
  | script, line :: lines => (cycle script line).1 ++ cycles (cycle script line).2 lines

/-- `sed -n script` -/
def sed (script : List (Cmd α)) (lines : List α) : List α :=
  cycles (script.map fun c => (c, false)) lines

/-! ## Ranges -/

/-- Whether a range is open behind a line. -/
def opens (first last : α → Bool) (o : Bool) (line : α) : Bool :=
  if o then !last line else first line

/-- Whether a range is open behind some lines. -/
def openBehind (first last : α → Bool) (lines : List α) : Bool :=
  lines.foldl (opens first last) false

/-- A line belongs to a range. -/
def inRange (first last : α → Bool) (before : List α) (line : α) : Bool :=
  openBehind first last before || first line

/-- A line opens a range that none of some later lines closes. -/
def Opened (first last : α → Bool) (lines : List α) : Prop :=
  ∃ pre line mid, lines = pre ++ line :: mid ∧ first line = true ∧ ∀ l ∈ mid, last l = false

theorem openBehind_append_singleton (first last : α → Bool) (lines : List α) (l : α) :
    openBehind first last (lines ++ [l]) = opens first last (openBehind first last lines) l := by
  unfold openBehind
  rw [List.foldl_append]
  rfl

theorem not_opened_nil (first last : α → Bool) : ¬ Opened first last [] := by
  intro h
  obtain ⟨pre, line, mid, heq, _⟩ := h
  exact absurd heq (by simp)

/-- The last line opens the range, or leaves it open. -/
theorem opened_append_singleton_iff {first last : α → Bool} {lines : List α} {l : α} :
    Opened first last (lines ++ [l]) ↔
      first l = true ∨ (Opened first last lines ∧ last l = false) := by
  constructor
  · intro h
    obtain ⟨pre, line, mid, heq, hfirst, hmid⟩ := h
    rcases List.eq_nil_or_concat mid with rfl | ⟨mid', l', rfl⟩
    · obtain ⟨_, hline⟩ := List.append_inj' heq rfl
      rw [List.singleton_inj.mp hline]
      exact Or.inl hfirst
    · rw [List.concat_eq_append] at heq hmid
      rw [← List.cons_append, ← List.append_assoc] at heq
      obtain ⟨hlines, hline⟩ := List.append_inj' heq rfl
      rw [List.singleton_inj.mp hline]
      refine Or.inr ⟨⟨pre, line, mid', hlines, hfirst, ?_⟩, ?_⟩
      · exact fun l'' hl'' => hmid l'' (List.mem_append_left _ hl'')
      · exact hmid l' (List.mem_append_right _ List.mem_cons_self)
  · intro h
    rcases h with hfirst | ⟨⟨pre, line, mid, rfl, hfirst, hmid⟩, hlast⟩
    · exact ⟨lines, l, [], rfl, hfirst, fun l' hl' => absurd hl' List.not_mem_nil⟩
    · refine ⟨pre, line, mid ++ [l], by simp, hfirst, ?_⟩
      intro l' hl'
      rcases List.mem_append.mp hl' with hl' | hl'
      · exact hmid l' hl'
      · rw [List.mem_singleton.mp hl']
        exact hlast

/-- A range is open exactly if a line opened it and none behind that line closed it, as
long as no line does both. -/
theorem openBehind_iff {first last : α → Bool} {lines : List α}
    (hboth : ∀ l ∈ lines, first l = true → last l = false) :
    openBehind first last lines = true ↔ Opened first last lines := by
  induction lines using List.reverseRecOn with
  | nil => exact iff_of_false (by simp [openBehind]) (not_opened_nil first last)
  | append_singleton lines l ih =>
    have ih' := ih fun l' hl' => hboth l' (List.mem_append_left _ hl')
    have hl := hboth l (List.mem_append_right _ List.mem_cons_self)
    rw [openBehind_append_singleton, opened_append_singleton_iff, ← ih']
    unfold opens
    cases hopen : openBehind first last lines with
    | false => simp
    | true =>
      cases hfirst : first l with
      | false => simp
      | true => simp [hl hfirst]

/-! ## Substitutions -/

section Subst

variable {β : Type} [DecidableEq β]

/-- `s/old/new/`, for a line as a list: the first `old` becomes `new`. -/
def subst (old new : List β) : List β → Option (List β)
  | [] => none
  | b :: line =>
    if old <+: b :: line then some (new ++ (b :: line).drop old.length)
    else (subst old new line).map (b :: ·)

/-- What a substitution makes of a line. -/
theorem subst_eq_some {old new line line' : List β} (h : subst old new line = some line') :
    ∃ u v, line = u ++ old ++ v ∧ line' = u ++ new ++ v := by
  induction line generalizing line' with
  | nil => cases h
  | cons b line ih =>
    rw [subst] at h
    split_ifs at h with hpre
    · obtain ⟨v, hv⟩ := hpre
      refine ⟨[], v, hv.symm, ?_⟩
      rw [← hv, List.drop_left] at h
      exact (Option.some.inj h).symm
    · obtain ⟨line'', hline, rfl⟩ := Option.map_eq_some_iff.mp h
      obtain ⟨u, v, rfl, rfl⟩ := ih hline
      exact ⟨b :: u, v, rfl, rfl⟩

/-- A substitution brings a word into a line only if the word overlaps the new text.
Here it does not, because it has neither of the characters at the ends. -/
theorem not_infix_subst {old mid line line' word : List β} {l r : β}
    (h : subst old (l :: mid ++ [r]) line = some line') (hl : l ∉ word) (hr : r ∉ word)
    (hmid : ¬ word <:+: mid) (hline : ¬ word <:+: line) : ¬ word <:+: line' := by
  obtain ⟨u, v, rfl, rfl⟩ := subst_eq_some h
  have hshape : u ++ (l :: mid ++ [r]) ++ v = u ++ l :: (mid ++ r :: v) := by simp
  rw [hshape, Replace.infix_separated_iff hl, Replace.infix_separated_iff hr]
  intro hword
  rcases hword with hu | hm | hv
  · exact hline (hu.trans ⟨[], old ++ v, by simp⟩)
  · exact hmid hm
  · exact hline (hv.trans ⟨u ++ old, [], by simp⟩)

end Subst

/-! ## Scripts -/

/-- What a script prints for a line with some lines in front of it. -/
def printed : List (Cmd α) → List α → α → List α
  | [], _, _ => []
  | .delete address :: script, before, line =>
    if address line then [] else printed script (before.filter fun l => !address l) line
  | .printRange first last :: script, before, line =>
    (if inRange first last before line then [line] else []) ++ printed script before line
  | .substPrint s :: script, before, line =>
    match s line with
    | some line' => line' :: printed script (before.map fun l => (s l).getD l) line'
    | none => printed script (before.map fun l => (s l).getD l) line

/-- The script with the ranges that are open behind some lines. -/
def behind : List (Cmd α) → List α → List (Running α)
  | [], _ => []
  | .delete address :: script, before =>
    (.delete address, false) :: behind script (before.filter fun l => !address l)
  | .printRange first last :: script, before =>
    (.printRange first last, openBehind first last before) :: behind script before
  | .substPrint s :: script, before =>
    (.substPrint s, false) :: behind script (before.map fun l => (s l).getD l)

theorem behind_nil (script : List (Cmd α)) : behind script [] = script.map fun c => (c, false) := by
  induction script with
  | nil => rfl
  | cons c script ih =>
    cases c with
    | delete address => simp [behind, ih]
    | printRange first last => simp [behind, ih, openBehind]
    | substPrint s => simp [behind, ih]

/-- One line. -/
theorem cycle_behind (script : List (Cmd α)) (before : List α) (line : α) :
    cycle (behind script before) line =
      (printed script before line, behind script (before ++ [line])) := by
  induction script generalizing before line with
  | nil => rfl
  | cons c script ih =>
    cases c with
    | delete address =>
      simp only [behind, cycle, printed, ih, List.filter_append]
      cases haddress : address line with
      | true => simp [haddress]
      | false => simp [haddress]
    | printRange first last =>
      simp only [behind, cycle, printed, ih, openBehind_append_singleton]
      unfold inRange opens
      cases openBehind first last before with
      | true => simp
      | false =>
        cases first line with
        | true => simp
        | false => simp
    | substPrint s =>
      simp only [behind, cycle, printed, ih, List.map_append, List.map_singleton]
      cases s line with
      | some line' => simp
      | none => simp

/-- What is printed for some lines, with others in front of them. -/
def printedFrom (script : List (Cmd α)) : List α → List α → List α
  | _, [] => []
  | before, line :: lines =>
    printed script before line ++ printedFrom script (before ++ [line]) lines

theorem cycles_behind (script : List (Cmd α)) (before lines : List α) :
    cycles (behind script before) lines = printedFrom script before lines := by
  induction lines generalizing before with
  | nil => rfl
  | cons line lines ih => rw [cycles, cycle_behind, ih, printedFrom]

/-- What a script prints. -/
theorem sed_eq (script : List (Cmd α)) (lines : List α) :
    sed script lines = printedFrom script [] lines := by
  rw [sed, ← behind_nil, cycles_behind]

/-- What is printed is printed for one of the lines. -/
theorem mem_printedFrom_iff {script : List (Cmd α)} {before lines : List α} {text : α} :
    text ∈ printedFrom script before lines ↔
      ∃ pre line post, lines = pre ++ line :: post ∧
        text ∈ printed script (before ++ pre) line := by
  induction lines generalizing before with
  | nil => simp [printedFrom]
  | cons line lines ih =>
    rw [printedFrom, List.mem_append, ih]
    constructor
    · intro h
      rcases h with h | ⟨pre, line', post, rfl, h⟩
      · exact ⟨[], line, lines, rfl, by rwa [List.append_nil]⟩
      · refine ⟨line :: pre, line', post, rfl, ?_⟩
        rwa [List.append_assoc] at h
    · intro h
      obtain ⟨pre, line', post, heq, h⟩ := h
      cases pre with
      | nil =>
        obtain ⟨rfl, rfl⟩ := List.cons.inj heq
        rw [List.append_nil] at h
        exact Or.inl h
      | cons l pre =>
        obtain ⟨rfl, rfl⟩ := List.cons.inj heq
        refine Or.inr ⟨pre, line', post, rfl, ?_⟩
        rw [List.append_assoc]
        exact h

end PtsTools.Lib.Sed
