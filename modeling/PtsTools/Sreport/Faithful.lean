import Mathlib.Algebra.Order.BigOperators.Group.List
import PtsTools.Sreport.Reading

/-!
# What `sreport` prints for a diff

An `Item` is a path or a line-number item of the report.  A report of a diff is
faithful if its items are, file by file, the path and one line-number item for
every hunk: `FileDiff.items`.

`report_items` says which items the program prints: `FileDiff.printedItems`.  They
differ from the faithful ones in two ways.  The path is the first word behind
`+++` only, and each line of a body that starts with `+++` and has a word behind
it gives a path too.  `report_faithful_iff` says that nothing else goes wrong.
-/

namespace PtsTools.Sreport

open PtsTools.Lib.Scanf

/-! ## Items -/

/-- An item of a report: a path, or the line numbers of a hunk. -/
inductive Item
  | path (fn : Text)
  | lineNumber
  deriving DecidableEq, Repr

/-- The item that one call prints, if it is no warning. -/
def Output.item? : Output → Option Item
  | .path fn => some (.path fn)
  | .warning => none
  | .line _ => some .lineNumber
  | .lines _ _ => some .lineNumber

/-- The items of a faithful report on one file. -/
def FileDiff.items (f : FileDiff) : List Item :=
  .path f.path :: f.hunks.map fun _ => .lineNumber

/-- The path item that the program prints for a line, if any. -/
def lineItems (l : Text) : List Item := ((headerPath l).map Item.path).toList

/-- The items that the program prints for a hunk. -/
def Hunk.printedItems (h : Hunk) : List Item := .lineNumber :: h.body.flatMap lineItems

/-- The items that the program prints for a file. -/
def FileDiff.printedItems (f : FileDiff) : List Item :=
  lineItems f.newHeader ++ f.hunks.flatMap Hunk.printedItems

/-! ## The items of the lines -/

/-- A hunk header gives one line-number item, with a warning or without. -/
theorem hunk_items (left right : Int32) :
    (hunk left right).filterMap Output.item? = [.lineNumber] := by
  unfold hunk
  dsimp only
  split_ifs <;> rfl

/-- The sign of the first number is taken back. -/
theorem toInt_neg {a : Nat} (ha : a < 2 ^ 63) : toInt (-a) * -1 = Int32.ofNat a := by
  unfold toInt
  rw [max_eq_right (by omega), min_eq_left (by omega), Int32.ofInt_neg, Int32.ofInt_eq_ofNat,
    Int32.mul_neg, Int32.mul_one, Int32.neg_neg]

theorem toInt_natCast {b : Nat} (hb : b < 2 ^ 63) : toInt b = Int32.ofNat b := by
  unfold toInt
  rw [max_eq_right (by omega), min_eq_left (by omega), Int32.ofInt_eq_ofNat]

/-- The numbers of the item: the first lines of the hunk, three lines further. -/
theorem hunk_numbers {a b : Nat} (ha : a < 2 ^ 31 - 3) (hb : b < 2 ^ 31 - 3) :
    (hunk (toInt (-a)) (toInt b)).getLast? =
      some (if a = b then .line (Int32.ofNat (a + 3))
        else .lines (Int32.ofNat (a + 3)) (Int32.ofNat (b + 3))) := by
  have hleft : toInt (-a) * -1 + 3 = Int32.ofNat (a + 3) := by
    rw [toInt_neg (by omega), Int32.ofNat_add]
    rfl
  have hright : toInt b + 3 = Int32.ofNat (b + 3) := by
    rw [toInt_natCast (by omega), Int32.ofNat_add]
    rfl
  have hiff : Int32.ofNat (a + 3) = Int32.ofNat (b + 3) ↔ a = b := by
    rw [← Int32.toInt_inj, Int32.toInt_ofNat_of_lt (by omega), Int32.toInt_ofNat_of_lt (by omega)]
    omega
  unfold hunk
  simp only [hleft, hright, hiff]
  split_ifs <;> simp

/-- A line that does not start with `+` gives no item. -/
theorem lineItems_other {c : UInt8} (hplus : c ≠ 43) (s : Text) : lineItems (c :: s) = [] := by
  have hnone : headerPath (c :: s) = none := by
    apply headerPath_eq_none
    intro h
    apply hplus
    obtain ⟨t, ht⟩ := h
    exact (List.cons.inj ht).1.symm
  unfold lineItems
  rw [hnone]
  rfl

/-- The items of a line that starts with a mark. -/
theorem classify_items {c : UInt8} (hat : c ≠ 64) (hzero : c ≠ 0) (s : Text) (locals : Locals) :
    (classify (c :: s) locals).filterMap Output.item? = lineItems (c :: s) := by
  by_cases hplus : c = 43
  · subst hplus
    rw [classify_plus]
    unfold lineItems
    cases headerPath (43 :: s) <;> rfl
  · rw [classify_other hplus hat hzero, lineItems_other hplus]
    rfl

/-- The items of lines that start with a mark. -/
theorem outputs_items {ls : List Text} (junk : Nat → Locals) (i : Nat)
    (hls : ∀ l ∈ ls, ∃ c s, l = c :: s ∧ c ≠ 64 ∧ c ≠ 0) :
    (outputs junk i ls).filterMap Output.item? = ls.flatMap lineItems := by
  induction ls generalizing i with
  | nil => rfl
  | cons l ls ih =>
    obtain ⟨c, s, rfl, hat, hzero⟩ := hls l List.mem_cons_self
    rw [outputs, List.filterMap_append, classify_items hat hzero, List.flatMap_cons,
      ih (i + 1) fun l' hl' => hls l' (List.mem_cons_of_mem _ hl')]

theorem outputs_append (junk : Nat → Locals) (i : Nat) (ls ls' : List Text) :
    outputs junk i (ls ++ ls') = outputs junk i ls ++ outputs junk (i + ls.length) ls' := by
  induction ls generalizing i with
  | nil => rfl
  | cons l ls ih =>
    rw [List.cons_append, outputs, outputs, ih, List.append_assoc, List.length_cons]
    congr 3
    omega

/-- The items of parts that print theirs wherever they stand. -/
theorem outputs_flatMap {α : Type} {render : α → List Text} {items : α → List Item} {as : List α}
    (h : ∀ a ∈ as, ∀ junk i, (outputs junk i (render a)).filterMap Output.item? = items a)
    (junk : Nat → Locals) (i : Nat) :
    (outputs junk i (as.flatMap render)).filterMap Output.item? = as.flatMap items := by
  induction as generalizing i with
  | nil => rfl
  | cons a as ih =>
    rw [List.flatMap_cons, outputs_append, List.filterMap_append, h a List.mem_cons_self,
      ih (fun a' ha' => h a' (List.mem_cons_of_mem _ ha')), List.flatMap_cons]

/-- The items of a hunk. -/
theorem hunk_render_items (h : Hunk) (junk : Nat → Locals) (i : Nat) :
    (outputs junk i h.render).filterMap Output.item? = h.printedItems := by
  have hbody : ∀ l ∈ h.body, ∃ c s, l = c :: s ∧ c ≠ 64 ∧ c ≠ 0 := by
    intro l hl
    obtain ⟨mark, hmark, text, rfl⟩ := h.body_mark l hl
    have hmarks : ∀ mark ∈ bytes " +-\\", mark ≠ 64 ∧ mark ≠ 0 := by
      have hbytes : bytes " +-\\" = [32, 43, 45, 92] := by decide
      simp [hbytes]
    exact ⟨mark, text, rfl, hmarks mark hmark⟩
  unfold Hunk.render
  rw [outputs, List.filterMap_append, Hunk.header, classify_hunk, hunk_items,
    outputs_items _ _ hbody]
  rfl

/-- The lines in front of the new name start with marks and give no item. -/
theorem front_items (f : FileDiff) {l : Text} (hl : l ∈ f.preamble ++ [f.oldHeader]) :
    (∃ c s, l = c :: s ∧ c ≠ 64 ∧ c ≠ 0) ∧ lineItems l = [] := by
  have hmarks : ∀ mark ∈ bytes "I=", mark ≠ 43 ∧ mark ≠ 64 ∧ mark ≠ 0 := by
    have hbytes : bytes "I=" = [73, 61] := by decide
    simp [hbytes]
  rcases List.mem_append.mp hl with hl | hl
  · obtain ⟨mark, hmark, text, rfl⟩ := f.preamble_mark l hl
    obtain ⟨hplus, hat, hzero⟩ := hmarks mark hmark
    exact ⟨⟨mark, text, rfl, hat, hzero⟩, lineItems_other hplus text⟩
  · rw [List.mem_singleton.mp hl]
    exact ⟨⟨45, _, rfl, by decide, by decide⟩, lineItems_other (by decide) _⟩

/-- The items of a file. -/
theorem file_render_items (f : FileDiff) (junk : Nat → Locals) (i : Nat) :
    (outputs junk i f.render).filterMap Output.item? = f.printedItems := by
  have hrender : f.render =
      (f.preamble ++ [f.oldHeader]) ++ (f.newHeader :: f.hunks.flatMap Hunk.render) := by
    simp [FileDiff.render]
  have hfront : (f.preamble ++ [f.oldHeader]).flatMap lineItems = [] :=
    List.flatMap_eq_nil_iff.mpr fun l hl => (front_items f hl).2
  have hnew : ∀ locals, (classify f.newHeader locals).filterMap Output.item? =
      lineItems f.newHeader :=
    fun locals => classify_items (by decide) (by decide) _ locals
  rw [hrender, outputs_append, List.filterMap_append,
    outputs_items _ _ fun l hl => (front_items f hl).1, hfront, List.nil_append, outputs,
    List.filterMap_append, hnew, outputs_flatMap fun h _ => hunk_render_items h]
  rfl

/-- The items of a report. -/
theorem report_items (files : List FileDiff) (junk : Nat → Locals) (i : Nat) :
    (outputs junk i (files.flatMap FileDiff.render)).filterMap Output.item? =
      files.flatMap FileDiff.printedItems :=
  outputs_flatMap (fun f _ => file_render_items f) junk i

/-- The lines of a diff and their paths fit into the buffers. -/
theorem render_fits {files : List FileDiff} {l : Text}
    (hl : l ∈ files.flatMap FileDiff.render) : 10 ∉ l ∧ l.length < 10239 ∧ PathFits l := by
  have hline : IsLine l := by
    obtain ⟨f, -, hl⟩ := List.mem_flatMap.mp hl
    unfold FileDiff.render at hl
    rcases List.mem_append.mp hl with hl | hl
    · exact f.preamble_isLine l hl
    rcases List.mem_cons.mp hl with rfl | hl
    · exact f.old_isLine
    rcases List.mem_cons.mp hl with rfl | hl
    · exact f.new_isLine
    obtain ⟨h, -, hl⟩ := List.mem_flatMap.mp hl
    unfold Hunk.render at hl
    rcases List.mem_cons.mp hl with rfl | hl
    · exact h.header_isLine
    · exact h.body_isLine l hl
  exact ⟨hline.noLineFeed, hline.short.trans (by decide), pathFits_of_short hline.short⟩

/-! ## Faithful reports -/

/-- Longer parts that give the same list are not longer. -/
theorem eq_of_flatMap_eq {α β : Type} {f g : α → List β} {l : List α}
    (hsub : ∀ a ∈ l, (f a).Sublist (g a)) (heq : l.flatMap g = l.flatMap f) :
    ∀ a ∈ l, g a = f a := by
  induction l with
  | nil => simp
  | cons a l ih =>
    have ha := hsub a List.mem_cons_self
    have hl : ∀ a' ∈ l, (f a').Sublist (g a') := fun a' ha' => hsub a' (List.mem_cons_of_mem a ha')
    have htail : (l.flatMap f).length ≤ (l.flatMap g).length := by
      rw [List.length_flatMap, List.length_flatMap]
      exact List.sum_le_sum fun a' ha' => (hl a' ha').length_le
    rw [List.flatMap_cons, List.flatMap_cons] at heq
    have hlen := congrArg List.length heq
    rw [List.length_append, List.length_append] at hlen
    have hhead : g a = f a := (ha.eq_of_length (by have := ha.length_le; omega)).symm
    rw [hhead] at heq
    have hrest := ih hl (List.append_cancel_left heq)
    intro a' ha'
    rcases List.mem_cons.mp ha' with rfl | ha'
    · exact hhead
    · exact hrest a' ha'

/-- A line that names a file for the program: `+++` and a visible byte behind it,
as far as the C string goes. -/
def namesFile (l : Text) : Prop := ∃ s, l = bytes "+++" ++ s ∧ ∃ b ∈ cstring s, isspace b = false

/-- A word is read exactly if there is a visible byte. -/
theorem firstWord_eq_none_iff (s : Text) :
    firstWord s = none ↔ ∀ b ∈ cstring s, isspace b = true := by
  rw [← List.dropWhile_eq_nil_iff]
  unfold firstWord
  cases (cstring s).dropWhile isspace with
  | nil => simp
  | cons c t => simp

/-- A line gives no item exactly if it names no file. -/
theorem lineItems_eq_nil_iff (l : Text) : lineItems l = [] ↔ ¬ namesFile l := by
  have hbytes : bytes "+++" = [43, 43, 43] := by decide
  have hitems : lineItems l = [] ↔ headerPath l = none := by
    unfold lineItems
    cases headerPath l <;> simp
  rw [hitems]
  unfold namesFile
  rw [hbytes]
  by_cases h : [43, 43, 43] <+: l
  · obtain ⟨s, rfl⟩ := h
    show firstWord s = none ↔ _
    rw [firstWord_eq_none_iff]
    simp
  · rw [headerPath_eq_none h]
    constructor
    · intro _ hnames
      rcases hnames with ⟨s, rfl, -⟩
      exact h ⟨s, rfl⟩
    · intro _
      rfl

/-- The header of a file gives its path exactly if the path is one word. -/
theorem lineItems_header (f : FileDiff)
    (hword : ∀ b ∈ f.path, isspace b = false ∧ b ≠ 0) : lineItems f.newHeader = [.path f.path] := by
  unfold lineItems FileDiff.newHeader
  rw [headerPath_header f.path_ne_nil hword]
  rfl

/-- A path among the items that are printed is one word. -/
theorem word_of_mem_printedItems {f : FileDiff} {fn : Text} (h : .path fn ∈ f.printedItems) :
    ∀ b ∈ fn, isspace b = false ∧ b ≠ 0 := by
  have hline : ∀ l, .path fn ∈ lineItems l → ∀ b ∈ fn, isspace b = false ∧ b ≠ 0 := by
    intro l hl
    have hsome : headerPath l = some fn := by
      simpa [lineItems] using hl
    exact (headerPath_word hsome).2
  unfold FileDiff.printedItems at h
  rcases List.mem_append.mp h with h | h
  · exact hline _ h
  · obtain ⟨k, -, h⟩ := List.mem_flatMap.mp h
    unfold Hunk.printedItems at h
    rcases List.mem_cons.mp h with h | h
    · exact absurd h (by simp)
    · obtain ⟨l, -, h⟩ := List.mem_flatMap.mp h
      exact hline l h

/-- A faithful report on hunks is in the items that are printed. -/
theorem hunk_items_sublist (h : Hunk) : List.Sublist [Item.lineNumber] h.printedItems :=
  (List.nil_sublist _).cons_cons _

/-- The faithful items, hunk by hunk. -/
theorem FileDiff.items_eq (f : FileDiff) :
    f.items = .path f.path :: f.hunks.flatMap fun _ => [.lineNumber] := by
  unfold FileDiff.items
  rw [List.map_eq_flatMap]

/-- With a path of one word the items of a file start with it. -/
theorem printedItems_eq {f : FileDiff} (hword : ∀ b ∈ f.path, isspace b = false ∧ b ≠ 0) :
    f.printedItems = .path f.path :: f.hunks.flatMap Hunk.printedItems := by
  unfold FileDiff.printedItems
  rw [lineItems_header f hword]
  rfl

/-- With a path of one word nothing of the file is lost. -/
theorem items_sublist {f : FileDiff} (hword : ∀ b ∈ f.path, isspace b = false ∧ b ≠ 0) :
    f.items.Sublist f.printedItems := by
  rw [printedItems_eq hword, f.items_eq]
  apply List.Sublist.cons_cons
  induction f.hunks with
  | nil => exact List.Sublist.refl _
  | cons h hs ih => exact (hunk_items_sublist h).append ih

/-- With a path of one word the report on a file is faithful exactly if no line of
a body names a file. -/
theorem printedItems_eq_iff {f : FileDiff} (hword : ∀ b ∈ f.path, isspace b = false ∧ b ≠ 0) :
    f.printedItems = f.items ↔ ∀ h ∈ f.hunks, ∀ l ∈ h.body, ¬ namesFile l := by
  have hhunk : ∀ h : Hunk, h.printedItems = [.lineNumber] ↔ ∀ l ∈ h.body, ¬ namesFile l := by
    intro h
    unfold Hunk.printedItems
    rw [List.cons_eq_cons, and_iff_right rfl, List.flatMap_eq_nil_iff]
    exact forall₂_congr fun l _ => lineItems_eq_nil_iff l
  rw [printedItems_eq hword, f.items_eq, List.cons_eq_cons, and_iff_right rfl]
  constructor
  · intro heq h hh
    exact (hhunk h).mp (eq_of_flatMap_eq (fun h _ => hunk_items_sublist h) heq h hh)
  · intro hbodies
    exact List.flatMap_congr fun h hh => (hhunk h).mpr (hbodies h hh)

/-- The program reports a diff faithfully exactly if the paths are single words and
no line of a body names a file. -/
theorem report_faithful_iff (files : List FileDiff) (junk : Nat → Locals) :
    ∃ out, (∀ fuel, (files.flatMap FileDiff.render).length < fuel →
        sreport junk fuel (unlines (files.flatMap FileDiff.render)) = some out) ∧
      (out.filterMap Output.item? = files.flatMap FileDiff.items ↔
        ∀ f ∈ files, (∀ b ∈ f.path, isspace b = false ∧ b ≠ 0) ∧
          ∀ h ∈ f.hunks, ∀ l ∈ h.body, ¬ namesFile l) := by
  refine ⟨outputs junk 0 (files.flatMap FileDiff.render), fun fuel hfuel =>
    loop_unlines junk (fun l hl => render_fits hl) hfuel 0, ?_⟩
  rw [report_items]
  constructor
  · intro heq f hf
    have hwords : ∀ g ∈ files, ∀ b ∈ g.path, isspace b = false ∧ b ≠ 0 := by
      intro g hg
      have hmem : .path g.path ∈ files.flatMap FileDiff.items :=
        List.mem_flatMap.mpr ⟨g, hg, List.mem_cons_self⟩
      rw [← heq] at hmem
      obtain ⟨_, -, hprinted⟩ := List.mem_flatMap.mp hmem
      exact word_of_mem_printedItems hprinted
    have hfile := eq_of_flatMap_eq (fun g hg => items_sublist (hwords g hg)) heq f hf
    exact ⟨hwords f hf, (printedItems_eq_iff (hwords f hf)).mp hfile⟩
  · intro hgood
    exact List.flatMap_congr fun f hf =>
      (printedItems_eq_iff (hgood f hf).1).mpr (hgood f hf).2

/-- A diff of a file whose name has a blank, with one added line `++y;`. -/
def incrementDiff : FileDiff where
  preamble := []
  path := bytes "a b.c"
  oldRest := []
  newRest := []
  hunks := [{
    oldStart := 9
    oldLength := 1
    newStart := 9
    newLength := 2
    tail := []
    body := [bytes " x;", bytes "+++y;"]
    header_isLine := ⟨by decide +kernel, by decide +kernel⟩
    body_isLine := by
      intro l hl
      exact ⟨by revert l; decide, by revert l; decide⟩
    body_mark := by
      intro l hl
      rcases List.mem_pair.mp hl with rfl | rfl
      · exact ⟨32, by decide, bytes "x;", by decide⟩
      · exact ⟨43, by decide, bytes "++y;", by decide⟩ }]
  path_ne_nil := by decide
  preamble_isLine := by simp
  preamble_mark := by simp
  old_isLine := ⟨by decide, by decide⟩
  new_isLine := ⟨by decide, by decide⟩

/-- The report on that diff: half the path, and the added line as a file. -/
theorem report_increment :
    ∃ out, sreport (fun _ => ⟨0, 0⟩) 6 (unlines ([incrementDiff].flatMap FileDiff.render)) =
        some out ∧
      out.filterMap Output.item? ≠ [incrementDiff].flatMap FileDiff.items :=
  ⟨[.path (bytes "a"), .line 12, .path (bytes "y;")], by decide +kernel, by decide +kernel⟩

end PtsTools.Sreport
