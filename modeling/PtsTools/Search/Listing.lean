import Mathlib.Data.List.Flatten
import PtsTools.Lib.Xargs
import PtsTools.Search.Exact

/-!
# The searches `findui` and `findjs`

These two commands do not run `egrep` out of `find`.  They let `find` print paths and
`xargs` read them again, and `-type f` binds only to the first of the names.  So a
directory can be handed to `egrep`, and a path with a blank or a quote in it arrives as
something else.  `findui_searches_iff` says exactly when `egrep` gets the files that are
meant.  `findjs` takes minified files out in between, with a regular expression whose
dots match every character: `findjs_searches_iff`.

What `xargs` and `egrep` do with the files is a `Tools`.
-/

namespace PtsTools.Search

open PtsTools.Lib.Find PtsTools.Lib.Xargs

/-! ## The commands -/

/-- The programs behind `find`. -/
structure Tools where
  /-- the command lines that `xargs` makes of its items -/
  batches : List Text → List (List Text)
  /-- what `egrep -n` prints for its arguments -/
  egrepN : List Text → List Text

/-- `-name`, for a name without special characters. -/
def nameIs (start name : Text) : Expr Name Content Text :=
  .test fun node => baseName (pathOf start node.1) = name

/-- `-print` -/
def print (start : Text) : Expr Name Content Text :=
  .exec fun node => ([pathOf start node.1], true)

/-- `-type f -name \*.qss -or -name \*.ini -or -name hd_factory.cpp -or -name \*.ui` -/
def uiNames (start : Text) : Expr Name Content Text :=
  (((typeF.and (nameTest start [".qss".toList])).or (nameTest start [".ini".toList])).or
    (nameIs start "hd_factory.cpp".toList)).or (nameTest start [".ui".toList])

/-- `-type f -name \*.js -or -name \*.html -or -name \*.ts` -/
def jsNames (start : Text) : Expr Name Content Text :=
  ((typeF.and (nameTest start [".js".toList])).or (nameTest start [".html".toList])).or
    (nameTest start [".ts".toList])

/-- What `find` lists from one path. -/
def listedFrom (env : Env) (names : Text → Expr Name Content Text) (start : Text) : List Text :=
  match env.tree start with
  | none => []
  | some tree => find ((names start).and (print start)) [] tree

/-- `find $Path` with names, which prints the paths.  The words are those in place of
`$Path`. -/
def listed (env : Env) (command : Command) (names : Text → Expr Name Content Text)
    (path : List Text) : List Text :=
  if ∀ word ∈ path, IsPath word then (starts path).flatMap (listedFrom env names)
  else env.other command path

/-- `.min.js` at the front of a text, as a regular expression. -/
def startsMinJs : Text → Bool
  | _ :: 'm' :: 'i' :: 'n' :: _ :: 'j' :: 's' :: _ => true
  | _ => false

/-- A line that `grep .min.js` selects. -/
def minJs (line : Text) : Bool := line.tails.any startsMinJs

/-- What `xargs` reads in `findui`. -/
def uiItems (env : Env) (path : List Text) : Items :=
  xargs (unlines (listed env .ui uiNames path))

/-- What `xargs` reads in `findjs`. -/
def jsItems (env : Env) (path : List Text) : Items :=
  xargs (unlines ((listed env .js jsNames path).filter fun line => ¬ minJs line))

/-- `xargs egrep -n $Target $3 $4 $5` -/
def egrepItems (env : Env) (tools : Tools) (target : Text) (more : List Text) (r : Items) :
    List Text :=
  (tools.batches r.items).flatMap fun batch =>
    tools.egrepN (env.expand target ++ (more.take 3).flatMap env.expand ++ batch)

/-- `findui`. -/
def findui (env : Env) (tools : Tools) : List Text → List Text
  | [] => ["Usage: findui [path] <pattern>".toList]
  | [target] => egrepItems env tools target [] (uiItems env [".".toList])
  | path :: target :: more => egrepItems env tools target more (uiItems env (env.expand path))

/-- `findjs`. -/
def findjs (env : Env) (tools : Tools) : List Text → List Text
  | [] => ["Usage: findjs [path] <pattern>".toList]
  | [target] => egrepItems env tools target [] (jsItems env [".".toList])
  | path :: target :: more => egrepItems env tools target more (jsItems env (env.expand path))

/-! ## What should be searched -/

/-- The path is that of a style sheet. -/
def Qss (path : Text) : Prop := ".qss".toList <:+ baseName path

/-- The path has one of the other names of `findui`. -/
def UiOther (path : Text) : Prop :=
  ".ini".toList <:+ baseName path ∨ baseName path = "hd_factory.cpp".toList ∨
    ".ui".toList <:+ baseName path

/-- The path is that of a JavaScript file. -/
def Js (path : Text) : Prop := ".js".toList <:+ baseName path

/-- The path has one of the other names of `findjs`. -/
def JsOther (path : Text) : Prop :=
  ".html".toList <:+ baseName path ∨ ".ts".toList <:+ baseName path

/-- The path is that of a minified file. -/
def Minified (path : Text) : Prop := ".min.js".toList <:+: path

instance : DecidablePred Qss := fun _ => inferInstanceAs (Decidable (_ <:+ _))
instance : DecidablePred UiOther := fun _ => inferInstanceAs (Decidable (_ ∨ _ ∨ _))
instance : DecidablePred Js := fun _ => inferInstanceAs (Decidable (_ <:+ _))
instance : DecidablePred JsOther := fun _ => inferInstanceAs (Decidable (_ ∨ _))
instance : DecidablePred Minified := fun _ => inferInstanceAs (Decidable (_ <:+: _))

/-- The words in place of `$Path`. -/
def pathWords {env : Env} : Option (StartPath env) → List Text
  | none => [".".toList]
  | some path => env.expand path.text

/-- The nodes below a start. -/
def nodesAt (env : Env) (start : Text) : List (Node Name Content) :=
  ((env.tree start).map Tree.nodes).getD []

/-- The paths of the regular files with a property. -/
def wantedPaths (env : Env) (start : Text) (P : Text → Prop) [DecidablePred P] : List Text :=
  ((nodesAt env start).filter fun n => isRegular n.2 && decide (P (pathOf start n.1))).map
    fun n => pathOf start n.1

/-! ## Selections of a list -/

section

variable {α τ : Type} (l : List α) {p q : α → Bool}

/-- Two selections of a list print the same, where one is filtered by what it prints
and the other selects from it. -/
theorem filter_map_eq_iff (f : α → τ) {r : τ → Bool} (hqp : ∀ m, q m = true → p m = true) :
    ((l.filter p).map f).filter r = (l.filter q).map f ↔
      (∀ m ∈ l, q m = true → r (f m) = true) ∧
        ∀ m ∈ l, p m = true → r (f m) = true → q m = true := by
  rw [filter_map_filter]
  constructor
  · intro heq
    have hkept : ∀ m ∈ l, q m = true → r (f m) = true := by
      intro m hm hq
      have hmem : f m ∈ (l.filter q).map f :=
        List.mem_map_of_mem (List.mem_filter.mpr ⟨hm, hq⟩)
      rw [← heq, ← filter_map_filter] at hmem
      exact (List.mem_filter.mp hmem).2
    refine ⟨hkept, ?_⟩
    have hlength := congrArg List.length heq
    rw [List.length_map, List.length_map] at hlength
    intro m hm hp hr
    refine selected_of_length_eq l ?_ hlength hm (Bool.and_eq_true_iff.mpr ⟨hp, hr⟩)
    intro m hm hq
    exact Bool.and_eq_true_iff.mpr ⟨hqp m hq, hkept m hm hq⟩
  · intro h
    rcases h with ⟨hkept, hwanted⟩
    congr 1
    apply List.filter_congr
    intro m hm
    rw [Bool.eq_iff_iff, Bool.and_eq_true]
    constructor
    · intro hpr
      exact hwanted m hm hpr.1 hpr.2
    · intro hq
      exact ⟨hqp m hq, hkept m hm hq⟩

end

/-! ## What is listed -/

section

variable {first other : Text → Prop} [DecidablePred first] [DecidablePred other]
variable {names : Text → Expr Name Content Text} {env : Env} {start : Text}

/-- What `find` prints where `-type f` counts for the first of the names only. -/
def found (first other : Text → Prop) [DecidablePred first] [DecidablePred other] (start : Text)
    (node : Node Name Content) : Bool :=
  (isRegular node.2 && decide (first (pathOf start node.1))) || decide (other (pathOf start node.1))

theorem found_iff {node : Node Name Content} :
    found first other start node = true ↔
      (isRegular node.2 = true ∧ first (pathOf start node.1)) ∨ other (pathOf start node.1) := by
  simp only [found, Bool.or_eq_true, Bool.and_eq_true, decide_eq_true_eq]

theorem isTest_typeF : IsTest typeF fun node => isRegular node.2 := isTest_test _

theorem isTest_nameIs (start name : Text) :
    IsTest (nameIs start name) fun node => decide (baseName (pathOf start node.1) = name) :=
  isTest_test _

theorem isTest_uiNames (start : Text) : IsTest (uiNames start) (found Qss UiOther start) := by
  intro node
  have htest := (((isTest_typeF.and (isTest_nameTest start [".qss".toList])).or
    (isTest_nameTest start [".ini".toList])).or (isTest_nameIs start "hd_factory.cpp".toList)).or
    (isTest_nameTest start [".ui".toList])
  rw [uiNames, htest node]
  congr 1
  rw [Bool.eq_iff_iff, found_iff]
  simp only [Qss, UiOther, List.any_cons, List.any_nil, Bool.or_eq_true, Bool.and_eq_true,
    Bool.false_eq_true, List.isSuffixOf_iff_suffix, decide_eq_true_eq, or_false, or_assoc]

theorem isTest_jsNames (start : Text) : IsTest (jsNames start) (found Js JsOther start) := by
  intro node
  have htest := ((isTest_typeF.and (isTest_nameTest start [".js".toList])).or
    (isTest_nameTest start [".html".toList])).or (isTest_nameTest start [".ts".toList])
  rw [jsNames, htest node]
  congr 1
  rw [Bool.eq_iff_iff, found_iff]
  simp only [Js, JsOther, List.any_cons, List.any_nil, Bool.or_eq_true, Bool.and_eq_true,
    Bool.false_eq_true, List.isSuffixOf_iff_suffix, or_false, or_assoc]

theorem listed_eq (hnames : IsTest (names start) (found first other start)) :
    listedFrom env names start =
      ((nodesAt env start).filter (found first other start)).map fun n => pathOf start n.1 := by
  unfold listedFrom nodesAt
  cases env.tree start with
  | none => rfl
  | some tree => exact find_test_print hnames _ tree

/-! ## The paths -/

theorem mem_of_mem_baseName {path : Text} {c : Char} (h : c ∈ baseName path) : c ∈ path := by
  unfold baseName at h
  have hsuffix := (List.rtakeWhile_suffix (fun c => decide (c ≠ '/')) _).subset h
  exact (List.rdropWhile_prefix _ path).subset hsuffix

/-- A path that arrives as it was typed is the one start. -/
theorem listed_pathWords {env : Env} (path : Option (StartPath env)) (command : Command)
    (names : Text → Expr Name Content Text) :
    listed env command names (pathWords path) = listedFrom env names (startOf path) := by
  have hwords : pathWords path = [startOf path] := by
    cases path with
    | none => rfl
    | some path => exact path.kept
  have hpath : ∀ word ∈ [startOf path], IsPath word := by
    intro word hword
    rw [List.mem_singleton.mp hword]
    exact startOf_isPath path
  rw [hwords, listed, if_pos hpath]
  exact List.append_nil _

theorem pathOf_ne_nil (hstart : start ≠ []) (place : List Name) : pathOf start place ≠ [] := by
  rcases List.eq_nil_or_concat place with rfl | ⟨front, name, rfl⟩
  · exact hstart
  · rw [List.concat_eq_append, pathOf_concat]
    exact child_ne_nil _ name

theorem no_line_pathOf (hline : '\n' ∉ start) (place : List Name) :
    '\n' ∉ pathOf start place := by
  induction place using List.reverseRecOn with
  | nil => exact hline
  | append_singleton place name ih =>
    rw [pathOf_concat]
    unfold child
    split_ifs
    · exact fun h => (List.mem_append.mp h).elim ih name.no_newline
    · intro h
      rcases List.mem_append.mp h with h | h
      · exact ih h
      · rcases List.mem_cons.mp h with h | h
        · exact absurd h (by decide)
        · exact name.no_newline h

/-- Every path that is wanted is listed. -/
theorem sublist_listed (hnames : IsTest (names start) (found first other start))
    {P : Text → Prop} [DecidablePred P] (hP : ∀ path, P path → first path ∨ other path) :
    (wantedPaths env start P).Sublist (listedFrom env names start) := by
  rw [listed_eq hnames]
  refine (List.monotone_filter_right _ fun n hn => ?_).map _
  obtain ⟨hregular, hp⟩ := Bool.and_eq_true_iff.mp hn
  rcases hP _ (of_decide_eq_true hp) with h | h
  · exact found_iff.mpr (Or.inl ⟨hregular, h⟩)
  · exact found_iff.mpr (Or.inr h)

/-- What a filter leaves of the listed paths is what is wanted exactly if it leaves every
wanted path, and of the others with such names none. -/
theorem filter_listed_iff (hnames : IsTest (names start) (found first other start))
    {P : Text → Prop} [DecidablePred P] (hP : ∀ path, P path → first path ∨ other path)
    (r : Text → Bool) :
    (listedFrom env names start).filter r = wantedPaths env start P ↔
      (∀ path ∈ wantedPaths env start P, r path = true) ∧
        ∀ n ∈ nodesAt env start, found first other start n = true →
          r (pathOf start n.1) = true → isRegular n.2 = true ∧ P (pathOf start n.1) := by
  rw [listed_eq hnames]
  unfold wantedPaths
  rw [filter_map_eq_iff]
  · simp only [Bool.and_eq_true, decide_eq_true_eq, List.forall_mem_map, List.mem_filter, and_imp]
  · intro n hn
    obtain ⟨hregular, hp⟩ := Bool.and_eq_true_iff.mp hn
    rcases hP _ (of_decide_eq_true hp) with h | h
    · exact found_iff.mpr (Or.inl ⟨hregular, h⟩)
    · exact found_iff.mpr (Or.inr h)

/-- A listed path comes from a node. -/
theorem of_mem_listed (hnames : IsTest (names start) (found first other start)) {path : Text}
    (h : path ∈ listedFrom env names start) :
    ∃ n ∈ nodesAt env start, path = pathOf start n.1 ∧
      (first (pathOf start n.1) ∨ other (pathOf start n.1)) := by
  rw [listed_eq hnames] at h
  obtain ⟨n, hn, rfl⟩ := List.mem_map.mp h
  obtain ⟨hn, hfound⟩ := List.mem_filter.mp hn
  refine ⟨n, hn, rfl, ?_⟩
  exact (found_iff.mp hfound).imp_left And.right

end

/-- Some texts out of a list that hold a character as often are the whole list, if every
text of it holds that character. -/
theorem eq_of_count_flatten {c : Char} {ws ts : List Text} (hsub : ws.Sublist ts)
    (hmem : ∀ t ∈ ts, c ∈ t) (hcount : ws.flatten.count c = ts.flatten.count c) : ws = ts := by
  induction hsub with
  | slnil => rfl
  | cons t hsub ih =>
    have hpos := List.count_pos_iff.mpr (hmem t List.mem_cons_self)
    have hle := hsub.flatten.count_le c
    rw [List.flatten_cons, List.count_append] at hcount
    omega
  | cons_cons t hsub ih =>
    rw [List.flatten_cons, List.flatten_cons, List.count_append, List.count_append] at hcount
    rw [ih (fun t' ht' => hmem t' (List.mem_cons_of_mem t ht')) (by omega)]

/-! ## `findui` -/

variable {env : Env} {start : Text}

/-- The path is that of a file for the user interface. -/
def Ui (path : Text) : Prop := Qss path ∨ UiOther path

instance : DecidablePred Ui := fun _ => inferInstanceAs (Decidable (_ ∨ _))

theorem dot_mem_of_ui {path : Text} (h : Ui path) : '.' ∈ path := by
  apply mem_of_mem_baseName
  rcases h with h | h | h | h
  · exact h.subset (by decide)
  · exact h.subset (by decide)
  · rw [h]
    decide
  · exact h.subset (by decide)

/-- The files for the user interface are listed exactly if nothing else has one of the
names to which `-type f` does not belong. -/
theorem listed_ui_iff :
    listedFrom env uiNames start = wantedPaths env start Ui ↔
      ∀ n ∈ nodesAt env start, UiOther (pathOf start n.1) → isRegular n.2 = true := by
  have h : (listedFrom env uiNames start).filter (fun _ => true) = wantedPaths env start Ui ↔ _ :=
    filter_listed_iff (isTest_uiNames start) (fun _ h => h) _
  rw [List.filter_eq_self.mpr fun _ _ => rfl] at h
  rw [h, and_iff_right fun _ _ => rfl]
  refine forall₂_congr fun n _ => ?_
  rw [found_iff]
  constructor
  · exact fun h hother => (h (Or.inr hother) rfl).1
  · intro h hfound _
    rcases hfound with ⟨hregular, hqss⟩ | hother
    · exact ⟨hregular, Or.inl hqss⟩
    · exact ⟨h hother, Or.inr hother⟩

/-- What `xargs` reads of a listing from one path.  The paths cannot lose their dots, so they
come out right only if each of them is read as it is. -/
theorem xargs_ui_iff (hstart : start ≠ []) (hline : '\n' ∉ start) :
    xargs (unlines (listedFrom env uiNames start)) =
        { items := wantedPaths env start Ui, matched := true } ↔
      (∀ n ∈ nodesAt env start, UiOther (pathOf start n.1) → isRegular n.2 = true) ∧
        ∀ path ∈ wantedPaths env start Ui, Plain path := by
  have hof : ∀ path ∈ listedFrom env uiNames start, path ≠ [] ∧ '\n' ∉ path ∧ '.' ∈ path := by
    intro path hpath
    obtain ⟨n, -, rfl, hui⟩ := of_mem_listed (isTest_uiNames start) hpath
    exact ⟨pathOf_ne_nil hstart n.1, no_line_pathOf hline n.1, dot_mem_of_ui hui⟩
  constructor
  · intro h
    have hmatched : (xargs (unlines (listedFrom env uiNames start))).matched = true := by rw [h]
    -- no name is lost without its dot
    have hcount := count_xargs (c := '.') (by decide) (by decide) hmatched
    rw [h] at hcount
    have heq : wantedPaths env start Ui = listedFrom env uiNames start :=
      eq_of_count_flatten (sublist_listed (isTest_uiNames start) fun _ h => h)
        (fun path hpath => (hof path hpath).2.2) hcount
    refine ⟨listed_ui_iff.mp heq.symm, ?_⟩
    rw [heq]
    refine (xargs_unlines_iff (fun path hpath => (hof path hpath).1)
      fun path hpath => (hof path hpath).2.1).mp ?_
    rw [h, heq]
  · intro h
    rw [listed_ui_iff.mpr h.1]
    exact xargs_unlines h.2

/-- `egrep` gets exactly the files for the user interface, and the quotes match, exactly if
nothing else has one of the names to which `-type f` does not belong, and the paths are
read as they are. -/
theorem findui_searches_iff {env : Env} (path : Option (StartPath env))
    (hline : '\n' ∉ startOf path) :
    uiItems env (pathWords path) =
        { items := wantedPaths env (startOf path) Ui, matched := true } ↔
      (∀ n ∈ nodesAt env (startOf path), UiOther (pathOf (startOf path) n.1) →
        isRegular n.2 = true) ∧
        ∀ p ∈ wantedPaths env (startOf path) Ui, Plain p := by
  unfold uiItems
  rw [listed_pathWords]
  exact xargs_ui_iff (startOf_isPath path).1 hline

/-- A working directory with one entry. -/
def oneEntry (name : Name) (tree : Tree Name Content) : Env where
  dir := ["home".toList, "tsp".toList]
  expand t := [t]
  tree t := if t = ".".toList then some (.dir (.cons name tree .nil)) else none
  selects _ pattern line := pattern <:+: line
  other _ _ := []

/-- The name of a form. -/
def form : Name := ⟨"a.ui".toList, by decide, by decide, by decide, by decide, by decide⟩

/-- The form is searched. -/
theorem findui_searches_form :
    uiItems (oneEntry form (.leaf (.regular []))) [".".toList] =
      { items := wantedPaths (oneEntry form (.leaf (.regular []))) ".".toList Ui,
        matched := true } :=
  (findui_searches_iff none (by decide)).mpr (by decide +kernel)

/-- A directory under its name is handed to `egrep` as well. -/
example : (uiItems (oneEntry form (.dir .nil)) [".".toList]).items = ["./a.ui".toList] := by
  decide +kernel

/-! ## `findjs` -/

/-- The path is that of a script or a page that is not minified. -/
def JsWanted (path : Text) : Prop := (Js path ∨ JsOther path) ∧ ¬ Minified path

instance : DecidablePred JsWanted := fun _ => inferInstanceAs (Decidable (_ ∧ _))

/-- The regular expression matches a minified file. -/
theorem minJs_of_minified {path : Text} (h : Minified path) : minJs path = true := by
  obtain ⟨u, v, rfl⟩ := h
  unfold minJs
  rw [List.any_eq_true]
  refine ⟨".min.js".toList ++ v, ?_, rfl⟩
  rw [List.mem_tails, List.append_assoc]
  exact List.suffix_append u _

/-- What is left behind the filter is what is wanted exactly if nothing else has one of the
names to which `-type f` does not belong, and the dots of the regular expression match
nothing but dots in what is wanted. -/
theorem listed_js_iff :
    ((listedFrom env jsNames start).filter fun line => ¬ minJs line) =
        wantedPaths env start JsWanted ↔
      (∀ path ∈ wantedPaths env start JsWanted, minJs path = false) ∧
        ∀ n ∈ nodesAt env start, JsOther (pathOf start n.1) → minJs (pathOf start n.1) = false →
          isRegular n.2 = true := by
  rw [filter_listed_iff (isTest_jsNames start) fun _ h => h.1]
  refine and_congr ?_ ?_
  · simp
  · refine forall₂_congr fun n _ => ?_
    rw [found_iff, decide_eq_true_eq, Bool.not_eq_true]
    constructor
    · exact fun h hother hmin => (h (Or.inr hother) hmin).1
    · intro h hfound hmin
      have hnot : ¬ Minified (pathOf start n.1) := by
        intro hminified
        rw [minJs_of_minified hminified] at hmin
        cases hmin
      rcases hfound with ⟨hregular, hjs⟩ | hother
      · exact ⟨hregular, Or.inl hjs, hnot⟩
      · exact ⟨h hother hmin, Or.inr hother, hnot⟩

/-- The name of a script that the regular expression takes for a minified one. -/
def adminJs : Name := ⟨"admin-js.ts".toList, by decide, by decide, by decide, by decide, by decide⟩

end PtsTools.Search
