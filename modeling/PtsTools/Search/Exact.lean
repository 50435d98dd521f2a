import PtsTools.Lib.Replace
import PtsTools.Search.Model

/-!
# What `findcc` leaves out and what it adds

`findcc` prints the matches of all files that it tests for and that `find` does not
prune, without the lines that hold `project_`: `search_eq`.  That goes wrong in three
ways.  The filter at the end sees the text of a match as well as its path, so it takes
out a match that holds `project_` itself.  `find` prunes `./.venv` only where its path is
written so, that is from the start `.`, `./` or `./.venv`: `clear_iff`.  And where the
shell finds a name like `*.c` in the working directory, `find` gets that name in place of
the pattern.  Where none of this happens, exactly what is wanted is printed:
`findcc_exact_iff`.
-/

namespace PtsTools.Search

open PtsTools.Lib.Find PtsTools.Lib.Replace

/-! ## Paths -/

variable {start : Text}

/-- A path ends with the last name of the place. -/
theorem child_eq (path : Text) (name : Name) :
    ∃ front, child path name = front ++ '/' :: name.text ∧
      (path = front ∨ path = front ++ ['/']) := by
  unfold child
  split_ifs with hslash
  · rcases List.getLast?_eq_some_iff.mp hslash with ⟨front, hfront⟩
    refine ⟨front, ?_, Or.inr hfront⟩
    rw [hfront, List.append_assoc]
    rfl
  · exact ⟨path, rfl, Or.inl rfl⟩

/-- The parts of a path between the slashes. -/
def parts (path : Text) : List Text := path.splitOnP (· = '/')

theorem parts_append_slash (front s : Text) : parts (front ++ '/' :: s) = parts front ++ parts s :=
  List.splitOnP_append_cons _ _ (by decide)

theorem parts_name (name : Name) : parts name.text = [name.text] := by
  apply List.splitOnP_eq_singleton
  intro c hc
  have hne : c ≠ '/' := fun heq => name.no_slash (heq ▸ hc)
  simp [hne]

theorem pathOf_concat (place : List Name) (name : Name) :
    pathOf start (place ++ [name]) = child (pathOf start place) name := by
  unfold pathOf
  rw [List.foldl_append]
  rfl

theorem child_ne_nil (path : Text) (name : Name) : child path name ≠ [] := by
  rcases child_eq path name with ⟨front, hchild, -⟩
  rw [hchild]
  simp

/-- The last step of a path that is `./.venv`. -/
theorem child_eq_venv {path : Text} {name : Name} (h : child path name = venv) :
    name.text = ".venv".toList ∧ (path = ".".toList ∨ path = "./".toList) := by
  rcases child_eq path name with ⟨front, hchild, hpath⟩
  have hvenv : front ++ '/' :: name.text = ".".toList ++ '/' :: ".venv".toList := by
    rw [← hchild, h]
    decide
  rcases append_separator_inj name.no_slash (by decide) hvenv with ⟨hfront, hname⟩
  refine ⟨hname, ?_⟩
  rcases hpath with hpath | hpath
  · exact Or.inl (hpath.trans hfront)
  · exact Or.inr (by rw [hpath, hfront]; decide)

/-- A path with a name in it is neither `.` nor `./`. -/
theorem child_ne_dot (path : Text) (name : Name) :
    child path name ≠ ".".toList ∧ child path name ≠ "./".toList := by
  rcases child_eq path name with ⟨front, hchild, -⟩
  rw [hchild]
  constructor
  · intro h
    have hmem : '/' ∈ ".".toList := by
      rw [← h]
      exact List.mem_append_right _ List.mem_cons_self
    exact absurd hmem (by decide)
  · intro h
    have hdot : front ++ '/' :: name.text = ".".toList ++ '/' :: [] := h
    exact name.ne_nil (append_separator_inj name.no_slash List.not_mem_nil hdot).2

/-- The starts from which `find` meets `./.venv` under that path. -/
def MeetsVenv (start : Text) : Prop := start = ".".toList ∨ start = "./".toList ∨ start = venv

instance (start : Text) : Decidable (MeetsVenv start) :=
  inferInstanceAs (Decidable (_ ∨ _ ∨ _))

/-- A place has the path `./.venv`. -/
theorem pathOf_eq_venv {place : List Name} (h : pathOf start place = venv) :
    (place = [] ∧ start = venv) ∨
      ∃ name, place = [name] ∧ name.text = ".venv".toList ∧
        (start = ".".toList ∨ start = "./".toList) := by
  rcases List.eq_nil_or_concat place with hnil | ⟨front, name, hplace⟩
  · rw [hnil] at h
    exact Or.inl ⟨hnil, h⟩
  · right
    rw [List.concat_eq_append] at hplace
    rw [hplace, pathOf_concat] at h
    rcases child_eq_venv h with ⟨hname, hpath⟩
    rcases List.eq_nil_or_concat front with hfront | ⟨front', name', hfront⟩
    · rw [hfront] at hplace hpath
      exact ⟨name, hplace, hname, hpath⟩
    · rw [List.concat_eq_append] at hfront
      rw [hfront, pathOf_concat] at hpath
      rcases hpath with hpath | hpath
      · exact absurd hpath (child_ne_dot _ _).1
      · exact absurd hpath (child_ne_dot _ _).2

/-! ## Where a path leads -/

variable (dir : List Text)

theorem resolve_child {path : Text} (hpath : path ≠ []) (name : Name) :
    resolve dir (child path name) = resolve dir path ++ [name.text] := by
  have hhead : (child path name).head? = path.head? := by
    unfold child
    split_ifs
    · exact List.head?_append_of_ne_nil _ hpath
    · exact List.head?_append_of_ne_nil _ hpath
  have hname : ¬ (name.text = [] ∨ name.text = ".".toList) := by
    rintro (h | h)
    · exact name.ne_nil h
    · exact name.ne_dot h
  rcases child_eq path name with ⟨front, hchild, hfront⟩
  unfold resolve
  rw [hhead]
  change (parts _).foldl _ _ = (parts _).foldl _ _ ++ _
  rw [hchild, parts_append_slash, parts_name, List.foldl_append, List.foldl_cons, List.foldl_nil,
    if_neg hname, if_neg name.ne_dots]
  congr 1
  rcases hfront with heq | heq
  · rw [heq]
  · rw [heq, parts_append_slash, List.foldl_append]
    rfl

/-- A place below the start leads to the place below where the start leads. -/
theorem resolve_pathOf (hstart : start ≠ []) (place : List Name) :
    resolve dir (pathOf start place) = resolve dir start ++ place.map Name.text := by
  induction place using List.reverseRecOn with
  | nil => simp [pathOf]
  | append_singleton place name ih =>
    have hne : pathOf start place ≠ [] := by
      rcases List.eq_nil_or_concat place with hnil | ⟨front, name', hplace⟩
      · rw [hnil]
        exact hstart
      · rw [hplace, List.concat_eq_append, pathOf_concat]
        exact child_ne_nil _ _
    rw [pathOf_concat, resolve_child dir hne, ih]
    simp

theorem resolve_dot : resolve dir ".".toList = dir ∧ resolve dir "./".toList = dir ∧
    resolve dir venv = dir ++ [".venv".toList] := ⟨rfl, rfl, rfl⟩

/-- Below a directory that lies below the start. -/
theorem below_append {path : Text} {rest : List Text} (hrest : rest ≠ [])
    (h : resolve dir path = dir ++ [".venv".toList] ++ rest) : Below dir path := by
  unfold Below
  rw [h, List.dropLast_append_of_ne_nil hrest]
  exact List.prefix_append _ _

/-- From the working directory, what lies below `./.venv` begins with that name. -/
theorem head_of_below {place : List Name} (hstart : start ≠ []) (hdir : resolve dir start = dir)
    (h : Below dir (pathOf start place)) :
    ∃ name rest, place = name :: rest ∧ name.text = ".venv".toList := by
  unfold Below at h
  rw [resolve_pathOf dir hstart, hdir] at h
  cases place with
  | nil =>
    have hlength := h.length_le
    rw [List.map_nil, List.append_nil, List.length_append, List.length_dropLast,
      List.length_singleton] at hlength
    omega
  | cons name rest =>
    refine ⟨name, rest, rfl, ?_⟩
    rw [List.map_cons, List.dropLast_append_of_ne_nil (List.cons_ne_nil _ _),
      List.prefix_append_right_inj] at h
    have hhead := h.trans (List.dropLast_prefix _)
    exact (List.cons_prefix_cons.mp hhead).1.symm

/-- A name `.venv` in the working directory is met as `./.venv`. -/
theorem child_dot {name : Name} (hname : name.text = ".venv".toList) :
    child ".".toList name = venv ∧ child "./".toList name = venv := by
  unfold child
  rw [hname]
  decide

/-- On the way to something below `./.venv` the search meets `./.venv`, from these
starts. -/
theorem exists_venv (hstart : MeetsVenv start) {place : List Name}
    (hbelow : Below dir (pathOf start place)) : ∃ q, q <+: place ∧ pathOf start q = venv := by
  rcases hstart with rfl | rfl | rfl
  · rcases head_of_below dir (by decide) (resolve_dot dir).1 hbelow with ⟨name, rest, rfl, hname⟩
    exact ⟨[name], ⟨rest, rfl⟩, (child_dot hname).1⟩
  · rcases head_of_below dir (by decide) (resolve_dot dir).2.1 hbelow with ⟨name, rest, rfl, hname⟩
    exact ⟨[name], ⟨rest, rfl⟩, (child_dot hname).2⟩
  · exact ⟨[], List.nil_prefix, rfl⟩

/-- Where the search meets `./.venv`, it started from one of them, and what comes
behind lies below. -/
theorem below_of_venv (hstart : start ≠ []) {q rest : List Name} (hrest : rest ≠ [])
    (hq : pathOf start q = venv) : MeetsVenv start ∧ Below dir (pathOf start (q ++ rest)) := by
  have hmap : rest.map Name.text ≠ [] := fun hnil => hrest (List.map_eq_nil_iff.mp hnil)
  have hresolve := resolve_pathOf dir hstart (q ++ rest)
  rw [List.map_append] at hresolve
  rcases pathOf_eq_venv hq with ⟨hnil, heq⟩ | ⟨name, hname, htext, heq⟩
  · refine ⟨Or.inr (Or.inr heq), below_append dir hmap ?_⟩
    rw [hresolve, hnil, heq, (resolve_dot dir).2.2, List.map_nil, List.nil_append]
  · have hdir : resolve dir start = dir := by
      rcases heq with heq | heq
      · rw [heq, (resolve_dot dir).1]
      · rw [heq, (resolve_dot dir).2.1]
    refine ⟨?_, below_append dir hmap ?_⟩
    · rcases heq with heq | heq
      · exact Or.inl heq
      · exact Or.inr (Or.inl heq)
    · rw [hresolve, hname, hdir, List.map_singleton, htext, List.append_assoc]

/-- A source file that the search meets at a place is cut off by `-prune` exactly if
the search started where it meets `./.venv`, and the file is below that. -/
theorem clear_iff (hstart : start ≠ []) {place : List Name}
    (hsource : Source (pathOf start place)) :
    Clear (fun place => pathOf start place = venv) [] place ↔
      ¬ (MeetsVenv start ∧ Below dir (pathOf start place)) := by
  constructor
  · intro hclear h
    rcases exists_venv dir h.1 h.2 with ⟨q, hq, hvenv⟩
    exact of_decide_eq_false (hclear q hq) hvenv
  · intro h q hq
    apply decide_eq_false
    intro hvenv
    rcases hq with ⟨rest, rfl⟩
    apply h
    apply below_of_venv dir hstart _ hvenv
    -- `./.venv` itself has none of the extensions
    intro hnil
    rw [List.nil_append] at hvenv
    rw [hnil, List.append_nil, hvenv] at hsource
    exact absurd hsource (by decide)

/-! ## The expression -/

theorem isTest_nameTest (start : Text) (endings : List Text) :
    IsTest (nameTest start endings) fun node =>
      endings.any fun e => e.isSuffixOf (baseName (pathOf start node.1)) :=
  isTest_test _

/-- The alternatives between the brackets test for the endings that the shell has left. -/
theorem isTest_names {env : Env} (haccepted : ¬ Refused env) (start : Text) :
    IsTest (names env start) fun node => decide (Tested env (pathOf start node.1)) := by
  intro node
  have htest := (((isTest_nameTest start (expanded env hc)).or
    (isTest_nameTest start (expanded env hcpp))).or
    (isTest_nameTest start [".inc".toList])).or (isTest_nameTest start [".rc".toList]) |>.or
    (isTest_nameTest start [".cs".toList])
  rw [names, htest node]
  congr 1
  rw [Bool.eq_iff_iff]
  simp only [Bool.or_eq_true, List.any_eq_true, List.isSuffixOf_iff_suffix, decide_eq_true_eq,
    Tested, tested, if_neg haccepted, List.mem_append, or_and_right, exists_or, List.mem_cons,
    List.not_mem_nil, or_false, exists_eq_left, or_assoc]

theorem isTest_source {env : Env} (haccepted : ¬ Refused env) (start : Text) :
    IsTest (typeF.and (names env start)) fun node =>
      isRegular node.2 && decide (Tested env (pathOf start node.1)) :=
  (isTest_test _).and (isTest_names haccepted start)

/-- `find` prints nothing at a directory, and does not prune it, where it looks for
source files. -/
theorem quiet_egrep {env : Env} (haccepted : ¬ Refused env) (icase : Bool) (start target : Text) :
    Quiet ((typeF.and (names env start)).and (execEgrep env icase start target)) := by
  intro place entries
  rw [(isTest_source haccepted start).eval_and]
  exact ⟨rfl, rfl⟩

/-- At a file it prints the matches, if it tests for its ending. -/
theorem eval_leaf {env : Env} (haccepted : ¬ Refused env) (icase : Bool) (start target : Text)
    (place : List Name) (content : Content) :
    (((typeF.and (names env start)).and (execEgrep env icase start target)).eval
        (place, .leaf content)).out =
      (if Tested env (pathOf start place) then egrep env icase target (pathOf start place) content
        else []).map Match.text := by
  rw [(isTest_source haccepted start).eval_and]
  cases content with
  | regular lines =>
    by_cases htested : Tested env (pathOf start place)
    · simp [htested, isRegular, execEgrep, Expr.eval]
    · simp [htested]
  | other => simp [isRegular, egrep]

theorem path_of_mem_egrep {env : Env} {icase : Bool} {target path : Text} {content : Content}
    {m : Match} (h : m ∈ egrep env icase target path content) : m.path = path := by
  cases content with
  | regular lines =>
    rcases List.mem_map.mp h with ⟨l, -, hm⟩
    rw [← hm]
  | other => exact absurd h List.not_mem_nil

theorem expanded_subset (env : Env) (endings : List Text) : expanded env endings ⊆ endings := by
  unfold expanded
  split_ifs
  · exact List.Subset.refl _
  · exact List.filter_subset_self _

/-- `find` tests for endings of source files only. -/
theorem Tested.source {env : Env} {path : Text} (h : Tested env path) : Source path := by
  obtain ⟨e, he, hpath⟩ := h
  refine ⟨e, ?_, hpath⟩
  unfold tested at he
  split_ifs at he
  · exact absurd he List.not_mem_nil
  · have hhc : ∀ e ∈ hc, e ∈ extensions := by decide
    have hhcpp : ∀ e ∈ hcpp, e ∈ extensions := by decide
    have hrest : ∀ e ∈ [".inc".toList, ".rc".toList, ".cs".toList], e ∈ extensions := by decide
    rcases List.mem_append.mp he with he | he
    · rcases List.mem_append.mp he with he | he
      · exact hhc e (expanded_subset env hc he)
      · exact hhcpp e (expanded_subset env hcpp he)
    · exact hrest e he

/-- The work at one file: its matches, if it is tested for and not cut off. -/
theorem work_leaf {env : Env} (haccepted : ¬ Refused env) (icase : Bool) (hstart : start ≠ [])
    (target : Text) (l : List Name × Content) :
    work (fun place => decide (pathOf start place = venv))
        ((typeF.and (names env start)).and (execEgrep env icase start target)) [] [l] =
      ((if Source (pathOf start l.1) then egrep env icase target (pathOf start l.1) l.2
          else []).filter fun m =>
        Tested env m.path ∧ ¬ (MeetsVenv start ∧ Below env.dir m.path)).map Match.text := by
  by_cases htested : Tested env (pathOf start l.1)
  · have hsource := htested.source
    have hclear := clear_iff env.dir hstart hsource
    have hpath : ∀ m ∈ egrep env icase target (pathOf start l.1) l.2,
        (Tested env m.path ∧ ¬ (MeetsVenv start ∧ Below env.dir m.path)) ↔
          Clear (fun place => decide (pathOf start place = venv)) [] l.1 := by
      intro m hm
      rw [path_of_mem_egrep hm, and_iff_right htested]
      exact hclear.symm
    unfold work
    by_cases hcut : Clear (fun place => decide (pathOf start place = venv)) [] l.1
    · rw [if_pos hsource, List.filter_eq_self.mpr fun m hm =>
        decide_eq_true ((hpath m hm).mpr hcut)]
      simp [hcut, eval_leaf haccepted, htested]
    · rw [if_pos hsource, List.filter_eq_nil_iff.mpr fun m hm hnot =>
        hcut ((hpath m hm).mp (of_decide_eq_true hnot))]
      simp [hcut]
  · have hnone : ∀ m ∈ (if Source (pathOf start l.1) then
        egrep env icase target (pathOf start l.1) l.2 else []), ¬ Tested env m.path := by
      intro m hm
      split_ifs at hm
      · rwa [path_of_mem_egrep hm]
      · exact absurd hm List.not_mem_nil
    rw [List.filter_eq_nil_iff.mpr fun m hm hnot =>
      hnone m hm (of_decide_eq_true hnot).1]
    simp [work, eval_leaf haccepted, htested]

/-- `find` prints from a path the matches that it tests for and does not cut off. -/
theorem searchFrom_eq {env : Env} (haccepted : ¬ Refused env) (icase : Bool) (hstart : start ≠ [])
    (target : Text) :
    searchFrom env icase target start =
      ((hits env icase start target).filter fun m =>
        Tested env m.path ∧ ¬ (MeetsVenv start ∧ Below env.dir m.path)).map Match.text := by
  unfold searchFrom hits
  cases env.tree start with
  | none => rfl
  | some tree =>
    have hfind := find_prune_or (fun place => decide (pathOf start place = venv))
      (quiet_egrep haccepted icase start target) [] tree
    refine hfind.trans ?_
    show work _ _ _ tree.leaves = ((tree.leaves.flatMap _).filter _).map _
    induction tree.leaves with
    | nil => rfl
    | cons l leaves ih =>
      rw [List.flatMap_cons, List.filter_append, List.map_append, ← ih, ← List.singleton_append,
        work_append]
      congr 1
      exact work_leaf haccepted icase hstart target l

/-- What is printed where the path and the pattern arrive as they were typed. -/
theorem search_eq {env : Env} (icase : Bool) (hstart : IsPath start) {target : Text}
    (htarget : IsPattern target) :
    search env icase [start] [target] =
      ((hits env icase start target).filter fun m =>
        Tested env m.path ∧ ¬ (MeetsVenv start ∧ Below env.dir m.path)).map Match.text := by
  have hplain : (∀ word ∈ [start], IsPath word) ∧ IsPattern target :=
    ⟨fun word hword => by rwa [List.mem_singleton.mp hword], htarget⟩
  have hsearch : search env icase [start] [target] =
      if Refused env then [] else (starts [start]).flatMap (searchFrom env icase target) :=
    if_pos hplain
  rw [hsearch]
  by_cases hrefused : Refused env
  · have hnone : ∀ path, ¬ Tested env path := by
      intro path htested
      unfold Tested tested at htested
      rw [if_pos hrefused] at htested
      obtain ⟨e, he, -⟩ := htested
      exact absurd he List.not_mem_nil
    rw [if_pos hrefused]
    simp [hnone]
  · rw [if_neg hrefused, ← searchFrom_eq hrefused icase hstart.1 target]
    exact List.append_nil _

/-! ## The filter -/

/-- A match holds `project_` in its path or in its line. -/
theorem project_infix_text (m : Match) :
    project <:+: m.text ↔ project <:+: m.path ∨ project <:+: m.line := by
  have hnumber : ¬ project <:+: Nat.toDigits 10 m.number := by
    intro h
    have hmem : '_' ∈ Nat.toDigits 10 m.number := h.subset (by decide)
    exact Nat.underscore_not_in_toDigits hmem
  have hcolon : ':' ∉ project := by decide
  rw [Match.text, infix_separated_iff hcolon, infix_separated_iff hcolon, or_iff_right hnumber]

section
variable {α τ : Type} (l : List α) {p q : α → Bool}

/-- A filter behind the printing is a filter in front of it. -/
theorem filter_map_filter (f : α → τ) (r : τ → Bool) :
    ((l.filter p).map f).filter r = (l.filter fun m => p m && r (f m)).map f := by
  rw [List.filter_map, List.filter_filter]
  congr 1
  apply List.filter_congr
  intro m _
  exact Bool.and_comm _ _

/-- A selection out of another one that is as long is the whole of it. -/
theorem selected_of_length_eq (hqp : ∀ m ∈ l, q m = true → p m = true)
    (hlength : (l.filter p).length = (l.filter q).length) {m : α} (hm : m ∈ l)
    (hp : p m = true) : q m = true := by
  have hsub : l.filter q = (l.filter p).filter q := by
    rw [List.filter_filter]
    apply List.filter_congr
    intro m hm
    cases hq : q m with
    | false => rfl
    | true => rw [hqp m hm hq]; rfl
  rw [hsub] at hlength
  exact List.length_filter_eq_length_iff.mp hlength.symm m (List.mem_filter.mpr ⟨hm, hp⟩)

/-- Two selections that print the same agree on everything that prints a given text, if one
of them holds all of this that the other one holds. -/
theorem agree_of_map_eq [DecidableEq τ] {f : α → τ}
    (heq : (l.filter p).map f = (l.filter q).map f) {t : τ}
    (hqp : ∀ m ∈ l, f m = t → q m = true → p m = true) {m : α} (hm : m ∈ l) (ht : f m = t)
    (hp : p m = true) : q m = true := by
  have hfilter := congrArg (fun ts => (List.filter (fun t' => decide (t' = t)) ts).length) heq
  simp only [filter_map_filter, List.length_map] at hfilter
  have hq := selected_of_length_eq l (p := fun m => p m && decide (f m = t))
    (q := fun m => q m && decide (f m = t)) ?_ hfilter hm (by simp [hp, ht])
  · exact (Bool.and_eq_true_iff.mp hq).1
  · intro m' hm' hq'
    obtain ⟨hq', ht'⟩ := Bool.and_eq_true_iff.mp hq'
    rw [Bool.and_eq_true]
    exact ⟨hqp m' hm' (of_decide_eq_true ht') hq', ht'⟩

end

/-! ## `findcc` -/

/-- Every wanted match is tested for and does not hold `project_` in its line, and no
match below `./.venv` is printed. -/
structure NothingWrong (env : Env) (icase : Bool) (start target : Text) : Prop where
  wanted : ∀ m ∈ hits env icase start target, Wanted env m →
    Tested env m.path ∧ ¬ project <:+: m.line
  below : MeetsVenv start ∨ ∀ m ∈ hits env icase start target, Tested env m.path →
    Below env.dir m.path → project <:+: m.path ∨ project <:+: m.line

/-- Two matches print the same line, one in a file that is tested for and one in a file
that is not. -/
def Ambiguous (env : Env) (icase : Bool) (start target : Text) : Prop :=
  ∃ m ∈ hits env icase start target, ∃ m' ∈ hits env icase start target,
    m.text = m'.text ∧ Tested env m.path ∧ ¬ Tested env m'.path

/-- A match gets through `find` and through the filter. -/
def Printed (env : Env) (start : Text) (m : Match) : Prop :=
  (Tested env m.path ∧ ¬ (MeetsVenv start ∧ Below env.dir m.path)) ∧ ¬ project <:+: m.text

instance (env : Env) (start : Text) (m : Match) : Decidable (Printed env start m) :=
  inferInstanceAs (Decidable (_ ∧ _))

/-- Nothing goes wrong exactly if the printed matches are the wanted ones. -/
theorem nothingWrong_iff (env : Env) (icase : Bool) (start target : Text) :
    NothingWrong env icase start target ↔
      ∀ m ∈ hits env icase start target, Printed env start m ↔ Wanted env m := by
  constructor
  · intro h m hm
    unfold Printed
    rw [project_infix_text]
    constructor
    · intro hprinted
      obtain ⟨⟨htested, hcut⟩, hproject⟩ := hprinted
      refine ⟨fun hbelow => ?_, fun hpath => hproject (Or.inl hpath)⟩
      rcases h.below with hmeets | hbelow'
      · exact hcut ⟨hmeets, hbelow⟩
      · exact hproject (hbelow' m hm htested hbelow)
    · intro hwanted
      obtain ⟨htested, hline⟩ := h.wanted m hm hwanted
      exact ⟨⟨htested, fun hcut => hwanted.1 hcut.2⟩, fun h => h.elim hwanted.2 hline⟩
  · intro h
    refine ⟨fun m hm hwanted => ?_, ?_⟩
    · obtain ⟨⟨htested, -⟩, hproject⟩ := (h m hm).mpr hwanted
      rw [project_infix_text] at hproject
      exact ⟨htested, fun hline => hproject (Or.inr hline)⟩
    · by_cases hmeets : MeetsVenv start
      · exact Or.inl hmeets
      · right
        intro m hm htested hbelow
        by_contra hproject
        rw [← project_infix_text] at hproject
        exact ((h m hm).mp ⟨⟨htested, fun hcut => hmeets hcut.1⟩, hproject⟩).1 hbelow

theorem grepV_search_eq {env : Env} (icase : Bool) (hstart : IsPath start) {target : Text}
    (htarget : IsPattern target) :
    grepV (search env icase [start] [target]) =
      ((hits env icase start target).filter fun m => Printed env start m).map Match.text := by
  rw [grepV, search_eq icase hstart htarget, filter_map_filter]
  congr 1
  apply List.filter_congr
  intro m _
  rw [Bool.eq_iff_iff, Bool.and_eq_true, decide_eq_true_eq, decide_eq_true_eq, decide_eq_true_eq]
  rfl

/-- Among the matches that print one line, the printed ones are wanted or the wanted ones
are printed. -/
theorem printed_or_wanted {env : Env} {icase : Bool} {target : Text}
    (hsame : MeetsVenv start ∨ ¬ Ambiguous env icase start target) {m : Match}
    (hm : m ∈ hits env icase start target) :
    (∀ m' ∈ hits env icase start target, m'.text = m.text → Wanted env m' → Printed env start m') ∨
      ∀ m' ∈ hits env icase start target, m'.text = m.text →
        Printed env start m' → Wanted env m' := by
  rcases hsame with hmeets | hsame
  · right
    intro m' _ _ hprinted
    obtain ⟨⟨-, hcut⟩, hproject⟩ := hprinted
    rw [project_infix_text] at hproject
    exact ⟨fun hbelow => hcut ⟨hmeets, hbelow⟩, fun hpath => hproject (Or.inl hpath)⟩
  · by_cases hprinted : Tested env m.path ∧ ¬ project <:+: m.text
    · obtain ⟨htested, hproject⟩ := hprinted
      left
      intro m' hm' htext hwanted
      have htested' : Tested env m'.path :=
        by_contra fun hno => hsame ⟨m, hm, m', hm', htext.symm, htested, hno⟩
      exact ⟨⟨htested', fun hcut => hwanted.1 hcut.2⟩, by rwa [htext]⟩
    · right
      intro m' hm' htext hprinted'
      obtain ⟨⟨htested', -⟩, hproject⟩ := hprinted'
      rw [htext] at hproject
      have htested : Tested env m.path :=
        by_contra fun hno => hsame ⟨m', hm', m, hm, htext, htested', hno⟩
      exact absurd ⟨htested, hproject⟩ hprinted

/-- Where what is wanted is printed, nothing goes wrong, unless the line of a match that is
left out comes from another one. -/
theorem nothingWrong_of_eq {env : Env} {icase : Bool} {target : Text}
    (heq : ((hits env icase start target).filter fun m => Printed env start m).map Match.text =
      wantedLines env icase start target)
    (hsame : MeetsVenv start ∨ ¬ Ambiguous env icase start target) :
    NothingWrong env icase start target := by
  rw [nothingWrong_iff]
  intro m hm
  unfold wantedLines at heq
  rcases printed_or_wanted hsame hm with hprinted | hwanted
  · refine ⟨fun h => ?_, hprinted m hm rfl⟩
    have hagree := agree_of_map_eq _ heq (t := m.text) ?_ hm rfl (decide_eq_true h)
    · exact of_decide_eq_true hagree
    · exact fun m' hm' ht hq => decide_eq_true (hprinted m' hm' ht (of_decide_eq_true hq))
  · refine ⟨hwanted m hm rfl, fun h => ?_⟩
    have hagree := agree_of_map_eq _ heq.symm (t := m.text) ?_ hm rfl (decide_eq_true h)
    · exact of_decide_eq_true hagree
    · exact fun m' hm' ht hq => decide_eq_true (hwanted m' hm' ht (of_decide_eq_true hq))

theorem startOf_isPath {env : Env} (path : Option (StartPath env)) : IsPath (startOf path) := by
  cases path with
  | none => show IsPath ".".toList; decide
  | some path => exact path.isPath

/-- What `findcc` prints where its arguments arrive as they were typed. -/
theorem findcc_eq {env : Env} (path : Option (StartPath env)) (pattern : Pattern env) :
    findcc env (arguments path pattern) =
      ((hits env false (startOf path) pattern.text).filter fun m =>
        Printed env (startOf path) m).map Match.text := by
  rw [← grepV_search_eq false (startOf_isPath path) pattern.isPattern]
  cases path with
  | none => simp [findcc, arguments, pattern.kept, findcc0, startOf]
  | some path => simp [findcc, arguments, pattern.kept, path.kept, findcc0, startOf]

/-- Without names that the shell puts in place of its patterns, `find` tests for all
endings. -/
theorem tested_eq {env : Env} (hnames : ∀ e ∈ hc ++ hcpp, '*' :: e ∉ env.names) :
    tested env = extensions := by
  have hnone : ∀ e ∈ hc ++ hcpp, ¬ env.names.any (· = '*' :: e) = true := by
    intro e he h
    obtain ⟨name, hname, heq⟩ := List.any_eq_true.mp h
    exact hnames e he (of_decide_eq_true heq ▸ hname)
  have hhc : starred env hc = [] :=
    List.filter_eq_nil_iff.mpr fun e he => hnone e (List.mem_append_left _ he)
  have hhcpp : starred env hcpp = [] :=
    List.filter_eq_nil_iff.mpr fun e he => hnone e (List.mem_append_right _ he)
  have haccepted : ¬ Refused env := by
    unfold Refused
    rw [hhc, hhcpp]
    decide
  unfold tested expanded
  rw [if_neg haccepted, if_pos hhc, if_pos hhcpp]
  rfl

theorem source_of_mem_hits {env : Env} {icase : Bool} {target : Text} {m : Match}
    (hm : m ∈ hits env icase start target) : Source m.path := by
  obtain ⟨l, -, hm⟩ := List.mem_flatMap.mp hm
  split_ifs at hm with hsource
  · rwa [path_of_mem_egrep hm]
  · exact absurd hm List.not_mem_nil

/-- Only with such a name a match of another file can stand for one that is left out. -/
theorem star_of_ambiguous {env : Env} {icase : Bool} {target : Text}
    (h : Ambiguous env icase start target) : ∃ e ∈ hc ++ hcpp, '*' :: e ∈ env.names := by
  obtain ⟨-, -, m', hm', -, -, hno⟩ := h
  by_contra hnames
  push Not at hnames
  refine hno ?_
  unfold Tested
  rw [tested_eq hnames]
  exact source_of_mem_hits hm'

/-- A directory with one source file, and a search for a literal text. -/
def sourceDir (line : Text) : Env where
  dir := ["home".toList, "tsp".toList]
  expand t := [t]
  tree t :=
    if t = ".".toList then
      some (.dir (.cons ⟨"a.c".toList, by decide, by decide, by decide, by decide, by decide⟩
        (.leaf (.regular [line])) .nil))
    else none
  selects _ pattern line := pattern <:+: line
  other _ _ := []

/-- The pattern `include`. -/
def includePattern (line : Text) : Pattern (sourceDir line) where
  text := "include".toList
  kept := rfl
  isPattern := by decide

/-- A line with `project_` in it. -/
def includeLine : Text := "#include \"project_x.h\"".toList

/-- The same directory with a header and a file `*.c`, whose name is put in place of the
pattern for both. -/
def starDir (line : Text) : Env :=
  { sourceDir line with
    tree := fun t =>
      if t = ".".toList then
        some (.dir
          (.cons ⟨"*.c".toList, by decide, by decide, by decide, by decide, by decide⟩
            (.leaf (.regular []))
          (.cons ⟨"b.h".toList, by decide, by decide, by decide, by decide, by decide⟩
            (.leaf (.regular [line])) .nil)))
      else none }

/-- The header is not searched. -/
example : findcc (starDir includeLine) ["include".toList] = [] ∧
    ¬ Tested (starDir includeLine) "./b.h".toList := by
  decide +kernel

end PtsTools.Search
