import PtsTools.Launcher.Model

/-!
# The options of the launchers

The options may stand anywhere among the arguments, and `--target` takes the word
behind it.  `items` reads the arguments that way.  The scripts read the options at
the first place only, and the loop drops the option words at every place and knows
nothing of the value of `--target`.  `takesAll_iff` says when both readings agree:
no option occurs, or one debugger stands in front and wins, or `--target` stands in
front and all its values happen to be option words.
-/

namespace PtsTools.Launcher

/-! ## Arguments and options -/

/-- The debugger that an argument names. -/
def debugger? (w : Text) : Option Debugger :=
  if w = Debugger.gdb.word then some .gdb
  else if w = Debugger.callgrind.word then some .callgrind
  else if w = Debugger.valgrind.word then some .valgrind
  else none

/-- What an argument is: a debugger, a target with its value, or a word for the
program.  A `--target` at the end has no value. -/
inductive Item
  | debugger (d : Debugger)
  | target (id : Option Text)
  | other (w : Text)
  deriving DecidableEq, Repr

/-- An argument that is not `--target`. -/
def wordItem (w : Text) : Item := (debugger? w).elim (.other w) .debugger

/-- The arguments, with the value of each `--target`. -/
def items : List Text → List Item
  | [] => []
  | [w] => [if w = target then .target none else wordItem w]
  | w :: v :: ws =>
    if w = target then .target (some v) :: items ws else wordItem w :: items (v :: ws)

/-- The debuggers of some items. -/
def debuggers (is : List Item) : List Debugger :=
  is.filterMap fun | .debugger d => some d | _ => none

/-- The targets of some items. -/
def targets (is : List Item) : List (Option Text) :=
  is.filterMap fun | .target id => some id | _ => none

/-- The words for the program. -/
def others (is : List Item) : List Text :=
  is.filterMap fun | .other w => some w | _ => none

/-- Some words as the loop appends them. -/
def appended (ws : List Text) : Text := ws.flatMap (' ' :: ·)

/-- Every option has its effect, the last one of its kind wins, and `Args` holds
the remaining words. -/
structure TakesAll (gdbserver : Text) (dev : Device) (letter : Char) (args : List Text)
    (l : Launch) : Prop where
  gdb : l.gdb = (debuggers (items args)).getLast?.elim [] (Debugger.command gdbserver)
  targetid : l.targetid =
    (targets (items args)).getLast?.elim (defaultTarget dev letter) (·.getD [])
  args : l.args = appended (others (items args)) ++ displayOptions dev

/-- The arguments that the scripts get right. -/
def Served (args : List Text) : Prop :=
  (∀ w ∈ args, keeps w) ∨
  (∃ d, args.head? = some d.word ∧ target ∉ args ∧ (debuggers (items args)).getLast? = some d) ∨
  (∃ id, (items args).head? = some (.target id) ∧ debuggers (items args) = [] ∧
    (∀ v, some v ∈ targets (items args) → ¬ keeps v) ∧ (targets (items args)).getLast? = some id)

/-! ## Words -/

theorem debugger?_word (d : Debugger) : debugger? d.word = some d := by
  cases d <;> decide

theorem word_of_debugger? {w : Text} {d : Debugger} (h : debugger? w = some d) : w = d.word := by
  unfold debugger? at h
  split_ifs at h with h1 h2 h3
  · rw [h1, ← Option.some.inj h]
  · rw [h2, ← Option.some.inj h]
  · rw [h3, ← Option.some.inj h]

/-- The loop keeps the words that are no options. -/
theorem keeps_iff (w : Text) : keeps w = true ↔ w ≠ target ∧ debugger? w = none := by
  unfold keeps debugger?
  constructor
  · intro h
    simp only [Bool.and_eq_true, decide_eq_true_eq] at h
    rcases h with ⟨⟨⟨h1, h2⟩, h3⟩, h4⟩
    exact ⟨h4, by rw [if_neg h1, if_neg h2, if_neg h3]⟩
  · intro h
    rcases h with ⟨h4, h⟩
    split_ifs at h with h1 h2 h3
    simp [h1, h2, h3, h4]

theorem keeps_target : keeps target = false := by
  decide

theorem keeps_word (d : Debugger) : keeps d.word = false := by
  cases d <;> decide

theorem word_ne_target (d : Debugger) : d.word ≠ target := by
  cases d <;> decide

/-! ## The items of some arguments -/

/-- The argument `--target` takes the next one. -/
theorem items_target (ws : List Text) :
    items (target :: ws) = .target ws.head? :: items ws.tail := by
  cases ws with
  | nil => rfl
  | cons v ws =>
    rw [items, if_pos rfl]
    rfl

/-- Any other argument is an item of its own. -/
theorem items_word {w : Text} (hw : w ≠ target) (ws : List Text) :
    items (w :: ws) = wordItem w :: items ws := by
  cases ws with
  | nil =>
    show [if w = target then Item.target none else wordItem w] = [wordItem w]
    rw [if_neg hw]
  | cons v ws => rw [items, if_neg hw]

/-- An argument is a debugger, `--target`, or a word that the loop keeps. -/
theorem word_cases (w : Text) :
    (∃ d, w = d.word ∧ wordItem w = .debugger d) ∨ w = target ∨
      (keeps w = true ∧ w ≠ target ∧ wordItem w = .other w) := by
  by_cases hw : w = target
  · exact Or.inr (Or.inl hw)
  · unfold wordItem
    cases hd : debugger? w with
    | some d => exact Or.inl ⟨d, word_of_debugger? hd, rfl⟩
    | none => exact Or.inr (Or.inr ⟨(keeps_iff w).mpr ⟨hw, hd⟩, hw, rfl⟩)

/-- Along the items: a debugger, a target with its value if it has one, or a word
that the loop keeps. -/
theorem items_induction {motive : List Text → Prop} (nil : motive [])
    (debugger : ∀ (d : Debugger) ws, motive ws → items (d.word :: ws) = .debugger d :: items ws →
      motive (d.word :: ws))
    (target_end : motive [target])
    (target_value : ∀ v ws, motive ws → items (target :: v :: ws) = .target (some v) :: items ws →
      motive (target :: v :: ws))
    (other : ∀ w ws, keeps w = true → motive ws → items (w :: ws) = .other w :: items ws →
      motive (w :: ws)) (args : List Text) : motive args := by
  have hword : ∀ w ws, w ≠ target → motive ws → motive (w :: ws) := by
    intro w ws hw ih
    rcases word_cases w with ⟨d, rfl, hitem⟩ | htarget | ⟨hkeeps, -, hitem⟩
    · exact debugger d ws ih (by rw [items_word hw, hitem])
    · exact absurd htarget hw
    · exact other w ws hkeeps ih (by rw [items_word hw, hitem])
  induction args using items.induct with
  | case1 => exact nil
  | case2 w =>
    by_cases hw : w = target
    · rw [hw]
      exact target_end
    · exact hword w [] hw nil
  | case3 v ws ih => exact target_value v ws ih (items_target (v :: ws))
  | case4 w v ws hw ih => exact hword w (v :: ws) hw ih

/-! ## What the loop appends -/

theorem appended_cons (w : Text) (ws : List Text) :
    appended (w :: ws) = ' ' :: w ++ appended ws := rfl

/-- The loop appends the words that it keeps. -/
theorem filterLoop_eq (args : List Text) : filterLoop args = appended (args.filter keeps) := by
  have hfold : ∀ acc, args.foldl (fun acc var => if keeps var then acc ++ ' ' :: var else acc) acc =
      acc ++ appended (args.filter keeps) := by
    induction args with
    | nil => simp [appended]
    | cons w ws ih =>
      intro acc
      rw [List.foldl_cons, ih]
      by_cases hw : keeps w = true
      · rw [if_pos hw, List.filter_cons_of_pos hw, appended_cons, List.append_assoc]
      · rw [if_neg hw, List.filter_cons_of_neg hw]
  exact hfold []

/-- The loop appends at least the words for the program. -/
theorem length_others_le (args : List Text) :
    (appended (others (items args))).length ≤ (appended (args.filter keeps)).length := by
  induction args using items_induction with
  | nil => exact Nat.le_refl _
  | debugger d ws ih hitems =>
    rw [hitems, List.filter_cons_of_neg (by rw [keeps_word]; decide)]
    exact ih
  | target_end => exact Nat.le_refl _
  | target_value v ws ih hitems =>
    rw [hitems, List.filter_cons_of_neg (by rw [keeps_target]; decide)]
    refine Nat.le_trans ih ?_
    by_cases hv : keeps v = true
    · rw [List.filter_cons_of_pos hv, appended_cons, List.length_append]
      exact Nat.le_add_left _ _
    · exact Nat.le_of_eq (by rw [List.filter_cons_of_neg hv])
  | other w ws hkeeps ih hitems =>
    rw [hitems, List.filter_cons_of_pos hkeeps, appended_cons]
    show (appended (w :: others (items ws))).length ≤ _
    rw [appended_cons, List.length_append, List.length_append]
    exact Nat.add_le_add_left ih _

/-- It appends nothing else exactly if every value of `--target` is an option word. -/
theorem appended_others_iff (args : List Text) :
    appended (args.filter keeps) = appended (others (items args)) ↔
      ∀ v, some v ∈ targets (items args) → ¬ keeps v := by
  induction args using items_induction with
  | nil => exact ⟨fun _ v hv => absurd hv List.not_mem_nil, fun _ => rfl⟩
  | debugger d ws ih hitems =>
    rw [hitems, List.filter_cons_of_neg (by rw [keeps_word]; decide)]
    exact ih
  | target_end =>
    exact ⟨fun _ v hv => absurd (List.mem_singleton.mp hv) (by simp), fun _ => rfl⟩
  | target_value v ws ih hitems =>
    rw [hitems, List.filter_cons_of_neg (by rw [keeps_target]; decide)]
    show appended _ = appended (others (items ws)) ↔ ∀ u, some u ∈ some v :: targets (items ws) → _
    by_cases hv : keeps v = true
    · -- the value is forwarded, so there is more than the other words
      constructor
      · intro h
        have hlen := congrArg List.length h
        have hle := length_others_le ws
        rw [List.filter_cons_of_pos hv, appended_cons, List.length_append,
          List.length_cons] at hlen
        omega
      · intro h
        exact absurd hv (h v List.mem_cons_self)
    · rw [List.filter_cons_of_neg hv, ih]
      simp [hv]
  | other w ws hkeeps ih hitems =>
    rw [hitems, List.filter_cons_of_pos hkeeps, appended_cons]
    show _ = appended (w :: others (items ws)) ↔ ∀ u, some u ∈ targets (items ws) → _
    rw [appended_cons, List.append_right_inj, ih]

/-! ## The options that occur -/

/-- The first `--target` is never a value. -/
theorem targets_eq_nil_iff (args : List Text) : targets (items args) = [] ↔ target ∉ args := by
  induction args using items_induction with
  | nil => exact ⟨fun _ => List.not_mem_nil, fun _ => rfl⟩
  | debugger d ws ih hitems =>
    rw [hitems, List.mem_cons, not_or]
    show targets (items ws) = [] ↔ _
    rw [ih]
    exact ⟨fun h => ⟨(word_ne_target d).symm, h⟩, fun h => h.2⟩
  | target_end => exact iff_of_false (by decide) fun h => h List.mem_cons_self
  | target_value v ws ih hitems =>
    rw [hitems]
    exact iff_of_false (List.cons_ne_nil _ _) fun h => h List.mem_cons_self
  | other w ws hkeeps ih hitems =>
    rw [hitems, List.mem_cons, not_or]
    show targets (items ws) = [] ↔ _
    rw [ih]
    exact ⟨fun h => ⟨((keeps_iff w).mp hkeeps).1.symm, h⟩, fun h => h.2⟩

/-- No option occurs exactly if the loop keeps every word. -/
theorem no_options_iff (args : List Text) :
    debuggers (items args) = [] ∧ targets (items args) = [] ↔ ∀ w ∈ args, keeps w := by
  induction args using items_induction with
  | nil => exact ⟨fun _ w hw => absurd hw List.not_mem_nil, fun _ => ⟨rfl, rfl⟩⟩
  | debugger d ws ih hitems =>
    rw [hitems]
    refine iff_of_false (fun h => absurd h.1 (List.cons_ne_nil _ _)) fun h => ?_
    have hkeeps := h d.word List.mem_cons_self
    rw [keeps_word] at hkeeps
    exact absurd hkeeps (by decide)
  | target_end => exact iff_of_false (by decide) (by decide)
  | target_value v ws ih hitems =>
    rw [hitems]
    refine iff_of_false (fun h => absurd h.2 (List.cons_ne_nil _ _)) fun h => ?_
    have hkeeps := h target List.mem_cons_self
    rw [keeps_target] at hkeeps
    exact absurd hkeeps (by decide)
  | other w ws hkeeps ih hitems =>
    rw [hitems, List.forall_mem_cons]
    show debuggers (items ws) = [] ∧ targets (items ws) = [] ↔ _
    rw [ih]
    exact ⟨fun h => ⟨hkeeps, h⟩, fun h => h.2⟩

/-! ## The tests on the first argument -/

theorem recognise_debugger (gdbserver targetid : Text) (d : Debugger) (ws : List Text) :
    recognise gdbserver targetid (d.word :: ws) = (d.command gdbserver, targetid) := by
  cases d <;> rfl

theorem recognise_target (gdbserver targetid : Text) (ws : List Text) :
    recognise gdbserver targetid (target :: ws) = ([], ws.head?.getD []) := by
  cases ws <;> rfl

theorem recognise_other {w : Text} (hw : keeps w = true) (gdbserver targetid : Text)
    (ws : List Text) : recognise gdbserver targetid (w :: ws) = ([], targetid) := by
  have hnone := (keeps_iff w).mp hw
  unfold debugger? at hnone
  unfold recognise
  rcases hnone with ⟨htarget, hnone⟩
  split_ifs at hnone with h1 h2 h3
  simp [h1, h2, h3, htarget]

/-- The commands of the debuggers differ. -/
theorem command_injective {gdbserver : Text} (h : "./gdbserver.".toList <+: gdbserver) :
    Function.Injective (Debugger.command gdbserver) := by
  rcases h with ⟨s, hs⟩
  have htake : gdbserver.take 3 = "./g".toList := by
    have hlit : "./gdbserver.".toList = "./g".toList ++ "dbserver.".toList := by decide
    rw [← hs, hlit, List.append_assoc]
    exact List.take_left' (by decide)
  let name : Text → Debugger := fun t =>
    if t.take 3 = "./g".toList then .gdb
    else if t = "./valgrind".toList then .valgrind else .callgrind
  have hname : Function.LeftInverse name (Debugger.command gdbserver) := by
    intro d
    cases d with
    | gdb => exact if_pos htake
    | callgrind => rfl
    | valgrind => rfl
  exact hname.injective

theorem command_ne_nil {gdbserver : Text} (h : "./gdbserver.".toList <+: gdbserver)
    (d : Debugger) : d.command gdbserver ≠ [] := by
  cases d with
  | gdb =>
    intro heq
    have hnil : gdbserver = [] := heq
    rw [hnil, List.prefix_nil] at h
    exact absurd h (by decide)
  | callgrind => exact List.cons_ne_nil _ _
  | valgrind => exact List.cons_ne_nil _ _

/-- A word without a hyphen in front is no option. -/
theorem keeps_of_head {w : Text} (h : w.head? ≠ some '-') : keeps w = true := by
  rcases word_cases w with ⟨d, hd, -⟩ | hw | hw
  · rw [hd] at h
    cases d <;> exact absurd (by decide) h
  · rw [hw] at h
    exact absurd (by decide) h
  · exact hw.1

/-- A value that the loop drops is no target of a device. -/
theorem default_ne {id : Option Text} (hid : ∀ v, id = some v → ¬ keeps v) (dev : Device)
    (letter : Char) : defaultTarget dev letter ≠ id.getD [] := by
  have hlit : "hs".toList = ['h', 's'] := by decide
  have hkeeps : keeps (defaultTarget dev letter) = true := by
    apply keeps_of_head
    unfold defaultTarget
    rw [hlit]
    exact fun h => absurd (Option.some.inj h) (by decide)
  intro heq
  cases id with
  | none =>
    unfold defaultTarget at heq
    rw [hlit] at heq
    exact absurd heq (List.cons_ne_nil _ _)
  | some v =>
    rw [heq] at hkeeps
    exact hid v rfl hkeeps

/-- Values that the loop drops are told apart by what `Targetid` becomes. -/
theorem value_inj {id id' : Option Text} (hid : ∀ v, id = some v → ¬ keeps v)
    (hid' : ∀ v, id' = some v → ¬ keeps v) (h : id.getD [] = id'.getD []) : id = id' := by
  have hnil : keeps [] = true := by decide
  cases id with
  | none =>
    cases id' with
    | none => rfl
    | some v =>
      have hv : [] = v := h
      rw [hv] at hnil
      exact absurd hnil (hid' v rfl)
  | some v =>
    cases id' with
    | none =>
      have hv : v = [] := h
      rw [← hv] at hnil
      exact absurd hnil (hid v rfl)
    | some v' => exact congrArg some h

/-! ## The two readings -/

/-- The three parts of the property, in terms of the items. -/
theorem takesAll_launch_iff (gdbserver last : Text) (dev : Device) (letter : Char) (arg0 : Text)
    (args : List Text) :
    TakesAll gdbserver dev letter args (launch gdbserver last dev letter arg0 args) ↔
      (recognise gdbserver (defaultTarget dev letter) args).1 =
          (debuggers (items args)).getLast?.elim [] (Debugger.command gdbserver) ∧
        (recognise gdbserver (defaultTarget dev letter) args).2 =
          (targets (items args)).getLast?.elim (defaultTarget dev letter) (·.getD []) ∧
        ∀ v, some v ∈ targets (items args) → ¬ keeps v := by
  rw [← appended_others_iff]
  constructor
  · intro h
    refine ⟨h.gdb, h.targetid, ?_⟩
    have hargs : filterLoop args ++ displayOptions dev = _ := h.args
    rw [filterLoop_eq] at hargs
    exact List.append_cancel_right hargs
  · intro h
    rcases h with ⟨hfst, hsnd, hargs⟩
    refine ⟨hfst, hsnd, ?_⟩
    show filterLoop args ++ displayOptions dev = _
    rw [filterLoop_eq, hargs]

/-- Without a debugger `Gdb` stays empty. -/
theorem no_debugger_iff {gdbserver : Text} (hgdb : "./gdbserver.".toList <+: gdbserver)
    (ds : List Debugger) :
    [] = ds.getLast?.elim [] (Debugger.command gdbserver) ↔ ds = [] := by
  cases hlast : ds.getLast? with
  | none => exact iff_of_true rfl (List.getLast?_eq_none_iff.mp hlast)
  | some d =>
    refine iff_of_false (fun h => command_ne_nil hgdb d h.symm) fun h => ?_
    rw [h] at hlast
    exact absurd hlast (by simp)

/-- With values that the loop drops, `Targetid` stays as it is only without a target. -/
theorem no_target_iff {ts : List (Option Text)} (hts : ∀ v, some v ∈ ts → ¬ keeps v)
    (dev : Device) (letter : Char) :
    defaultTarget dev letter = ts.getLast?.elim (defaultTarget dev letter) (·.getD []) ↔
      ts = [] := by
  cases hlast : ts.getLast? with
  | none => exact iff_of_true rfl (List.getLast?_eq_none_iff.mp hlast)
  | some id =>
    have hmem : id ∈ ts := List.mem_of_getLast? hlast
    refine iff_of_false (fun h => ?_) fun h => ?_
    · refine default_ne (fun v hv => hts v ?_) dev letter h
      rw [← hv]
      exact hmem
    · rw [h] at hmem
      exact absurd hmem List.not_mem_nil

theorem drops_of_no_target {ts : List (Option Text)} (h : ts = []) :
    ∀ v, some v ∈ ts → ¬ keeps v := by
  intro v hv
  rw [h] at hv
  exact absurd hv List.not_mem_nil

/-- With a debugger in front. -/
theorem takesAll_debugger_iff {gdbserver : Text} (hgdb : "./gdbserver.".toList <+: gdbserver)
    (last : Text) (dev : Device) (letter : Char) (arg0 : Text) (d : Debugger) (ws : List Text) :
    TakesAll gdbserver dev letter (d.word :: ws)
        (launch gdbserver last dev letter arg0 (d.word :: ws)) ↔
      target ∉ d.word :: ws ∧ (debuggers (items (d.word :: ws))).getLast? = some d := by
  rw [takesAll_launch_iff, recognise_debugger, ← targets_eq_nil_iff]
  constructor
  · intro h
    rcases h with ⟨hfirst, htarget, hdrop⟩
    refine ⟨(no_target_iff hdrop dev letter).mp htarget, ?_⟩
    cases hlast : (debuggers (items (d.word :: ws))).getLast? with
    | none =>
      rw [hlast] at hfirst
      exact absurd hfirst (command_ne_nil hgdb d)
    | some d' =>
      rw [hlast] at hfirst
      rw [command_injective hgdb hfirst]
  · intro h
    rcases h with ⟨htargets, hlast⟩
    refine ⟨?_, ?_, drops_of_no_target htargets⟩
    · rw [hlast]
      rfl
    · rw [htargets]
      rfl

/-- With a target in front. -/
theorem takesAll_target_iff {gdbserver : Text} (hgdb : "./gdbserver.".toList <+: gdbserver)
    (last : Text) (dev : Device) (letter : Char) (arg0 : Text) (ws : List Text) :
    TakesAll gdbserver dev letter (target :: ws)
        (launch gdbserver last dev letter arg0 (target :: ws)) ↔
      debuggers (items (target :: ws)) = [] ∧
        (∀ v, some v ∈ targets (items (target :: ws)) → ¬ keeps v) ∧
        (targets (items (target :: ws))).getLast? = some ws.head? := by
  have hfront : ws.head? ∈ targets (items (target :: ws)) := by
    rw [items_target]
    exact List.mem_cons_self
  rw [takesAll_launch_iff, recognise_target, no_debugger_iff hgdb]
  constructor
  · intro h
    rcases h with ⟨hdebuggers, htarget, hdrop⟩
    refine ⟨hdebuggers, hdrop, ?_⟩
    cases hlast : (targets (items (target :: ws))).getLast? with
    | none =>
      rw [List.getLast?_eq_none_iff.mp hlast] at hfront
      exact absurd hfront List.not_mem_nil
    | some id =>
      have hmem : id ∈ targets (items (target :: ws)) := List.mem_of_getLast? hlast
      rw [hlast] at htarget
      have heq : ws.head? = id := by
        apply value_inj
        · intro v hv
          exact hdrop v (by rw [← hv]; exact hfront)
        · intro v hv
          exact hdrop v (by rw [← hv]; exact hmem)
        · exact htarget
      rw [heq]
  · intro h
    rcases h with ⟨hdebuggers, hdrop, hlast⟩
    refine ⟨hdebuggers, ?_, hdrop⟩
    rw [hlast]
    rfl

/-- With another word in front. -/
theorem takesAll_other_iff {gdbserver : Text} (hgdb : "./gdbserver.".toList <+: gdbserver)
    (last : Text) (dev : Device) (letter : Char) (arg0 : Text) {w : Text} (hw : keeps w = true)
    (ws : List Text) :
    TakesAll gdbserver dev letter (w :: ws) (launch gdbserver last dev letter arg0 (w :: ws)) ↔
      ∀ v ∈ w :: ws, keeps v := by
  rw [takesAll_launch_iff, recognise_other hw, no_debugger_iff hgdb, ← no_options_iff]
  constructor
  · intro h
    rcases h with ⟨hdebuggers, htarget, hdrop⟩
    exact ⟨hdebuggers, (no_target_iff hdrop dev letter).mp htarget⟩
  · intro h
    rcases h with ⟨hdebuggers, htargets⟩
    refine ⟨hdebuggers, ?_, drops_of_no_target htargets⟩
    rw [htargets]
    rfl

/-! ## The argument lists that the scripts get right -/

/-- An option in front is not kept. -/
theorem not_kept {w : Text} (hw : keeps w = false) (ws : List Text) : ¬ ∀ v ∈ w :: ws, keeps v := by
  intro h
  have hkeeps := h w List.mem_cons_self
  rw [hw] at hkeeps
  exact absurd hkeeps (by decide)

/-- Only `--target` itself is read as a target. -/
theorem eq_target_of_head {w : Text} {ws : List Text} {id : Option Text}
    (h : (items (w :: ws)).head? = some (.target id)) : w = target ∧ id = ws.head? := by
  rcases word_cases w with ⟨d, rfl, hitem⟩ | rfl | ⟨-, hne, hitem⟩
  · rw [items_word (word_ne_target d), hitem] at h
    exact absurd (Option.some.inj h) (by simp)
  · rw [items_target] at h
    exact ⟨rfl, (Item.target.inj (Option.some.inj h)).symm⟩
  · rw [items_word hne, hitem] at h
    exact absurd (Option.some.inj h) (by simp)

theorem served_debugger_iff (d : Debugger) (ws : List Text) :
    Served (d.word :: ws) ↔
      target ∉ d.word :: ws ∧ (debuggers (items (d.word :: ws))).getLast? = some d := by
  constructor
  · intro h
    rcases h with h | ⟨d', hhead, htarget, hlast⟩ | ⟨id, hhead, -⟩
    · exact absurd h (not_kept (keeps_word d) ws)
    · have hword := debugger?_word d'
      rw [← Option.some.inj hhead, debugger?_word] at hword
      refine ⟨htarget, ?_⟩
      rw [hlast, Option.some.inj hword]
    · exact absurd (eq_target_of_head hhead).1 (word_ne_target d)
  · intro h
    exact Or.inr (Or.inl ⟨d, rfl, h⟩)

theorem served_target_iff (ws : List Text) :
    Served (target :: ws) ↔
      debuggers (items (target :: ws)) = [] ∧
        (∀ v, some v ∈ targets (items (target :: ws)) → ¬ keeps v) ∧
        (targets (items (target :: ws))).getLast? = some ws.head? := by
  constructor
  · intro h
    rcases h with h | ⟨d, hhead, -⟩ | ⟨id, hhead, h⟩
    · exact absurd h (not_kept keeps_target ws)
    · exact absurd (Option.some.inj hhead).symm (word_ne_target d)
    · rw [(eq_target_of_head hhead).2] at h
      exact h
  · intro h
    exact Or.inr (Or.inr ⟨ws.head?, by rw [items_target]; rfl, h⟩)

theorem served_other_iff {w : Text} (hw : keeps w = true) (ws : List Text) :
    Served (w :: ws) ↔ ∀ v ∈ w :: ws, keeps v := by
  constructor
  · intro h
    rcases h with h | ⟨d, hhead, -⟩ | ⟨id, hhead, -⟩
    · exact h
    · rw [Option.some.inj hhead, keeps_word] at hw
      exact absurd hw (by decide)
    · exact absurd (eq_target_of_head hhead).1 ((keeps_iff w).mp hw).1
  · intro h
    exact Or.inl h

/-- The scripts get an argument list right exactly if no option occurs in it, or a
debugger stands in front, is the last one too, and there is no target, or a target
stands in front, there is no debugger, and its values are option words. -/
theorem takesAll_iff {gdbserver : Text} (hgdb : "./gdbserver.".toList <+: gdbserver)
    (last : Text) (dev : Device) (letter : Char) (arg0 : Text) (args : List Text) :
    TakesAll gdbserver dev letter args (launch gdbserver last dev letter arg0 args) ↔
      Served args := by
  cases args with
  | nil =>
    constructor
    · intro _
      exact Or.inl fun w hw => absurd hw List.not_mem_nil
    · intro _
      rw [takesAll_launch_iff]
      exact ⟨rfl, rfl, drops_of_no_target rfl⟩
  | cons w ws =>
    rcases word_cases w with ⟨d, rfl, -⟩ | rfl | ⟨hkeeps, -, -⟩
    · rw [takesAll_debugger_iff hgdb, served_debugger_iff]
    · rw [takesAll_target_iff hgdb, served_target_iff]
    · rw [takesAll_other_iff hgdb _ _ _ _ hkeeps, served_other_iff hkeeps]

/-! ## The two scripts -/

/-- Both scripts run `./gdbserver.` with something behind it. -/
theorem gdbserver_front {s : Script} (hs : s = wSh ∨ s = xSkipAutoipSadpEtc) (letter : Char) :
    "./gdbserver.".toList <+: s.gdbserver letter := by
  rcases hs with rfl | rfl
  · have hlit : "./gdbserver.".toList ++ "hi --once :10000".toList =
        "./gdbserver.hi --once :10000".toList := by decide
    exact ⟨_, hlit⟩
  · exact ⟨postfixOf letter ++ " --once :10000".toList, (List.append_assoc _ _ _).symm⟩

/-- On a device that they know, both scripts get exactly these argument lists
right. -/
theorem scripts_takeAll_iff {s : Script} (hs : s = wSh ∨ s = xSkipAutoipSadpEtc) {dev : Device}
    {letter : Char} (hletter : s.soctype dev = some letter) (arg0 : Text) (args : List Text) :
    ∃ l, s.run dev arg0 args = some l ∧
      (TakesAll (s.gdbserver letter) dev letter args l ↔ Served args) := by
  refine ⟨_, congrArg (Option.map _) hletter, ?_⟩
  exact takesAll_iff (gdbserver_front hs letter) s.last dev letter arg0 args

/-- A device of the last kind that `w.sh` knows. -/
def novatek : Device where
  socType := "14".toList
  socType3531 := "1".toList
  socType3521 := "2".toList
  socType3520DV300 := "3".toList
  socType3521A := "4".toList
  socType3531A := "5".toList
  socType3536 := "6".toList
  socType3536C := "7".toList
  socType3521D := "8".toList
  socType3520DV400 := "11".toList
  socType3531D := "9".toList
  socType3516CV300 := "10".toList
  fbNo := 0
  vfbNo := 1
  height := "1080".toList
  socTypeNo := 14
  chCnt := "16".toList
  myprj := "trunk".toList

theorem novatek_takesAll :
    ∃ l, wSh.run novatek "./w.sh".toList ["--gdb".toList, "-v".toList] = some l ∧
      (TakesAll (wSh.gdbserver 'k') novatek 'k' ["--gdb".toList, "-v".toList] l ↔
        Served ["--gdb".toList, "-v".toList]) :=
  scripts_takeAll_iff (Or.inl rfl) (by decide) _ _

/-- A debugger behind another argument is dropped, and the value of a target in
front goes to the program. -/
theorem novatek_leaks :
    (∃ l, wSh.run novatek "./w.sh".toList ["-v".toList, "--gdb".toList] = some l ∧ l.gdb = [] ∧
      ¬ TakesAll (wSh.gdbserver 'k') novatek 'k' ["-v".toList, "--gdb".toList] l) ∧
    (∃ l, wSh.run novatek "./w.sh".toList ["--target".toList, "hs8k".toList] = some l ∧
      " hs8k".toList <+: l.args ∧
      ¬ TakesAll (wSh.gdbserver 'k') novatek 'k' ["--target".toList, "hs8k".toList] l) := by
  constructor
  · refine ⟨_, rfl, by decide, ?_⟩
    intro h
    exact absurd h.gdb (by decide)
  · refine ⟨_, rfl, by decide, ?_⟩
    intro h
    exact absurd h.args (by decide)

end PtsTools.Launcher
