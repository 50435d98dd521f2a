import PtsTools.Python.Str

/-!
# `getopt.getopt`

`getopt` reads the options in front of the other arguments.  A word with one hyphen is a
cluster of short options, a word with two is a long option, which may be cut off as long
as it stays unique.  The value of an option is in the same word or in the next one.

The functions return what they read and whether they took the next argument.  The text
of an error is left out.

`Written` is a word of options with the value that may stand behind it, and
`getopt_eq_some_iff` says that `getopt` accepts exactly what is written in this way.
-/

namespace PtsTools.Python.Getopt

/-- The options that a program knows: `shortopts`, in which a colon is put behind an
option with a value, and `longopts`, in which it is an equals sign at the end. -/
structure Options where
  shortopts : Str
  longopts : List Str

/-- An option that was read, with its hyphens, and its value. -/
abbrev Pair : Type := Str × Str

/-! ## The functions -/

/-- `short_has_arg`. -/
def shortHasArg (opt : Char) : Str → Option Bool
  | [] => none
  | c :: rest =>
    if opt = c ∧ c ≠ ':' then some (decide (rest.head? = some ':')) else shortHasArg opt rest

/-- `long_has_args`: whether the option takes a value, and its full name. -/
def longHasArgs (opt : Str) (longopts : List Str) : Option (Bool × Str) :=
  let possibilities := longopts.filter fun o => opt <+: o
  if opt ∈ possibilities then some (false, opt)
  else if opt ++ ['='] ∈ possibilities then some (true, opt)
  else
    match possibilities with
    | [unique] =>
      if unique.getLast? = some '=' then some (true, unique.dropLast) else some (false, unique)
    | _ => none

/-- `do_shorts`, on the cluster behind the hyphen. -/
def doShorts (shortopts : Str) (next : Option Str) : Str → Option (List Pair × Bool)
  | [] => some ([], false)
  | opt :: optstring =>
    match shortHasArg opt shortopts with
    | none => none
    | some true =>
      if optstring = [] then next.map fun v => ([(['-', opt], v)], true)
      else some ([(['-', opt], optstring)], false)
    | some false =>
      (doShorts shortopts next optstring).map fun r => ((['-', opt], []) :: r.1, r.2)

/-- `do_longs`, on the word behind the hyphens. -/
def doLongs (longopts : List Str) (next : Option Str) (opt : Str) : Option (List Pair × Bool) :=
  match longHasArgs (opt.takeWhile (· ≠ '=')) longopts with
  | none => none
  | some (true, name) =>
    if '=' ∈ opt then some ([('-' :: '-' :: name, (opt.dropWhile (· ≠ '=')).tail)], false)
    else next.map fun v => ([('-' :: '-' :: name, v)], true)
  | some (false, name) => if '=' ∈ opt then none else some ([('-' :: '-' :: name, [])], false)

/-- One round of the loop of `getopt`, on a word with a hyphen. -/
def readWord (o : Options) (next : Option Str) : Str → Option (List Pair × Bool)
  | '-' :: '-' :: opt => doLongs o.longopts next opt
  | word => doShorts o.shortopts next word.tail

/-- A word of options: a hyphen with something behind it. -/
def isOption (word : Str) : Bool := word.head? = some '-' && word ≠ ['-']

/-- `getopt(args, shortopts, longopts)`, or `none` for a `GetoptError`. -/
def getopt (o : Options) : List Str → Option (List Pair × List Str)
  | [] => some ([], [])
  | word :: args =>
    if ¬ isOption word then some ([], word :: args)
    else if word = ['-', '-'] then some ([], args)
    else
      (readWord o args.head? word).bind fun r =>
        (getopt o (if r.2 then args.tail else args)).map fun rest => (r.1 ++ rest.1, rest.2)
termination_by args => args.length
decreasing_by
  rw [List.length_cons]
  split_ifs
  · rw [List.length_tail]
    omega
  · omega

/-! ## Options as they are written -/

/-- A word of options, with the value behind it if there is one. -/
inductive Written
  /-- `-abc` -/
  | flags (cluster : Str)
  /-- `-abcvalue` -/
  | short (cluster : Str) (opt : Char) (value : Str)
  /-- `-abc value` -/
  | shortNext (cluster : Str) (opt : Char) (value : Str)
  /-- `--name` -/
  | long (opt name : Str)
  /-- `--name=value` -/
  | longEq (opt name value : Str)
  /-- `--name value` -/
  | longNext (opt name value : Str)
  deriving DecidableEq, Repr

/-- The words. -/
def Written.words : Written → List Str
  | .flags cluster => ['-' :: cluster]
  | .short cluster opt value => ['-' :: (cluster ++ opt :: value)]
  | .shortNext cluster opt value => ['-' :: (cluster ++ [opt]), value]
  | .long opt _ => ['-' :: '-' :: opt]
  | .longEq opt _ value => ['-' :: '-' :: (opt ++ '=' :: value)]
  | .longNext opt _ value => ['-' :: '-' :: opt, value]

/-- Short options without a value. -/
def flagPairs (cluster : Str) : List Pair := cluster.map fun c => (['-', c], [])

/-- What the words say. -/
def Written.pairs : Written → List Pair
  | .flags cluster => flagPairs cluster
  | .short cluster opt value => flagPairs cluster ++ [(['-', opt], value)]
  | .shortNext cluster opt value => flagPairs cluster ++ [(['-', opt], value)]
  | .long _ name => [('-' :: '-' :: name, [])]
  | .longEq _ name value => [('-' :: '-' :: name, value)]
  | .longNext _ name value => [('-' :: '-' :: name, value)]

/-- A cluster of short options without a value. -/
def Flags (o : Options) (cluster : Str) : Prop :=
  ∀ c ∈ cluster, shortHasArg c o.shortopts = some false

/-- The program knows the options.  A cluster does not start with a hyphen, a long
option is not empty where it could be taken for the end of the options, and the value of
a short option in the same word is not empty. -/
def Written.Valid (o : Options) : Written → Prop
  | .flags cluster => cluster ≠ [] ∧ cluster.head? ≠ some '-' ∧ Flags o cluster
  | .short cluster opt value =>
    (cluster ++ [opt]).head? ≠ some '-' ∧ Flags o cluster ∧
      shortHasArg opt o.shortopts = some true ∧ value ≠ []
  | .shortNext cluster opt _ =>
    (cluster ++ [opt]).head? ≠ some '-' ∧ Flags o cluster ∧
      shortHasArg opt o.shortopts = some true
  | .long opt name => opt ≠ [] ∧ '=' ∉ opt ∧ longHasArgs opt o.longopts = some (false, name)
  | .longEq opt name _ => '=' ∉ opt ∧ longHasArgs opt o.longopts = some (true, name)
  | .longNext opt name _ =>
    opt ≠ [] ∧ '=' ∉ opt ∧ longHasArgs opt o.longopts = some (true, name)

/-- The options end: at `--`, or where the next argument is no option. -/
def Ends (tail args : List Str) : Prop :=
  tail = ['-', '-'] :: args ∨ (tail = args ∧ ∀ word ∈ args.head?, isOption word = false)

/-! ## One word -/

variable {o : Options} {next : Option Str}

theorem doShorts_flags {cluster : Str} (h : Flags o cluster) (rest : Str) :
    doShorts o.shortopts next (cluster ++ rest) =
      (doShorts o.shortopts next rest).map fun r => (flagPairs cluster ++ r.1, r.2) := by
  induction cluster with
  | nil => simp [flagPairs]
  | cons c cluster ih =>
    rw [List.cons_append, doShorts, h c List.mem_cons_self]
    dsimp only
    rw [ih fun c' hc' => h c' (List.mem_cons_of_mem _ hc'), Option.map_map]
    rfl

/-- A cluster that is read. -/
theorem doShorts_eq_some {cluster : Str} {opts : List Pair} {took : Bool}
    (h : doShorts o.shortopts next cluster = some (opts, took)) :
    (Flags o cluster ∧ opts = flagPairs cluster ∧ took = false) ∨
      ∃ front opt value, Flags o front ∧ shortHasArg opt o.shortopts = some true ∧
        opts = flagPairs front ++ [(['-', opt], value)] ∧
        ((took = false ∧ value ≠ [] ∧ cluster = front ++ opt :: value) ∨
          (took = true ∧ next = some value ∧ cluster = front ++ [opt])) := by
  induction cluster generalizing opts with
  | nil =>
    cases h
    exact Or.inl ⟨fun c hc => absurd hc List.not_mem_nil, rfl, rfl⟩
  | cons c cluster ih =>
    rw [doShorts] at h
    cases harg : shortHasArg c o.shortopts with
    | none =>
      rw [harg] at h
      cases h
    | some valued =>
      rw [harg] at h
      have hnone : Flags o [] := fun c hc => absurd hc List.not_mem_nil
      cases valued with
      | true =>
        dsimp only at h
        split_ifs at h with hnil
        · obtain ⟨v, hnext, heq⟩ := Option.map_eq_some_iff.mp h
          cases heq
          exact Or.inr ⟨[], c, v, hnone, harg, rfl, Or.inr ⟨rfl, hnext, by rw [hnil]; rfl⟩⟩
        · cases h
          exact Or.inr ⟨[], c, cluster, hnone, harg, rfl, Or.inl ⟨rfl, hnil, rfl⟩⟩
      | false =>
        obtain ⟨r, hr, heq⟩ := Option.map_eq_some_iff.mp h
        obtain ⟨opts', took'⟩ := r
        cases heq
        have hcons : ∀ {front}, Flags o front → Flags o (c :: front) := by
          intro front hfront c' hc'
          rcases List.mem_cons.mp hc' with rfl | hc'
          · exact harg
          · exact hfront c' hc'
        rcases ih hr with ⟨hflags, rfl, htook⟩ | ⟨front, opt, value, hflags, hopt, rfl, hcases⟩
        · exact Or.inl ⟨hcons hflags, rfl, htook⟩
        · refine Or.inr ⟨c :: front, opt, value, hcons hflags, hopt, rfl, ?_⟩
          rcases hcases with ⟨htook, hvalue, rfl⟩ | ⟨htook, hnext, rfl⟩
          · exact Or.inl ⟨htook, hvalue, rfl⟩
          · exact Or.inr ⟨htook, hnext, rfl⟩

theorem isOption_cons {c : Char} (cluster : Str) : isOption ('-' :: c :: cluster) = true := by
  simp [isOption]

/-- A word with one hyphen is a cluster. -/
theorem readWord_cluster {cluster : Str} (h : cluster.head? ≠ some '-') :
    readWord o next ('-' :: cluster) = doShorts o.shortopts next cluster := by
  cases cluster with
  | nil => rfl
  | cons c cluster =>
    have hc : c ≠ '-' := fun heq => h (by rw [heq]; rfl)
    unfold readWord
    split
    · rename_i opt heq
      exact absurd (List.cons.inj (List.cons.inj heq).2).1 hc
    · rfl

/-- The name of a long option ends at the first equals sign. -/
theorem cut_name {opt value : Str} (h : '=' ∉ opt) :
    (opt ++ '=' :: value).takeWhile (· ≠ '=') = opt ∧
      (opt ++ '=' :: value).dropWhile (· ≠ '=') = '=' :: value := by
  have hall : ∀ c ∈ opt, decide (c ≠ '=') = true := by
    intro c hc
    exact decide_eq_true fun heq => h (heq ▸ hc)
  rw [List.takeWhile_append_of_pos hall, List.dropWhile_append_of_pos hall]
  simp

theorem takeWhile_name {opt : Str} (h : '=' ∉ opt) : opt.takeWhile (· ≠ '=') = opt := by
  rw [List.takeWhile_eq_self_iff]
  intro c hc
  exact decide_eq_true fun heq => h (heq ▸ hc)

/-- What is written in one word is read, whatever comes next. -/
structure ReadsWord (o : Options) (w : Written) (word : Str) : Prop where
  isOption : isOption word = true
  ne_end : word ≠ ['-', '-']
  reads : (w.words = [word] ∧ ∀ next, readWord o next word = some (w.pairs, false)) ∨
    ∃ value, w.words = [word, value] ∧ readWord o (some value) word = some (w.pairs, true)

theorem readsWord_cluster {cluster : Str} {w : Written} (hne : cluster ≠ [])
    (hhead : cluster.head? ≠ some '-')
    (hreads : (w.words = ['-' :: cluster] ∧
        ∀ next, doShorts o.shortopts next cluster = some (w.pairs, false)) ∨
      ∃ value, w.words = ['-' :: cluster, value] ∧
        doShorts o.shortopts (some value) cluster = some (w.pairs, true)) :
    ReadsWord o w ('-' :: cluster) where
  isOption := by
    obtain ⟨c, cluster, rfl⟩ := List.exists_cons_of_ne_nil hne
    exact isOption_cons cluster
  ne_end := by
    intro heq
    rw [(List.cons.inj heq).2] at hhead
    exact hhead rfl
  reads := by
    simp only [readWord_cluster hhead]
    exact hreads

/-- Options as they are written are read. -/
theorem readsWord_of_valid {w : Written} (hw : w.Valid o) : ∃ word, ReadsWord o w word := by
  cases w with
  | flags cluster =>
    obtain ⟨hne, hhead, hflags⟩ := hw
    refine ⟨_, readsWord_cluster hne hhead (Or.inl ⟨rfl, fun next => ?_⟩)⟩
    rw [← List.append_nil cluster, doShorts_flags hflags]
    simp [doShorts, Written.pairs]
  | short cluster opt value =>
    obtain ⟨hhead, hflags, hopt, hvalue⟩ := hw
    have hhead' : (cluster ++ opt :: value).head? ≠ some '-' := by
      cases cluster with
      | nil => exact hhead
      | cons c cluster => exact hhead
    refine ⟨_, readsWord_cluster (by simp) hhead' (Or.inl ⟨rfl, fun next => ?_⟩)⟩
    rw [doShorts_flags hflags, doShorts, hopt]
    simp [hvalue, Written.pairs]
  | shortNext cluster opt value =>
    obtain ⟨hhead, hflags, hopt⟩ := hw
    refine ⟨_, readsWord_cluster (by simp) hhead (Or.inr ⟨value, rfl, ?_⟩)⟩
    rw [doShorts_flags hflags, doShorts, hopt]
    simp [Written.pairs]
  | long opt name =>
    obtain ⟨hne, hequals, hname⟩ := hw
    obtain ⟨c, opt, rfl⟩ := List.exists_cons_of_ne_nil hne
    refine ⟨_, isOption_cons _, by simp, Or.inl ⟨rfl, fun next => ?_⟩⟩
    show doLongs o.longopts next (c :: opt) = _
    rw [doLongs, takeWhile_name hequals, hname]
    exact if_neg hequals
  | longEq opt name value =>
    obtain ⟨hequals, hname⟩ := hw
    refine ⟨_, isOption_cons _, by simp, Or.inl ⟨rfl, fun next => ?_⟩⟩
    show doLongs o.longopts next (opt ++ '=' :: value) = _
    rw [doLongs, (cut_name hequals).1, (cut_name hequals).2, hname]
    simp [Written.pairs]
  | longNext opt name value =>
    obtain ⟨hne, hequals, hname⟩ := hw
    obtain ⟨c, opt, rfl⟩ := List.exists_cons_of_ne_nil hne
    refine ⟨_, isOption_cons _, by simp, Or.inr ⟨value, rfl, ?_⟩⟩
    show doLongs o.longopts (some value) (c :: opt) = _
    rw [doLongs, takeWhile_name hequals, hname]
    exact if_neg hequals

/-- What is read from a long option. -/
theorem doLongs_eq_some {opt : Str} {opts : List Pair} {took : Bool} (hne : opt ≠ [])
    (h : doLongs o.longopts next opt = some (opts, took)) :
    ∃ w : Written, w.Valid o ∧ w.pairs = opts ∧
      ((took = false ∧ w.words = ['-' :: '-' :: opt]) ∨
        ∃ value, took = true ∧ next = some value ∧ w.words = ['-' :: '-' :: opt, value]) := by
  unfold doLongs at h
  have hcut : '=' ∉ opt.takeWhile (· ≠ '=') := by
    intro hmem
    exact absurd (List.mem_takeWhile_imp hmem) (by simp)
  have hparts : '=' ∈ opt → opt =
      opt.takeWhile (· ≠ '=') ++ '=' :: (opt.dropWhile (· ≠ '=')).tail := by
    intro hmem
    have happend := List.takeWhile_append_dropWhile (p := (· ≠ '=')) (l := opt)
    have hdrop : opt.dropWhile (· ≠ '=') ≠ [] := by
      intro hnil
      rw [List.dropWhile_eq_nil_iff] at hnil
      exact absurd (hnil '=' hmem) (by simp)
    have hhead := List.head_dropWhile_not _ hdrop
    have hequals : (opt.dropWhile (· ≠ '=')).head hdrop = '=' := by
      simpa using hhead
    have hcons := List.cons_head_tail hdrop
    rw [hequals] at hcons
    rw [hcons, happend]
  cases hname : longHasArgs (opt.takeWhile (· ≠ '=')) o.longopts with
  | none =>
    rw [hname] at h
    cases h
  | some r =>
    obtain ⟨valued, name⟩ := r
    rw [hname] at h
    cases valued with
    | true =>
      dsimp only at h
      split_ifs at h with hmem
      · cases h
        refine ⟨.longEq (opt.takeWhile (· ≠ '=')) name (opt.dropWhile (· ≠ '=')).tail,
          ⟨hcut, hname⟩, rfl, Or.inl ⟨rfl, ?_⟩⟩
        show ['-' :: '-' :: (_ ++ '=' :: _)] = _
        rw [← hparts hmem]
      · obtain ⟨v, hnext, heq⟩ := Option.map_eq_some_iff.mp h
        cases heq
        rw [takeWhile_name hmem] at hname
        exact ⟨.longNext opt name v, ⟨hne, hmem, hname⟩, rfl, Or.inr ⟨v, rfl, hnext, rfl⟩⟩
    | false =>
      dsimp only at h
      split_ifs at h with hmem
      cases h
      rw [takeWhile_name hmem] at hname
      exact ⟨.long opt name, ⟨hne, hmem, hname⟩, rfl, Or.inl ⟨rfl, rfl⟩⟩

/-- What is read was written. -/
theorem written_of_readWord {word : Str} {opts : List Pair} {took : Bool}
    (hoption : isOption word = true) (hend : word ≠ ['-', '-'])
    (h : readWord o next word = some (opts, took)) :
    ∃ w : Written, w.Valid o ∧ w.pairs = opts ∧
      ((took = false ∧ w.words = [word]) ∨
        ∃ value, took = true ∧ next = some value ∧ w.words = [word, value]) := by
  obtain ⟨c, opt, rfl⟩ : ∃ c opt, word = '-' :: c :: opt := by
    match word, hoption with
    | [], hoption => simp [isOption] at hoption
    | [a], hoption => simp [isOption] at hoption
    | a :: c :: opt, hoption =>
      have ha : a = '-' := by simpa [isOption] using hoption
      exact ⟨c, opt, by rw [ha]⟩
  by_cases hc : c = '-'
  · subst hc
    refine doLongs_eq_some ?_ h
    intro heq
    exact hend (by rw [heq])
  · have hhead : (c :: opt).head? ≠ some '-' := fun heq => hc (Option.some.inj heq)
    rw [readWord_cluster hhead] at h
    rcases doShorts_eq_some h with ⟨hflags, rfl, rfl⟩ | ⟨front, b, value, hflags, hb, rfl, hcases⟩
    · exact ⟨.flags (c :: opt), ⟨by simp, hhead, hflags⟩, rfl, Or.inl ⟨rfl, rfl⟩⟩
    · rcases hcases with ⟨rfl, hvalue, heq⟩ | ⟨rfl, hnext, heq⟩
      · rw [heq] at hhead ⊢
        refine ⟨.short front b value, ⟨?_, hflags, hb, hvalue⟩, rfl, Or.inl ⟨rfl, rfl⟩⟩
        cases front with
        | nil => exact hhead
        | cons a front => exact hhead
      · rw [heq] at hhead ⊢
        exact ⟨.shortNext front b value, ⟨hhead, hflags, hb⟩, rfl,
          Or.inr ⟨value, rfl, hnext, rfl⟩⟩

/-! ## All words -/

theorem getopt_nil : getopt o [] = some ([], []) := by
  unfold getopt
  rfl

theorem getopt_end (args : List Str) : getopt o (['-', '-'] :: args) = some ([], args) := by
  unfold getopt
  rw [if_neg (by decide), if_pos rfl]

theorem getopt_argument {word : Str} (hword : isOption word = false) (args : List Str) :
    getopt o (word :: args) = some ([], word :: args) := by
  unfold getopt
  rw [if_pos (by rw [hword]; decide)]

theorem getopt_option {word : Str} (hoption : isOption word = true) (hend : word ≠ ['-', '-'])
    (args : List Str) :
    getopt o (word :: args) =
      (readWord o args.head? word).bind fun r =>
        (getopt o (if r.2 then args.tail else args)).map fun rest => (r.1 ++ rest.1, rest.2) := by
  have hnot : ¬ (¬ isOption word = true) := fun h => h hoption
  rw [getopt, if_neg hnot, if_neg hend]

theorem getopt_ends {tail args : List Str} (h : Ends tail args) :
    getopt o tail = some ([], args) := by
  rcases h with rfl | ⟨rfl, hhead⟩
  · exact getopt_end args
  · cases tail with
    | nil => exact getopt_nil
    | cons word args => exact getopt_argument (hhead word rfl) args

theorem getopt_written {w : Written} (hw : w.Valid o) (args : List Str) :
    getopt o (w.words ++ args) = (getopt o args).map fun r => (w.pairs ++ r.1, r.2) := by
  obtain ⟨word, hoption, hend, hreads⟩ := readsWord_of_valid hw
  rcases hreads with ⟨hwords, hread⟩ | ⟨value, hwords, hread⟩
  · rw [hwords, List.singleton_append, getopt_option hoption hend, hread]
    rfl
  · rw [hwords, List.cons_append, List.singleton_append, getopt_option hoption hend,
      List.head?_cons, hread]
    rfl

/-- `getopt` accepts exactly the arguments that start with options that the program knows,
written in any of the ways, and it reads what they say. -/
theorem getopt_eq_some_iff {args rest : List Str} {opts : List Pair} :
    getopt o args = some (opts, rest) ↔
      ∃ ws : List Written, ∃ tail, (∀ w ∈ ws, w.Valid o) ∧ Ends tail rest ∧
        args = ws.flatMap Written.words ++ tail ∧ opts = ws.flatMap Written.pairs := by
  constructor
  · intro h
    -- a word takes one argument or two, so the induction is on their number
    induction hn : args.length using Nat.strong_induction_on generalizing args opts with
    | _ n ih =>
    cases args with
    | nil =>
      rw [getopt_nil] at h
      cases h
      exact ⟨[], [], fun w hw => absurd hw List.not_mem_nil,
        Or.inr ⟨rfl, fun word hword => absurd hword (by simp)⟩, rfl, rfl⟩
    | cons word args =>
      by_cases hoption : isOption word = true
      · by_cases hend : word = ['-', '-']
        · subst hend
          rw [getopt_end] at h
          cases h
          exact ⟨[], _, fun w hw => absurd hw List.not_mem_nil, Or.inl rfl, rfl, rfl⟩
        · rw [getopt_option hoption hend] at h
          obtain ⟨r, hread, hrest⟩ := Option.bind_eq_some_iff.mp h
          obtain ⟨rest', hgetopt, heq⟩ := Option.map_eq_some_iff.mp hrest
          obtain ⟨opts', took⟩ := r
          obtain ⟨opts'', rest''⟩ := rest'
          cases heq
          obtain ⟨w, hw, rfl, hwords⟩ := written_of_readWord hoption hend hread
          have hlength : (if took then args.tail else args).length < n := by
            rw [← hn]
            split_ifs
            · rw [List.length_tail, List.length_cons]
              omega
            · rw [List.length_cons]
              omega
          obtain ⟨ws, tail, hws, hends, hargs, rfl⟩ := ih _ hlength hgetopt rfl
          refine ⟨w :: ws, tail, ?_, hends, ?_, rfl⟩
          · intro w' hw'
            rcases List.mem_cons.mp hw' with rfl | hw'
            · exact hw
            · exact hws w' hw'
          · rw [List.flatMap_cons, List.append_assoc, ← hargs]
            rcases hwords with ⟨rfl, hwords⟩ | ⟨value, rfl, hnext, hwords⟩
            · rw [hwords]
              rfl
            · rw [hwords, List.cons_append, List.singleton_append]
              congr 1
              exact (List.cons_head?_tail hnext).symm
      · have hword : isOption word = false := eq_false_of_ne_true hoption
        rw [getopt_argument hword] at h
        cases h
        refine ⟨[], _, fun w hw => absurd hw List.not_mem_nil, Or.inr ⟨rfl, ?_⟩, rfl, rfl⟩
        intro word' hword'
        cases hword'
        exact hword
  · intro h
    obtain ⟨ws, tail, hws, hends, rfl, rfl⟩ := h
    induction ws with
    | nil => exact getopt_ends hends
    | cons w ws ih =>
      rw [List.flatMap_cons, List.append_assoc, getopt_written (hws w List.mem_cons_self),
        ih fun w' hw' => hws w' (List.mem_cons_of_mem _ hw')]
      rfl

end PtsTools.Python.Getopt
