import PtsTools.Config.Model

/-!
# Options that the loop reads

An option is a word with a value or `-t`, and `-p` and `--port` are two spellings of
one option.  On a list of options the loop assigns them one after another and ends:
`ends_options`.  An option with a value may come last without it, and then the
value is empty.  On every other list there is a word that no arm of the `case`
matches, and the loop stays there: `terminates_iff`.
-/

namespace PtsTools.Config

open PtsTools.Lib.While

/-- An option, in one of its spellings. -/
inductive Opt
  | valued (k : Key) (long : Bool) (value : Text)
  | tls (long : Bool)
  deriving DecidableEq, Repr

/-- The words of an option. -/
def Opt.words : Opt → List Text
  | .valued k long value => [k.word long, value]
  | .tls long => [tlsWord long]

/-- A script has an option. -/
def Script.Has (s : Script) : Opt → Prop
  | .valued k _ _ => k ∈ s.keys
  | .tls _ => True

instance (s : Script) : DecidablePred s.Has
  | .valued k _ _ => inferInstanceAs (Decidable (k ∈ s.keys))
  | .tls _ => isTrue trivial

/-- What an option changes. -/
def Script.apply (s : Script) (env : Env) (st : Settings) : Opt → Settings
  | .valued k _ value => k.assign env value st
  | .tls _ => s.tls st

/-- The arguments are options of the script, and the value of the last one may be
missing. -/
def Script.Readable (s : Script) (args : List Text) : Prop :=
  ∃ opts : List Opt, (∀ o ∈ opts, s.Has o) ∧
    (args = opts.flatMap Opt.words ∨
      ∃ k ∈ s.keys, ∃ long, args = opts.flatMap Opt.words ++ [k.word long])

/-! ## The words of the options -/

/-- The words tell the options apart. -/
theorem word_inj {k k' : Key} {long long' : Bool} (h : k.word long = k'.word long') : k = k' := by
  revert h
  cases k <;> cases k' <;> cases long <;> cases long' <;> decide

theorem word_ne_tls (k : Key) (long long' : Bool) : k.word long ≠ tlsWord long' := by
  cases k <;> cases long <;> cases long' <;> decide

variable {s : Script}

theorem key?_word {k : Key} (hk : k ∈ s.keys) (long : Bool) : s.key? (k.word long) = some k := by
  have hmatch : k.word long = k.word false ∨ k.word long = k.word true := by
    cases long
    · exact Or.inl rfl
    · exact Or.inr rfl
  unfold Script.key?
  cases hfind : s.keys.find? fun k' => k.word long = k'.word false ∨ k.word long = k'.word true with
  | none =>
    have hnot := List.find?_eq_none.mp hfind k hk
    exact absurd hmatch (by simpa using hnot)
  | some k' =>
    have hk' := List.find?_some hfind
    rcases of_decide_eq_true hk' with h | h
    · rw [word_inj h]
    · rw [word_inj h]

/-- A word that names an option is one of its two words. -/
theorem word_of_key? {w : Text} {k : Key} (h : s.key? w = some k) :
    k ∈ s.keys ∧ ∃ long, w = k.word long := by
  unfold Script.key? at h
  refine ⟨List.mem_of_find?_eq_some h, ?_⟩
  have hword := List.find?_some h
  rcases of_decide_eq_true hword with hw | hw
  · exact ⟨false, hw⟩
  · exact ⟨true, hw⟩

theorem key?_tls (long : Bool) : s.key? (tlsWord long) = none := by
  cases hkey : s.key? (tlsWord long) with
  | none => rfl
  | some k =>
    rcases word_of_key? hkey with ⟨-, long', hw⟩
    exact absurd hw.symm (word_ne_tls k long' long)

/-! ## One round -/

variable (env : Env) (st : Settings)

theorem body_valued {k : Key} (hk : k ∈ s.keys) (long : Bool) (rest : List Text) :
    s.body env (st, k.word long :: rest) = (k.assign env (rest.getD 0 []) st, rest.drop 1) := by
  unfold Script.body
  simp only [key?_word hk]

theorem body_tls (long : Bool) (rest : List Text) :
    s.body env (st, tlsWord long :: rest) = (s.tls st, rest) := by
  have hword : tlsWord long = tlsWord false ∨ tlsWord long = tlsWord true := by
    cases long
    · exact Or.inl rfl
    · exact Or.inr rfl
  unfold Script.body
  simp only [key?_tls, if_pos hword]

/-- A word that is no option stays where it is. -/
theorem body_other {w : Text} (hkey : s.key? w = none) (htls : ∀ long, w ≠ tlsWord long)
    (rest : List Text) : s.body env (st, w :: rest) = (st, w :: rest) := by
  unfold Script.body
  simp only [hkey, htls, or_self, if_false]

theorem loop_cond (w : Text) (rest : List Text) : (s.loop env).cond (st, w :: rest) = true := by
  show decide (0 < (w :: rest).length) = true
  simp

variable {r : Settings × List Text}

/-- The loop takes an option with the word behind it. -/
theorem ends_valued {k : Key} (hk : k ∈ s.keys) (long : Bool) (rest : List Text) :
    (s.loop env).Ends (st, k.word long :: rest) r ↔
      (s.loop env).Ends (k.assign env (rest.getD 0 []) st, rest.drop 1) r := by
  rw [← body_valued env st hk long rest]
  exact ends_step (loop_cond env st _ rest)

/-- The loop takes `-t`. -/
theorem ends_tls (long : Bool) (rest : List Text) :
    (s.loop env).Ends (st, tlsWord long :: rest) r ↔ (s.loop env).Ends (s.tls st, rest) r := by
  rw [← body_tls env st long rest]
  exact ends_step (loop_cond env st _ rest)

/-! ## The loop -/

/-- The loop takes the options one after another. -/
theorem ends_options {opts : List Opt} (hopts : ∀ o ∈ opts, s.Has o) (rest : List Text) :
    (s.loop env).Ends (st, opts.flatMap Opt.words ++ rest) r ↔
      (s.loop env).Ends (opts.foldl (s.apply env) st, rest) r := by
  induction opts generalizing st with
  | nil => exact Iff.rfl
  | cons o opts ih =>
    have ih' := fun st => ih st fun o' ho' => hopts o' (List.mem_cons_of_mem o ho')
    rw [List.flatMap_cons, List.append_assoc, List.foldl_cons, ← ih']
    cases o with
    | valued k long value => exact ends_valued env st (hopts _ List.mem_cons_self) long _
    | tls long => exact ends_tls env st long _

/-- The loop ends behind the options. -/
theorem ends_nil {opts : List Opt} (hopts : ∀ o ∈ opts, s.Has o) :
    (s.loop env).Ends (st, opts.flatMap Opt.words) (opts.foldl (s.apply env) st, []) := by
  have hends := (ends_options env st hopts []).mpr (ends_done rfl)
  rw [List.append_nil] at hends
  exact hends

/-- The loop never ends in front of a word that is no option. -/
theorem not_terminates_other {w : Text} (hkey : s.key? w = none)
    (htls : ∀ long, w ≠ tlsWord long) (rest : List Text) :
    ¬ (s.loop env).Terminates (st, w :: rest) := by
  apply not_terminates_of_invariant (I := fun r => r = (st, w :: rest))
  · intro r hr
    rw [hr]
    exact loop_cond env st w rest
  · intro r hr
    rw [hr]
    exact body_other env st hkey htls rest
  · rfl

/-- Options in front of arguments that the script can read. -/
theorem Readable.cons {o : Opt} (ho : s.Has o) {args : List Text} (h : s.Readable args) :
    s.Readable (o.words ++ args) := by
  rcases h with ⟨opts, hopts, hargs⟩
  refine ⟨o :: opts, ?_, ?_⟩
  · intro o' ho'
    rcases List.mem_cons.mp ho' with heq | ho'
    · rw [heq]
      exact ho
    · exact hopts o' ho'
  · rcases hargs with hargs | ⟨k, hk, long, hargs⟩
    · left
      rw [hargs, List.flatMap_cons]
    · right
      exact ⟨k, hk, long, by rw [hargs, List.flatMap_cons, List.append_assoc]⟩

/-- Where the loop ends, the script can read the arguments. -/
theorem readable_of_ends (n : Nat) {args : List Text} (hn : args.length < n)
    (h : (s.loop env).Ends (st, args) r) : s.Readable args := by
  induction n generalizing args st with
  | zero => exact absurd hn (Nat.not_lt_zero _)
  | succ n ih =>
    cases args with
    | nil => exact ⟨[], fun o ho => absurd ho List.not_mem_nil, Or.inl rfl⟩
    | cons w rest =>
      rw [List.length_cons] at hn
      cases hkey : s.key? w with
      | some k =>
        rcases word_of_key? hkey with ⟨hk, long, rfl⟩
        cases rest with
        | nil => exact ⟨[], fun o ho => absurd ho List.not_mem_nil, Or.inr ⟨k, hk, long, rfl⟩⟩
        | cons v rest =>
          have hlt : rest.length < n := by
            rw [List.length_cons] at hn
            omega
          have hrest := ih _ hlt ((ends_valued env st hk long (v :: rest)).mp h)
          exact Readable.cons (o := .valued k long v) hk hrest
      | none =>
        by_cases htls : ∃ long, w = tlsWord long
        · rcases htls with ⟨long, rfl⟩
          have hlt : rest.length < n := by omega
          have hrest := ih _ hlt ((ends_tls env st long rest).mp h)
          exact Readable.cons (o := .tls long) trivial hrest
        · have hother := not_terminates_other env st hkey (fun long hw => htls ⟨long, hw⟩) rest
          exact absurd ⟨r, h⟩ hother

/-- The loop of a script ends exactly if the arguments are options of it, with or
without the value of the last one. -/
theorem terminates_iff (s : Script) (env : Env) (st : Settings) (args : List Text) :
    (s.loop env).Terminates (st, args) ↔ s.Readable args := by
  constructor
  · intro h
    rcases h with ⟨r, hr⟩
    exact readable_of_ends env st _ (Nat.lt_succ_self _) hr
  · intro h
    rcases h with ⟨opts, hopts, hargs | ⟨k, hk, long, hargs⟩⟩
    · rw [hargs]
      exact ⟨_, ends_nil env st hopts⟩
    · rw [hargs]
      have hlast := (ends_valued env (opts.foldl (s.apply env) st) hk long []).mpr (ends_done rfl)
      exact ⟨_, (ends_options env st hopts _).mpr hlast⟩

/-- `runccc` has every option. -/
theorem runccc_has (opts : List Opt) : ∀ o ∈ opts, runccc.Has o := by
  intro o _
  cases o with
  | valued k long v =>
    have hall : ∀ k : Key, k ∈ runccc.keys := by
      intro k
      cases k <;> decide
    exact hall k
  | tls long => trivial

/-- An environment in which every file exists. -/
def plainEnv : Env where
  home := "/home/tsp".toList
  myprj := "trunk".toList
  targetid := "win".toList
  pwd := "/home/tsp/exe".toList
  isFile _ := true

/-- A word that is no option keeps both scripts in their loops. -/
theorem loops_forever :
    ¬ (runccc.loop plainEnv).Terminates
        (runccc.start plainEnv "./runccc".toList "7".toList, ["x".toList]) ∧
      ¬ (linuxccc.loop plainEnv).Terminates
        (linuxccc.start plainEnv "./linuxccc".toList "7".toList, ["x".toList]) := by
  have htls : ∀ long, "x".toList ≠ tlsWord long := by decide
  exact ⟨not_terminates_other plainEnv _ (by decide) htls [],
    not_terminates_other plainEnv _ (by decide) htls []⟩

end PtsTools.Config
