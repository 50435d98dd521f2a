import Mathlib.Data.List.Infix

/-!
# Replacing every occurrence of a substring

`replaceAll old new s` scans `s` from the left.  Where `old` starts it emits
`new` and goes on behind the occurrence, and elsewhere it emits one element and
goes on with the next.  The result of a replacement is never scanned again.
This is the `replace` of most string libraries for a nonempty `old`.

There are three groups of lemmas.

* The scan: what one step does, and where it changes nothing.
* When a replacement is visible.  `eq_of_replaceAll_eq` says that a text that
  becomes one of its own extensions had no occurrence, as soon as neither of
  `old` and `new` is a prefix of the other.
* Texts that are made of separated segments, such as paths.  `segments sep cs`
  puts `sep` before every segment, and `infix_segments_iff` says where one whole
  segment between two separators occurs in it.
-/

namespace PtsTools.Lib.Replace

section Scan

variable {α : Type} [DecidableEq α]

/-! ## The scan -/

/-- The scan.  The counter is the number of elements of the last occurrence that
are still to be skipped. -/
def replaceGo (old new : List α) : Nat → List α → List α
  | _, [] => []
  | skip + 1, _ :: rest => replaceGo old new skip rest
  | 0, a :: rest =>
    if old <+: a :: rest then new ++ replaceGo old new (old.length - 1) rest
    else a :: replaceGo old new 0 rest

/-- Every occurrence of `old` becomes `new`, from the left and without overlap. -/
def replaceAll (old new s : List α) : List α := replaceGo old new 0 s

theorem replaceGo_eq_drop (old new : List α) (skip : Nat) (s : List α) :
    replaceGo old new skip s = replaceAll old new (s.drop skip) := by
  induction s generalizing skip with
  | nil => simp [replaceAll, replaceGo]
  | cons a rest ih =>
    cases skip with
    | zero => rfl
    | succ skip => rw [replaceGo, ih, List.drop_succ_cons]

@[simp] theorem replaceAll_nil (old new : List α) : replaceAll old new [] = [] := rfl

/-- The scan passes an element at which `old` does not start. -/
theorem replaceAll_cons_of_ne {old : List α} (new : List α) {a : α} {s : List α}
    (h : ¬ old <+: a :: s) : replaceAll old new (a :: s) = a :: replaceAll old new s := by
  rw [replaceAll, replaceGo, if_neg h, replaceAll]

/-- The scan replaces `old` where it starts and goes on behind it. -/
theorem replaceAll_append_self {old : List α} (hold : old ≠ []) (new s : List α) :
    replaceAll old new (old ++ s) = new ++ replaceAll old new s := by
  cases old with
  | nil => exact absurd rfl hold
  | cons a tail =>
    have hpre : a :: tail <+: a :: (tail ++ s) := ⟨s, rfl⟩
    rw [List.cons_append, replaceAll, replaceGo, if_pos hpre, replaceGo_eq_drop]
    simp

/-- `old` starts at no element of `pre`, not even with an occurrence of `old` right
behind it. -/
def Clear (old : List α) : List α → Prop
  | [] => True
  | a :: pre => ¬ old <+: a :: (pre ++ old) ∧ Clear old pre

instance Clear.decidable (old : List α) : (pre : List α) → Decidable (Clear old pre)
  | [] => isTrue trivial
  | a :: pre =>
    haveI := Clear.decidable old pre
    inferInstanceAs (Decidable (¬ old <+: a :: (pre ++ old) ∧ Clear old pre))

/-- A clear front part is copied. -/
theorem replaceAll_append_of_clear {old : List α} (hold : old ≠ []) (new : List α)
    {pre : List α} (hclear : Clear old pre) (s : List α) :
    replaceAll old new (pre ++ (old ++ s)) = pre ++ (new ++ replaceAll old new s) := by
  induction pre with
  | nil => exact replaceAll_append_self hold new s
  | cons a pre ih =>
    have hne : ¬ old <+: a :: (pre ++ (old ++ s)) := by
      rw [← List.append_assoc, ← List.cons_append,
        List.isPrefix_append_of_length (by simp; omega)]
      exact hclear.1
    rw [List.cons_append, replaceAll_cons_of_ne new hne, List.cons_append, ih hclear.2]

/-- A text without `old` stays as it is. -/
theorem replaceAll_eq_self {old : List α} (new : List α) {s : List α} (h : ¬ old <:+: s) :
    replaceAll old new s = s := by
  induction s with
  | nil => rfl
  | cons a s ih =>
    have hpre : ¬ old <+: a :: s := fun hp => h hp.isInfix
    have hin : ¬ old <:+: s := fun hi => h (hi.trans (List.suffix_cons a s).isInfix)
    rw [replaceAll_cons_of_ne new hpre, ih hin]

/-! ## When a replacement is visible -/

/-- Suppose that the replacement turns `s` into a text that extends `s`.  Then
`s` is that text already, and it has no occurrence of `old`: the first
occurrence would put `new` where the extension still has `old`. -/
theorem eq_of_replaceAll_eq {old new : List α} (hon : ¬ old <+: new) (hno : ¬ new <+: old)
    {s t : List α} (hst : s <+: t) (h : replaceAll old new s = t) :
    s = t ∧ ¬ old <:+: s := by
  induction s generalizing t with
  | nil =>
    refine ⟨h, ?_⟩
    rw [List.infix_nil]
    intro heq
    subst heq
    exact hon List.nil_prefix
  | cons a s ih =>
    by_cases hp : old <+: a :: s
    · exfalso
      have hold : old ≠ [] := by
        intro heq
        subst heq
        exact hon List.nil_prefix
      obtain ⟨u, hu⟩ := hp
      have hnew : new <+: t := by
        rw [← hu, replaceAll_append_self hold] at h
        exact ⟨_, h⟩
      have holdt : old <+: t := (List.IsPrefix.trans ⟨u, hu⟩ hst)
      rcases List.prefix_or_prefix_of_prefix holdt hnew with hx | hx
      · exact hon hx
      · exact hno hx
    · rw [replaceAll_cons_of_ne new hp] at h
      cases t with
      | nil => simp at h
      | cons b t =>
        obtain ⟨hab, hst'⟩ := List.cons_prefix_cons.mp hst
        rw [List.cons.injEq] at h
        obtain ⟨heq, hnin⟩ := ih hst' h.2
        refine ⟨by rw [hab, heq], ?_⟩
        rw [List.infix_cons_iff]
        intro hmem
        rcases hmem with hx | hx
        · exact hp hx
        · exact hnin hx

/-- The same for a text of which only the front part is left.  What remains
becomes the whole text with `new` in place of one `old` exactly when nothing was
cut off and `old` does not occur again. -/
theorem replaceAll_cut_iff {old new : List α} (hon : ¬ old <+: new) (hno : ¬ new <+: old)
    {pre w s : List α} (hclear : Clear old pre) (hs : s <+: pre ++ (old ++ w)) :
    replaceAll old new s = pre ++ (new ++ w) ↔ s = pre ++ (old ++ w) ∧ ¬ old <:+: w := by
  have hold : old ≠ [] := by
    intro heq
    subst heq
    exact hon List.nil_prefix
  have hnew : new ≠ [] := by
    intro heq
    subst heq
    exact hno List.nil_prefix
  induction pre generalizing s with
  | nil =>
    rw [List.nil_append, List.nil_append] at *
    rcases List.prefix_or_prefix_of_prefix hs (List.prefix_append old w) with hso | ⟨s', rfl⟩
    · by_cases heq : s = old
      · -- Nothing is left behind `old`.
        subst heq
        have hself : replaceAll s new s = new := by
          have := replaceAll_append_self hold new ([] : List α)
          rwa [replaceAll_nil, List.append_nil, List.append_nil] at this
        rw [hself]
        constructor
        · intro h
          have hw : w = [] := by simpa using h
          subst hw
          exact ⟨by simp, fun hin => hold (List.infix_nil.mp hin)⟩
        · intro hand
          rcases hand with ⟨h, _⟩
          have hw : w = [] := by simpa using h
          rw [hw, List.append_nil]
      · have hlt : s.length < old.length := by
          rcases Nat.lt_or_ge s.length old.length with h | h
          · exact h
          · exact absurd (hso.eq_of_length_le h) heq
        have hno' : ¬ old <:+: s := fun hin => absurd hin.length_le (by omega)
        rw [replaceAll_eq_self new hno']
        apply iff_of_false
        · intro heq
          subst heq
          exact hno ((List.prefix_append new w).trans hso)
        · intro hand
          rcases hand with ⟨rfl, _⟩
          rw [List.length_append] at hlt
          omega
    · rw [replaceAll_append_self hold, List.append_cancel_left_eq, List.append_cancel_left_eq]
      have hs' : s' <+: w := (List.prefix_append_right_inj old).mp hs
      constructor
      · intro h
        obtain ⟨heq, hin⟩ := eq_of_replaceAll_eq hon hno hs' h
        exact ⟨heq, heq ▸ hin⟩
      · intro hand
        rcases hand with ⟨rfl, hin⟩
        exact replaceAll_eq_self new hin
  | cons a pre ih =>
    cases s with
    | nil => simp
    | cons b s =>
      rw [List.cons_append, List.cons_prefix_cons] at hs
      obtain ⟨rfl, hs⟩ := hs
      have hne : ¬ old <+: b :: s := by
        intro h
        refine hclear.1 (List.prefix_of_prefix_length_le
          (h.trans (List.cons_prefix_cons.mpr ⟨rfl, hs⟩)) ?_ (by simp; omega))
        exact ⟨w, by simp⟩
      have ih' := ih hclear.2 hs
      rw [replaceAll_cons_of_ne new hne, List.cons_append, List.cons_append, List.cons.injEq,
        List.cons.injEq, eq_self, true_and, true_and]
      exact ih'

/-- Where `new` is as long as `old`, what is replaced in the rest of a text does not make
it shorter. -/
theorem length_replaceAll_prefix {old new : List α} (hold : old ≠ [])
    (hlen : old.length ≤ new.length) {s t : List α} (hst : s <+: t) :
    (replaceAll old new s).length + t.length ≤ (replaceAll old new t).length + s.length := by
  induction hn : t.length using Nat.strong_induction_on generalizing s t with
  | _ n ih =>
    subst hn
    by_cases hpre : old <+: t
    · obtain ⟨t', rfl⟩ := hpre
      have hpos : 0 < old.length := List.length_pos_iff.mpr hold
      have hlt : t'.length < (old ++ t').length := by
        rw [List.length_append]
        omega
      rw [replaceAll_append_self hold, List.length_append, List.length_append]
      rcases List.prefix_or_prefix_of_prefix (List.prefix_append old t') hst with hos | hso
      · obtain ⟨s', rfl⟩ := hos
        have hs' : s' <+: t' := (List.prefix_append_right_inj old).mp hst
        have ih' := ih _ hlt hs' rfl
        rw [replaceAll_append_self hold, List.length_append, List.length_append]
        omega
      · -- the text ends before the first `old` does
        have ih' := ih _ hlt (List.nil_prefix : [] <+: t') rfl
        rw [replaceAll_nil, List.length_nil] at ih'
        by_cases heq : old <:+: s
        · rw [hso.eq_of_length_le heq.length_le]
          have hself := replaceAll_append_self hold new ([] : List α)
          rw [replaceAll_nil, List.append_nil, List.append_nil] at hself
          rw [hself]
          omega
        · rw [replaceAll_eq_self new heq]
          omega
    · cases t with
      | nil => rw [List.prefix_nil.mp hst]
      | cons a t =>
        have hlt : t.length < (a :: t).length := by simp
        rw [replaceAll_cons_of_ne new hpre, List.length_cons, List.length_cons]
        cases s with
        | nil =>
          have ih' := ih _ hlt (List.nil_prefix : [] <+: t) rfl
          rw [replaceAll_nil, List.length_nil] at ih' ⊢
          omega
        | cons b s =>
          obtain ⟨rfl, hs⟩ := List.cons_prefix_cons.mp hst
          have ih' := ih _ hlt hs rfl
          have hpre' : ¬ old <+: b :: s := fun h => hpre (h.trans hst)
          rw [replaceAll_cons_of_ne new hpre', List.length_cons, List.length_cons]
          omega

/-- A text that was cut off is told apart behind the replacement as well. -/
theorem eq_of_replaceAll_prefix {old new : List α} (hold : old ≠ [])
    (hlen : old.length ≤ new.length) {s t : List α} (hst : s <+: t)
    (h : replaceAll old new s = replaceAll old new t) : s = t := by
  have hle := length_replaceAll_prefix hold hlen hst
  rw [h] at hle
  exact hst.eq_of_length_le (by omega)

end Scan

section Segments

variable {α : Type}

/-! ## Separated segments -/

/-- The segments one after the other, with `sep` before each of them. -/
def segments (sep : α) (cs : List (List α)) : List α := cs.flatMap (sep :: ·)

@[simp] theorem segments_nil (sep : α) : segments sep [] = [] := rfl

@[simp] theorem segments_cons (sep : α) (c : List α) (cs : List (List α)) :
    segments sep (c :: cs) = sep :: (c ++ segments sep cs) := by
  simp [segments]

theorem segments_append (sep : α) (cs ds : List (List α)) :
    segments sep (cs ++ ds) = segments sep cs ++ segments sep ds := by
  simp [segments]

/-- A joined list is its first segment followed by the separated others. -/
theorem intercalate_cons (sep : α) (c : List α) (cs : List (List α)) :
    [sep].intercalate (c :: cs) = c ++ segments sep cs := by
  induction cs generalizing c with
  | nil => simp
  | cons d cs ih => rw [List.intercalate_cons_cons, ih]; simp

/-- An element of a block that does not hold `sep` is not the start of a
separated segment. -/
theorem infix_append_of_notMem {sep : α} {name u s : List α} (hu : sep ∉ u) :
    sep :: name <:+: u ++ s ↔ sep :: name <:+: s := by
  induction u with
  | nil => rfl
  | cons a u ih =>
    have hne : ¬ sep :: name <+: a :: (u ++ s) := by
      intro h
      exact hu (by rw [(List.cons_prefix_cons.mp h).1]; exact List.mem_cons_self)
    rw [List.cons_append, List.infix_cons_iff, ih (fun h => hu (List.mem_cons_of_mem a h))]
    exact ⟨fun h => h.resolve_left hne, Or.inr⟩

/-- A name that ends at a separator is the whole segment there. -/
theorem prefix_segment_iff {sep : α} {name c : List α} (hname : sep ∉ name) (hc : sep ∉ c)
    (cs : List (List α)) :
    name ++ [sep] <+: c ++ segments sep cs ↔ name = c ∧ cs ≠ [] := by
  constructor
  · intro h
    induction name generalizing c with
    | nil =>
      cases c with
      | nil =>
        refine ⟨rfl, ?_⟩
        intro heq
        subst heq
        simp at h
      | cons b c =>
        have : sep = b := (List.cons_prefix_cons.mp h).1
        exact absurd (by rw [this]; exact List.mem_cons_self) hc
    | cons a name ih =>
      cases c with
      | nil =>
        cases cs with
        | nil => simp at h
        | cons d cs =>
          rw [List.nil_append, segments_cons, List.cons_append, List.cons_prefix_cons] at h
          exact absurd (by rw [h.1]; exact List.mem_cons_self) hname
      | cons b c =>
        rw [List.cons_append, List.cons_append, List.cons_prefix_cons] at h
        obtain ⟨hn, hcs⟩ := ih (fun hx => hname (List.mem_cons_of_mem a hx))
          (fun hx => hc (List.mem_cons_of_mem b hx)) h.2
        exact ⟨by rw [h.1, hn], hcs⟩
  · intro hand
    rcases hand with ⟨rfl, hcs⟩
    cases cs with
    | nil => exact absurd rfl hcs
    | cons d cs => exact ⟨d ++ segments sep cs, by simp⟩

/-- One whole segment between two separators occurs exactly where a segment
other than the last one has that name. -/
theorem infix_segments_iff {sep : α} {name : List α} (hname : sep ∉ name)
    {cs : List (List α)} (hcs : ∀ c ∈ cs, sep ∉ c) :
    sep :: name ++ [sep] <:+: segments sep cs ↔ name ∈ cs.dropLast := by
  induction cs with
  | nil => simp [List.infix_nil]
  | cons c cs ih =>
    have hc : sep ∉ c := hcs c List.mem_cons_self
    have ih' := ih (fun d hd => hcs d (List.mem_cons_of_mem c hd))
    rw [segments_cons, List.infix_cons_iff, List.cons_append, List.cons_prefix_cons,
      prefix_segment_iff hname hc, infix_append_of_notMem hc, ← List.cons_append, ih']
    cases cs with
    | nil => simp
    | cons d cs => simp

/-- The same for a joined list, whose first segment has no separator before it. -/
theorem infix_intercalate_iff {sep : α} {name : List α} (hname : sep ∉ name)
    {cs : List (List α)} (hcs : ∀ c ∈ cs, sep ∉ c) :
    sep :: name ++ [sep] <:+: [sep].intercalate cs ↔ name ∈ cs.tail.dropLast := by
  cases cs with
  | nil => simp
  | cons c cs =>
    rw [intercalate_cons, List.cons_append, infix_append_of_notMem (hcs c List.mem_cons_self),
      ← List.cons_append, infix_segments_iff hname fun d hd => hcs d (List.mem_cons_of_mem c hd),
      List.tail_cons]

/-- A prefix of two blocks ends in the first one or covers it. -/
theorem prefix_append_cases {s u v : List α} (h : s <+: u ++ v) :
    s <+: u ∨ ∃ s', s = u ++ s' ∧ s' <+: v := by
  rcases List.prefix_or_prefix_of_prefix h (List.prefix_append u v) with hs | ⟨s', rfl⟩
  · exact Or.inl hs
  · exact Or.inr ⟨s', rfl, (List.prefix_append_right_inj u).mp h⟩

/-- A prefix of a joined list is joined too: some of the segments in full, then
a prefix of the next one. -/
theorem exists_of_prefix_intercalate {sep : α} {cs : List (List α)} (hne : cs ≠ [])
    {s : List α} (h : s <+: [sep].intercalate cs) :
    ∃ done d c rest, cs = done ++ c :: rest ∧ s = [sep].intercalate (done ++ [d]) ∧ d <+: c := by
  induction cs generalizing s with
  | nil => exact absurd rfl hne
  | cons c cs ih =>
    rw [intercalate_cons] at h
    rcases prefix_append_cases h with hsc | ⟨s', rfl, hs'⟩
    · exact ⟨[], s, c, cs, rfl, by simp, hsc⟩
    · cases cs with
      | nil =>
        refine ⟨[], c, c, [], rfl, ?_, List.prefix_rfl⟩
        simp at hs'
        simp [hs']
      | cons d cs =>
        cases s' with
        | nil => exact ⟨[], c, c, d :: cs, rfl, by simp, List.prefix_rfl⟩
        | cons a s' =>
          rw [segments_cons, List.cons_prefix_cons, ← intercalate_cons] at hs'
          obtain ⟨done, e, c', rest, hcs, hs, he⟩ := ih (by simp) hs'.2
          refine ⟨c :: done, e, c', rest, by rw [hcs]; rfl, ?_, he⟩
          rw [hs, hs'.1]
          cases done with
          | nil => simp
          | cons x done => simp [intercalate_cons]

/-- The first segments joined are a prefix of all of them joined. -/
theorem intercalate_append_prefix {sep : α} {cs : List (List α)} (hne : cs ≠ [])
    (ds : List (List α)) : [sep].intercalate cs <+: [sep].intercalate (cs ++ ds) := by
  obtain ⟨c, cs, rfl⟩ := List.exists_cons_of_ne_nil hne
  rw [List.cons_append, intercalate_cons, intercalate_cons, segments_append,
    List.prefix_append_right_inj]
  exact List.prefix_append _ _

/-- The last of the first segments may be cut. -/
theorem intercalate_concat_prefix {sep : α} {cs : List (List α)} (hne : cs ≠ [])
    {d c : List α} (hd : d <+: c) (rest : List (List α)) :
    [sep].intercalate (cs ++ [d]) <+: [sep].intercalate (cs ++ c :: rest) := by
  obtain ⟨b, cs, rfl⟩ := List.exists_cons_of_ne_nil hne
  rw [List.cons_append, List.cons_append, intercalate_cons, intercalate_cons, segments_append,
    segments_append, List.prefix_append_right_inj, List.prefix_append_right_inj, segments_cons,
    segments_cons, segments_nil, List.append_nil, List.cons_prefix_cons]
  exact ⟨rfl, hd.trans (List.prefix_append c _)⟩

/-- The last separator cuts a text in one way only. -/
theorem append_separator_inj {sep : α} {u u' v v' : List α} (hv : sep ∉ v) (hv' : sep ∉ v')
    (h : u ++ sep :: v = u' ++ sep :: v') : u = u' ∧ v = v' := by
  have hcut : ∀ {s w w' : List α}, sep ∉ w → sep :: w = s ++ sep :: w' → s = [] := by
    intro s w w' hw hs
    cases s with
    | nil => rfl
    | cons a s =>
      have hmem : sep ∈ w := by
        rw [(List.cons.inj hs).2]
        exact List.mem_append_right _ List.mem_cons_self
      exact absurd hmem hw
  rcases List.append_eq_append_iff.mp h with ⟨s, hu, hs⟩ | ⟨s, hu, hs⟩
  · rw [hcut hv hs, List.append_nil] at hu
    rw [hcut hv hs] at hs
    exact ⟨hu.symm, (List.cons.inj hs).2⟩
  · rw [hcut hv' hs, List.append_nil] at hu
    rw [hcut hv' hs] at hs
    exact ⟨hu, (List.cons.inj hs).2.symm⟩

/-- A word without the separator lies on one side of it. -/
theorem infix_separated_iff {sep : α} {word u v : List α} (hword : sep ∉ word) :
    word <:+: u ++ sep :: v ↔ word <:+: u ∨ word <:+: v := by
  have hcut : ∀ s, s <+: sep :: v → sep ∉ s → s = [] := by
    intro s hs hsep
    cases s with
    | nil => rfl
    | cons a s =>
      rw [(List.cons_prefix_cons.mp hs).1] at hsep
      exact absurd List.mem_cons_self hsep
  constructor
  · intro h
    induction u with
    | nil =>
      rcases List.infix_cons_iff.mp h with hpre | hinf
      · rw [hcut word hpre hword]
        exact Or.inl List.nil_infix
      · exact Or.inr hinf
    | cons a u ih =>
      rcases List.infix_cons_iff.mp h with hpre | hinf
      · rcases prefix_append_cases (u := a :: u) (v := sep :: v) hpre with hu | ⟨s', hs', hrest⟩
        · exact Or.inl hu.isInfix
        · have hnil := hcut s' hrest fun hs => hword (by
            rw [hs']
            exact List.mem_append_right _ hs)
          rw [hs', hnil, List.append_nil]
          exact Or.inl List.infix_rfl
      · rcases ih hinf with hu | hv
        · exact Or.inl (hu.trans (List.suffix_cons a u).isInfix)
        · exact Or.inr hv
  · intro h
    rcases h with hu | hv
    · exact hu.trans (List.prefix_append u _).isInfix
    · exact hv.trans ((List.suffix_cons sep v).trans (List.suffix_append u _)).isInfix

/-- The first piece of a text ends at the first separator. -/
theorem head?_splitOnP (p : α → Bool) (s : List α) :
    (s.splitOnP p).head? = some (s.takeWhile fun c => !p c) := by
  induction s with
  | nil => rfl
  | cons c s ih =>
    rw [List.splitOnP_cons_eq_if_modifyHead]
    cases hc : p c with
    | true => simp [hc]
    | false =>
      rw [List.takeWhile_cons_of_pos (by simp [hc]), if_neg (by simp), List.head?_modifyHead, ih]
      rfl

/-- There is a second piece exactly if there is a separator. -/
theorem tail_splitOnP_ne_nil_iff (p : α → Bool) (s : List α) :
    (s.splitOnP p).tail ≠ [] ↔ ∃ c ∈ s, p c = true := by
  constructor
  · intro h
    by_contra hnone
    have hsingle : s.splitOnP p = [s] := by
      apply List.splitOnP_eq_singleton
      intro c hc
      cases hp : p c with
      | false => rfl
      | true => exact absurd ⟨c, hc, hp⟩ hnone
    rw [hsingle] at h
    exact h rfl
  · intro h
    rcases h with ⟨c, hc, hp⟩
    rcases List.append_of_mem hc with ⟨a, b, rfl⟩
    rw [List.splitOnP_append_cons _ _ hp]
    intro hnil
    have hlength := congrArg List.length hnil
    have ha := List.length_pos_iff.mpr (List.splitOnP_ne_nil p a)
    have hb := List.length_pos_iff.mpr (List.splitOnP_ne_nil p b)
    rw [List.length_tail, List.length_append, List.length_nil] at hlength
    omega

end Segments

end PtsTools.Lib.Replace
