import Mathlib.Data.List.Basic
import Mathlib.Tactic.SplitIfs
import PtsTools.Lib.Replace
import PtsTools.Project.Model

/-!
# What `model_id` prints

The substitutions of `model_id` put hyphens into the code and change nothing else,
whatever the code is: `modelId_letters`.  On a code of the documented shape they put
one hyphen between any two segments: `modelId_code`.

For the second result the family and the number in front of the code are out of the
way first.  No substitution matches there, so all of them work on the last digit of
the number and what follows it: `rules_front`.
-/

namespace PtsTools.Project

open PtsTools.Lib.Replace

/-- A text without its hyphens. -/
def letters (s : Text) : Text := s.filter (· ≠ '-')

/-- A text in upper case. -/
def upper (s : Text) : Text := s.map Char.toUpper

/-- A code with neither a hyphen nor a letter in upper case. -/
structure LowerCode (s : Text) : Prop where
  no_hyphen : '-' ∉ s
  no_upper : ∀ c ∈ s, c.isUpper = false

theorem lowerCode_iff (s : Text) :
    LowerCode s ↔ '-' ∉ s ∧ s.all (fun c => !c.isUpper) = true := by
  have hall : s.all (fun c => !c.isUpper) = true ↔ ∀ c ∈ s, c.isUpper = false := by
    simp [List.all_eq_true]
  rw [hall]
  exact ⟨fun h => ⟨h.no_hyphen, h.no_upper⟩, fun h => ⟨h.1, h.2⟩⟩

instance : DecidablePred LowerCode := fun s => decidable_of_iff _ (lowerCode_iff s).symm

/-! ## Upper case -/

theorem toNat_toUpper (c : Char) :
    c.toUpper.toNat = if 97 ≤ c.toNat ∧ c.toNat ≤ 122 then c.toNat - 32 else c.toNat := by
  have hlower : 'a'.val ≤ c.val ∧ c.val ≤ 'z'.val ↔ 97 ≤ c.toNat ∧ c.toNat ≤ 122 := by
    simp [UInt32.le_iff_toNat_le]
  split_ifs with h
  · have hupper : c.toUpper.val = c.val + ('A'.val - 'a'.val) := by
      delta Char.toUpper
      rw [dif_pos (hlower.mpr h)]
    rw [← Char.toNat_val, hupper, UInt32.toNat_add]
    show (c.toNat + 4294967264) % 4294967296 = c.toNat - 32
    omega
  · exact congrArg Char.toNat (dif_neg fun h' => h (hlower.mp h'))

theorem not_upper_range {c : Char} (hc : c.isUpper = false) :
    ¬ (65 ≤ c.toNat ∧ c.toNat ≤ 90) := by
  have hrange : ¬ ('A'.val ≤ c.val ∧ c.val ≤ 'Z'.val) := of_decide_eq_false hc
  rw [UInt32.le_iff_toNat_le, UInt32.le_iff_toNat_le] at hrange
  exact hrange

/-- Two characters that are not in upper case stay different. -/
theorem toUpper_inj {c d : Char} (hc : c.isUpper = false) (hd : d.isUpper = false)
    (h : c.toUpper = d.toUpper) : c = d := by
  have hnat := congrArg Char.toNat h
  rw [toNat_toUpper, toNat_toUpper] at hnat
  have hc' := not_upper_range hc
  have hd' := not_upper_range hd
  apply Char.toNat_inj.mp
  split_ifs at hnat <;> omega

/-- Only the hyphen becomes a hyphen. -/
theorem toUpper_eq_hyphen {c : Char} : c.toUpper = '-' ↔ c = '-' := by
  rw [← Char.toNat_inj, ← Char.toNat_inj, toNat_toUpper]
  show _ = 45 ↔ _ = 45
  split_ifs <;> omega

theorem letters_upper (s : Text) : letters (upper s) = upper (letters s) := by
  unfold letters upper
  rw [List.filter_map]
  congr 1
  apply List.filter_congr
  intro c _
  simp [toUpper_eq_hyphen]

theorem upper_inj {s t : Text} (hs : ∀ c ∈ s, c.isUpper = false)
    (ht : ∀ c ∈ t, c.isUpper = false) (h : upper s = upper t) : s = t := by
  induction s generalizing t with
  | nil => exact (List.map_eq_nil_iff.mp h.symm).symm
  | cons c s ih =>
    cases t with
    | nil => exact absurd h (by simp [upper])
    | cons d t =>
      rcases List.cons.inj h with ⟨hhead, htail⟩
      rw [toUpper_inj (hs c List.mem_cons_self) (ht d List.mem_cons_self) hhead,
        ih (fun c hc => hs c (List.mem_cons_of_mem _ hc))
          (fun d hd => ht d (List.mem_cons_of_mem _ hd)) htail]

/-! ## One substitution -/

variable (left right : List (Char → Bool))

/-- A substitution puts in one hyphen, or nothing. -/
theorem letters_hyphenate (s : Text) : letters (hyphenate left right s) = letters s := by
  induction s with
  | nil => rfl
  | cons c s ih =>
    rw [hyphenate]
    split_ifs
    · have hsplit := List.take_append_drop left.length (c :: s)
      unfold letters
      rw [List.filter_append, List.filter_cons_of_neg (by simp), ← List.filter_append, hsplit]
    · unfold letters at ih ⊢
      rw [List.filter_cons, List.filter_cons, ih]

/-- A substitution leaves a part alone in which no match begins. -/
theorem hyphenate_front (front s : Text)
    (h : ∀ a t, front = a ++ t → t ≠ [] → matchHere (left ++ right) (t ++ s) = false) :
    hyphenate left right (front ++ s) = front ++ hyphenate left right s := by
  induction front with
  | nil => rfl
  | cons c front ih =>
    have hhere : matchHere (left ++ right) (c :: (front ++ s)) = false :=
      h [] (c :: front) rfl (List.cons_ne_nil _ _)
    have hrest := ih fun a t hfront ht => h (c :: a) t (by rw [hfront, List.cons_append]) ht
    rw [List.cons_append, hyphenate, hhere, if_neg (by decide), hrest]
    rfl

/-- A substitution keeps the first character, and only a hyphen may come behind it. -/
theorem hyphenate_head {left : List (Char → Bool)} (hleft : left ≠ []) (c : Char) (s : Text) :
    ∃ s', hyphenate left right (c :: s) = c :: s' ∧
      (s'.head? = s.head? ∨ s'.head? = some '-') := by
  induction s generalizing c with
  | nil =>
    rw [hyphenate]
    split_ifs
    · rcases List.exists_cons_of_ne_nil hleft with ⟨p, ps, rfl⟩
      exact ⟨['-'], by simp, Or.inr rfl⟩
    · exact ⟨[], rfl, Or.inl rfl⟩
  | cons c' s ih =>
    rw [hyphenate]
    split_ifs
    · rcases List.exists_cons_of_ne_nil hleft with ⟨p, ps, rfl⟩
      refine ⟨(c' :: s).take ps.length ++ '-' :: (c' :: s).drop ps.length, rfl, ?_⟩
      cases ps with
      | nil => exact Or.inr rfl
      | cons q qs => exact Or.inl rfl
    · rcases ih c' with ⟨s', hs', -⟩
      exact ⟨hyphenate left right (c' :: s), rfl, Or.inl (by rw [hs']; rfl)⟩

/-! ## Characters -/

/-- A digit. -/
abbrev Digit := { c : Char // digit c = true }

/-- A digit is no character that a substitution names. -/
theorem ne_of_digit {c d : Char} (hd : digit d = true) (hc : digit c = false) : d ≠ c := by
  intro heq
  rw [heq, hc] at hd
  exact absurd hd (by decide)

theorem lower_of_digit {c : Char} (hc : digit c = true) : lower c = false := by
  simp [digit, lower, Char.le_def, UInt32.le_iff_toNat_le] at hc ⊢
  omega

theorem digit_of_lower {c : Char} (hc : lower c = true) : digit c = false := by
  cases hdigit : digit c with
  | false => rfl
  | true =>
    rw [lower_of_digit hdigit] at hc
    exact absurd hc (by decide)

theorem fOrP_of_digit {c : Char} (hc : digit c = true) : fOrP c = false := by
  simp [fOrP, ne_of_digit hc (by decide : digit 'f' = false),
    ne_of_digit hc (by decide : digit 'p' = false)]

theorem ne_hyphen_of_lower {c : Char} (hc : lower c = true) : c ≠ '-' := by
  intro heq
  rw [heq] at hc
  exact absurd hc (by decide)

/-! ## In front of the last digit -/

/-- A substitution of the list. -/
def hyphenateBy (rule : List (Char → Bool) × List (Char → Bool)) (s : Text) : Text :=
  hyphenate rule.1 rule.2 s

variable {rule : List (Char → Bool) × List (Char → Bool)}

/-- No match begins at a digit with a digit behind it. -/
theorem no_match_digits (hrule : rule ∈ modelIdRules) {c d : Char} (hc : digit c = true)
    (hd : digit d = true) (s : Text) : matchHere (rule.1 ++ rule.2) (c :: d :: s) = false := by
  have hne : ∀ {c x : Char}, digit c = true → digit x = false → (c = x) = False := by
    intro c x hc hx
    exact eq_false (ne_of_digit hc hx)
  simp only [modelIdRules, List.mem_cons, List.not_mem_nil, or_false] at hrule
  rcases hrule with rfl | rfl | rfl | rfl | rfl | rfl | rfl
  · simp [matchHere, fOrP_of_digit hd]
  · simp [matchHere, hne hc (by decide : digit '-' = false)]
  · simp [matchHere, hne hc (by decide : digit '-' = false)]
  · simp [matchHere, hne hc (by decide : digit 'h' = false)]
  · simp [matchHere, hne hc (by decide : digit 'u' = false)]
  · simp [matchHere, hne hd (by decide : digit 'h' = false)]
  · simp [matchHere, hne hc (by decide : digit 'v' = false)]

/-- No match begins in letters if none begins with one. -/
theorem no_match_first {t : Text} (ht : t ≠ []) (hlower : ∀ c ∈ t, lower c = true)
    {p : Char → Bool} (hp : ∀ c, lower c = true → p c = false) (ps : List (Char → Bool))
    (s : Text) : matchHere (p :: ps) (t ++ s) = false := by
  rcases List.exists_cons_of_ne_nil ht with ⟨c, t, rfl⟩
  simp [matchHere, hp c (hlower c List.mem_cons_self)]

/-- No version begins in letters with a digit behind them, if its mark does not come
behind that. -/
theorem no_match_mark {t : Text} (ht : t ≠ []) (hlower : ∀ c ∈ t, lower c = true) (d : Char)
    {s : Text} {mark : Char} (hs : s.head? ≠ some mark) (p : Char → Bool)
    (ps : List (Char → Bool)) :
    matchHere (p :: digit :: (· = mark) :: ps) (t ++ d :: s) = false := by
  rcases List.exists_cons_of_ne_nil ht with ⟨c, t, rfl⟩
  cases t with
  | nil =>
    cases s with
    | nil => simp [matchHere]
    | cons e s =>
      have he : e ≠ mark := fun heq => hs (congrArg some heq)
      simp [matchHere, he]
  | cons c' t =>
    have hc' : digit c' = false := digit_of_lower (hlower c' (by simp))
    simp [matchHere, hc']

/-- `urv2` does not begin in letters with a digit behind them other than `urv`. -/
theorem no_match_urv2 {t : Text} (ht : t ≠ []) (hlower : ∀ c ∈ t, lower c = true)
    (hurv : t ≠ "urv".toList) {d : Char} (hd : digit d = true) (s : Text) :
    matchHere [(· = 'u'), (· = 'r'), (· = 'v'), (· = '2')] (t ++ d :: s) = false := by
  have hr : d ≠ 'r' := ne_of_digit hd (by decide)
  have hv : d ≠ 'v' := ne_of_digit hd (by decide)
  match t, ht, hlower, hurv with
  | [c], _, _, _ => simp [matchHere, hr]
  | [c, c'], _, _, _ => simp [matchHere, hv]
  | [c, c', c''], _, _, hurv =>
    have hne : ¬ (c = 'u' ∧ c' = 'r' ∧ c'' = 'v') := by
      intro heq
      rw [heq.1, heq.2.1, heq.2.2] at hurv
      exact hurv rfl
    cases hmatch : matchHere [(· = 'u'), (· = 'r'), (· = 'v'), (· = '2')] (c :: c' :: c'' :: d :: s)
    · exact hmatch
    · simp [matchHere] at hmatch
      exact absurd ⟨hmatch.1, hmatch.2.1, hmatch.2.2.1⟩ hne
  | c :: c' :: c'' :: e :: t, _, hlower, _ =>
    have he : e ≠ '2' := by
      intro heq
      have hlow := hlower e (by simp)
      rw [heq] at hlow
      exact absurd hlow (by decide)
    simp [matchHere, he]

/-- No match begins in the letters of the family, if neither `v` nor `r` comes behind
the first digit. -/
theorem no_match_family (hrule : rule ∈ modelIdRules) {t : Text} (ht : t ≠ [])
    (hlower : ∀ c ∈ t, lower c = true) (hurv : t ≠ "urv".toList) {d : Char}
    (hd : digit d = true) {s : Text} (hv : s.head? ≠ some 'v') (hr : s.head? ≠ some 'r') :
    matchHere (rule.1 ++ rule.2) (t ++ d :: s) = false := by
  simp only [modelIdRules, List.mem_cons, List.not_mem_nil, or_false] at hrule
  rcases hrule with rfl | rfl | rfl | rfl | rfl | rfl | rfl
  · exact no_match_first ht hlower (fun c hc => digit_of_lower hc) _ _
  · exact no_match_first ht hlower (fun c hc => by simp [ne_hyphen_of_lower hc]) _ _
  · exact no_match_first ht hlower (fun c hc => by simp [ne_hyphen_of_lower hc]) _ _
  · exact no_match_mark ht hlower d hv _ _
  · exact no_match_urv2 ht hlower hurv hd s
  · exact no_match_first ht hlower (fun c hc => digit_of_lower hc) _ _
  · exact no_match_mark ht hlower d hr _ _

/-- The first digit of a number, and what can stand behind it. -/
theorem number_head {number : Text} (hnumber : ∀ c ∈ number, digit c = true) {d : Char}
    (hd : digit d = true) (s : Text) :
    ∃ e s', number ++ d :: s = e :: s' ∧ digit e = true ∧
      ∀ mark, digit mark = false → s.head? ≠ some mark → s'.head? ≠ some mark := by
  have hdigit : ∀ {e mark : Char} {s' : Text}, digit e = true → digit mark = false →
      (e :: s').head? ≠ some mark := by
    intro e mark s' he hmark heq
    exact ne_of_digit he hmark (Option.some.inj heq)
  match number, hnumber with
  | [], _ => exact ⟨d, s, rfl, hd, fun mark _ hs => hs⟩
  | [c], hnumber =>
    exact ⟨c, d :: s, rfl, hnumber c (by simp), fun mark hmark _ => hdigit hd hmark⟩
  | c :: c' :: number, hnumber =>
    exact ⟨c, c' :: (number ++ d :: s), rfl, hnumber c (by simp),
      fun mark hmark _ => hdigit (hnumber c' (by simp)) hmark⟩

/-- The family and the number in front of the last digit. -/
structure Front (family number : Text) : Prop where
  lower : ∀ c ∈ family, lower c = true
  not_urv : ¬ "urv".toList <:+ family
  digits : ∀ c ∈ number, digit c = true

/-- A substitution leaves the front alone. -/
theorem hyphenateBy_front (hrule : rule ∈ modelIdRules) {family number : Text}
    (h : Front family number) {d : Char} (hd : digit d = true) {s : Text}
    (hv : s.head? ≠ some 'v') (hr : s.head? ≠ some 'r') :
    hyphenateBy rule (family ++ (number ++ d :: s)) =
      family ++ (number ++ hyphenateBy rule (d :: s)) := by
  unfold hyphenateBy
  rw [hyphenate_front, hyphenate_front]
  · intro a t hnumber ht
    rcases List.exists_cons_of_ne_nil ht with ⟨c, t, rfl⟩
    have hmem : ∀ c' ∈ c :: t, digit c' = true := by
      intro c' hc'
      exact h.digits c' (by rw [hnumber]; exact List.mem_append_right _ hc')
    rcases number_head (fun c' hc' => hmem c' (List.mem_cons_of_mem _ hc')) hd s with
      ⟨e, s', heq, he, -⟩
    rw [List.cons_append, heq]
    exact no_match_digits hrule (hmem c List.mem_cons_self) he s'
  · intro a t hfamily ht
    rcases number_head h.digits hd s with ⟨e, s', heq, he, hmark⟩
    rw [heq]
    apply no_match_family hrule ht _ _ he (hmark 'v' (by decide) hv) (hmark 'r' (by decide) hr)
    · intro c hc
      exact h.lower c (by rw [hfamily]; exact List.mem_append_right _ hc)
    · intro hurv
      exact h.not_urv ⟨a, by rw [hfamily, hurv]⟩

/-- All of them do. -/
theorem rules_front {rules : List (List (Char → Bool) × List (Char → Bool))}
    (hrules : ∀ rule ∈ rules, rule ∈ modelIdRules) {family number : Text}
    (h : Front family number) {d : Char} (hd : digit d = true) {s : Text}
    (hv : s.head? ≠ some 'v') (hr : s.head? ≠ some 'r') :
    rules.foldl (fun s rule => hyphenateBy rule s) (family ++ (number ++ d :: s)) =
      family ++ (number ++ rules.foldl (fun s rule => hyphenateBy rule s) (d :: s)) := by
  induction rules generalizing s with
  | nil => rfl
  | cons rule rules ih =>
    have hrule := hrules rule List.mem_cons_self
    have hleft : rule.1 ≠ [] := by
      simp only [modelIdRules, List.mem_cons, List.not_mem_nil, or_false] at hrule
      rcases hrule with rfl | rfl | rfl | rfl | rfl | rfl | rfl <;> exact List.cons_ne_nil _ _
    rcases hyphenate_head rule.2 hleft d s with ⟨s', hs', hhead⟩
    have hmark : ∀ mark, mark ≠ '-' → s.head? ≠ some mark → s'.head? ≠ some mark := by
      intro mark hmark hs
      rcases hhead with heq | heq
      · rw [heq]
        exact hs
      · rw [heq]
        exact fun h => hmark (Option.some.inj h).symm
    rw [List.foldl_cons, List.foldl_cons, hyphenateBy_front hrule h hd hv hr]
    have hstep : hyphenateBy rule (d :: s) = d :: s' := hs'
    rw [hstep]
    exact ih (fun r hr => hrules r (List.mem_cons_of_mem _ hr)) (hmark 'v' (by decide) hv)
      (hmark 'r' (by decide) hr)

/-! ## Documented codes -/

/-- The letter behind the number: `f` for a DVR, `p` for an NVR. -/
inductive Recorder
  | dvr
  | nvr
  deriving DecidableEq, Repr

def Recorder.letter : Recorder → Char
  | .dvr => 'f'
  | .nvr => 'p'

/-- The part behind that letter. -/
inductive Series
  | u
  | h (d : Digit)
  deriving DecidableEq

def Series.text : Series → Text
  | .u => ['u']
  | .h d => ['h', d]

/-- What follows the number. -/
inductive Kind
  | recorder (r : Recorder) (series : Option Series)
  | h (d : Digit)
  deriving DecidableEq

/-- What the kind adds to the first segment. -/
def Kind.first : Kind → Text
  | .recorder r _ => [r.letter]
  | .h _ => []

/-- The segment of the kind. -/
def Kind.series : Kind → List Text
  | .recorder _ none => []
  | .recorder _ (some s) => [s.text]
  | .h d => [(Series.h d).text]

/-- The version, and the revision of it. -/
structure Version where
  version : Digit
  revision : Option Digit
  deriving DecidableEq

def Version.segments (v : Version) : List Text :=
  ['v', v.version.1] :: v.revision.toList.map fun d => ['r', d.1]

/-- A code of the documented shape. -/
structure Code where
  family : Text
  number : Text
  kind : Kind
  version : Option Version
  family_ne_nil : family ≠ []
  number_ne_nil : number ≠ []
  lower : ∀ c ∈ family, lower c = true
  not_urv : ¬ "urv".toList <:+ family
  digits : ∀ c ∈ number, digit c = true

/-- The segments behind the first one. -/
def restSegments (kind : Kind) (version : Option Version) : List Text :=
  kind.series ++ (version.map Version.segments).getD []

/-- The segments. -/
def Code.segments (c : Code) : List Text :=
  (c.family ++ c.number ++ c.kind.first) :: restSegments c.kind c.version

/-- The code as it is typed. -/
def Code.text (c : Code) : Text := c.segments.flatten

@[simp] theorem digit_val (d : Digit) : digit d.1 = true := d.2

@[simp] theorem lower_val (d : Digit) : lower d.1 = false := lower_of_digit d.2

@[simp] theorem fOrP_val (d : Digit) : fOrP d.1 = false := fOrP_of_digit d.2

/-- A digit is no character that a substitution names. -/
theorem val_ne (d : Digit) : d.1 ≠ '-' ∧ d.1 ≠ 'h' ∧ d.1 ≠ 'u' ∧ d.1 ≠ 'v' ∧ d.1 ≠ 'r' :=
  ⟨ne_of_digit d.2 (by decide), ne_of_digit d.2 (by decide), ne_of_digit d.2 (by decide),
    ne_of_digit d.2 (by decide), ne_of_digit d.2 (by decide)⟩

/-- From the last digit of the number on, the substitutions put a hyphen in front of
every segment. -/
theorem rules_rest (d : Digit) (kind : Kind) (version : Option Version) :
    modelIdRules.foldl (fun s rule => hyphenateBy rule s)
        (d.1 :: (kind.first ++ (restSegments kind version).flatten)) =
      d.1 :: (kind.first ++ segments '-' (restSegments kind version)) := by
  have hdigit : digit 'f' = false ∧ digit 'p' = false ∧ digit 'h' = false ∧ digit 'u' = false ∧
      digit 'v' = false ∧ digit 'r' = false ∧ digit '-' = false := by decide
  have hlower : lower 'f' = true ∧ lower 'p' = true ∧ lower 'h' = true ∧ lower 'u' = true ∧
      lower 'v' = true ∧ lower 'r' = true ∧ lower '-' = false := by decide
  -- one run of the seven substitutions for each shape of a code
  rcases kind with ⟨_ | _, _ | _ | e⟩ | e <;> rcases version with _ | ⟨v, _ | w⟩ <;>
    simp [restSegments, Kind.first, Kind.series, Series.text, Version.segments, Recorder.letter,
      modelIdRules, hyphenateBy, hyphenate, matchHere, fOrP, val_ne, hdigit, hlower]

/-- Behind the number comes `f`, `p` or `h`. -/
theorem kind_head (kind : Kind) (version : Option Version) {mark : Char} (hf : mark ≠ 'f')
    (hp : mark ≠ 'p') (hh : mark ≠ 'h') :
    (kind.first ++ (restSegments kind version).flatten).head? ≠ some mark := by
  rcases kind with ⟨_ | _, _⟩ | e
  · exact fun heq => hf (Option.some.inj heq).symm
  · exact fun heq => hp (Option.some.inj heq).symm
  · exact fun heq => hh (Option.some.inj heq).symm

/-- The substitutions put one hyphen between any two segments. -/
theorem rules_code (c : Code) :
    modelIdRules.foldl (fun s rule => hyphenateBy rule s) c.text =
      ['-'].intercalate c.segments := by
  rcases List.eq_nil_or_concat c.number with hnil | ⟨number, d, hnumber⟩
  · exact absurd hnil c.number_ne_nil
  rw [List.concat_eq_append] at hnumber
  have hdigits : ∀ e ∈ number ++ [d], digit e = true := by
    rw [← hnumber]
    exact c.digits
  have hd : digit d = true := hdigits d (by simp)
  have hfront : Front c.family number :=
    { lower := c.lower, not_urv := c.not_urv,
      digits := fun e he => hdigits e (List.mem_append_left _ he) }
  have htext : c.text = c.family ++
      (number ++ d :: (c.kind.first ++ (restSegments c.kind c.version).flatten)) := by
    simp [Code.text, Code.segments, hnumber]
  rw [htext, rules_front (fun _ h => h) hfront hd
    (kind_head c.kind c.version (by decide) (by decide) (by decide))
    (kind_head c.kind c.version (by decide) (by decide) (by decide)), rules_rest ⟨d, hd⟩,
    Code.segments, intercalate_cons]
  simp [hnumber]

/-- `model_id` prints the segments of a documented code in upper case, joined by
hyphens. -/
theorem modelId_code (c : Code) : modelId c.text = ['-'].intercalate (c.segments.map upper) := by
  have hrules := rules_code c
  have hmodelId : modelId c.text = upper (['-'].intercalate c.segments) := by
    rw [← hrules]
    rfl
  rw [hmodelId, Code.segments, List.map_cons, intercalate_cons, intercalate_cons]
  simp [upper, segments, List.map_flatMap, List.flatMap_map]

/-! ## Every text -/

/-- The substitutions only put in hyphens. -/
theorem letters_rules (rules : List (List (Char → Bool) × List (Char → Bool))) (s : Text) :
    letters (rules.foldl (fun s rule => hyphenateBy rule s) s) = letters s := by
  induction rules generalizing s with
  | nil => rfl
  | cons rule rules ih =>
    rw [List.foldl_cons, ih]
    exact letters_hyphenate rule.1 rule.2 s

theorem letters_modelId (s : Text) : letters (modelId s) = upper (letters s) := by
  rw [← letters_rules modelIdRules s, ← letters_upper]
  rfl

theorem letters_eq_self {s : Text} (h : '-' ∉ s) : letters s = s := by
  apply List.filter_eq_self.mpr
  intro c hc
  have hne : c ≠ '-' := fun heq => h (heq ▸ hc)
  simp [hne]

/-- `model_id` only puts in hyphens, so it keeps different codes apart. -/
theorem modelId_letters :
    (∀ s, letters (modelId s) = upper (letters s)) ∧
      ∀ s t, LowerCode s → LowerCode t → s ≠ t → modelId s ≠ modelId t := by
  refine ⟨letters_modelId, ?_⟩
  intro s t hs ht hne heq
  have hupper := congrArg letters heq
  rw [letters_modelId, letters_modelId, letters_eq_self hs.no_hyphen,
    letters_eq_self ht.no_hyphen] at hupper
  exact hne (upper_inj hs.no_upper ht.no_upper hupper)

/-- Two models of one family. -/
theorem modelId_shn :
    letters (modelId "shn808p-h2".toList) = upper (letters "shn808p-h2".toList) ∧
      modelId "shn808ph2".toList ≠ modelId "shn808pu".toList :=
  ⟨modelId_letters.1 _,
    modelId_letters.2 _ _ (by decide) (by decide) (by decide)⟩

end PtsTools.Project
