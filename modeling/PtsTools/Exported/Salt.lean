import PtsTools.Lib.Replace
import PtsTools.Exported.Model

/-!
# What `exported` does with a bad salt entry

A run should end with a message for a bad salt entry, with the message for a wrong
passphrase, or with the report: `Clean`.  `main` checks neither how many tokens the
entry has nor how many bytes the first of them stands for, and behind the message for
an entry that is not there it goes on without tokens.  `clean_iff` says which entries
are good enough.
-/

namespace PtsTools.Exported

open PtsTools.Lib.Replace

/-- A run that returns behind one of the three messages. -/
def Clean (r : Run) : Prop :=
  r.ending = .returned ∧
    ((∃ message, r.events.getLast? = some (.badSalt message)) ∨
      r.events.getLast? = some .wrong ∨ ∃ lines, r.events.getLast? = some (.passed lines))

/-! ## The tokens -/

/-- The first token of a salt entry. -/
def firstToken (salt : Text) : Text := trim ((eraseQuotes salt).takeWhile (· ≠ ','))

theorem splitCompress_eq (s : Text) :
    ∃ rest, splitCompress s = s.takeWhile (· ≠ ',') :: rest ∧ (rest ≠ [] ↔ ',' ∈ s) := by
  have hfirst := head?_splitOnP (· = ',') s
  have hsecond := tail_splitOnP_ne_nil_iff (· = ',') s
  have hcomma : (∃ c ∈ s, decide (c = ',') = true) ↔ ',' ∈ s := by simp
  rw [hcomma] at hsecond
  unfold splitCompress
  cases h : s.splitOnP (· = ',') with
  | nil => exact absurd h (List.splitOnP_ne_nil _ _)
  | cons first rest =>
    rw [h] at hfirst hsecond
    have hhead : first = s.takeWhile (· ≠ ',') := by
      rw [Option.some.inj hfirst]
      congr 1
      funext c
      simp
    dsimp only
    cases hlast : rest.getLast? with
    | none =>
      rw [List.getLast?_eq_none_iff.mp hlast] at hsecond
      exact ⟨[], by rw [hhead], hsecond⟩
    | some last =>
      refine ⟨_, by rw [hhead], ?_⟩
      have hrest : rest ≠ [] := by
        intro hnil
        rw [hnil] at hlast
        exact absurd hlast (by simp)
      exact iff_of_true (by simp) (hsecond.mp hrest)

theorem comma_mem_eraseQuotes (salt : Text) : ',' ∈ eraseQuotes salt ↔ ',' ∈ salt := by
  simp [eraseQuotes]

/-- A salt entry has a first token. -/
theorem tokens_first (salt : Text) : (tokens salt)[0]? = some (firstToken salt) := by
  rcases splitCompress_eq (eraseQuotes salt) with ⟨rest, hsplit, -⟩
  rw [tokens, hsplit]
  rfl

/-- It has a second one if it holds a comma. -/
theorem tokens_second (salt : Text) : (tokens salt)[1]? ≠ none ↔ ',' ∈ salt := by
  rcases splitCompress_eq (eraseQuotes salt) with ⟨rest, hsplit, hrest⟩
  rw [tokens, hsplit, ← comma_mem_eraseQuotes, ← hrest]
  cases rest with
  | nil => simp
  | cons a rest => simp

/-! ## Runs -/

variable (tta : Tta) (ini : Ini)

/-- The key of a passphrase and a salt entry. -/
def keyOf (pp salt : Text) : Bytes :=
  tta.getKey pp ((tta.fromBase64 (firstToken salt)).take tta.sizeofSalt)

/-- The part behind the key ends well if the key is long enough. -/
theorem checkKey_clean_iff (events : List Event) (stamp : Text) (keyv : Bytes) :
    Clean (checkKey tta ini events stamp keyv) ↔
      tta.kniLen ≤ keyv.length ∧ (stamp = tta.toHash64 keyv → tta.sizeofKey ≤ keyv.length) := by
  unfold checkKey
  by_cases hkni : keyv.length < tta.kniLen
  · rw [if_pos hkni]
    apply iff_of_false
    · intro h
      simp [Clean] at h
    · intro h
      omega
  · rw [if_neg hkni]
    by_cases hstamp : stamp = tta.toHash64 keyv
    · rw [if_pos hstamp]
      by_cases hkey : keyv.length < tta.sizeofKey
      · rw [if_pos hkey]
        apply iff_of_false
        · intro h
          exact absurd h.1 (by simp)
        · intro h
          have hlong := h.2 hstamp
          omega
      · rw [if_neg hkey]
        apply iff_of_true
        · exact ⟨rfl, Or.inr (Or.inr ⟨_, List.getLast?_concat⟩)⟩
        · exact ⟨Nat.le_of_not_lt hkni, fun _ => Nat.le_of_not_lt hkey⟩
    · rw [if_neg hstamp]
      apply iff_of_true
      · exact ⟨rfl, Or.inr (Or.inl List.getLast?_concat)⟩
      · exact ⟨Nat.le_of_not_lt hkni, fun h => absurd h hstamp⟩

/-- A salt entry from which `main` can go on. -/
structure Sound (pp salt : Text) : Prop where
  comma : ',' ∈ salt
  decoded : tta.sizeofSalt ≤ (tta.fromBase64 (firstToken salt)).length
  key : tta.kniLen ≤ (keyOf tta pp salt).length
  copied : (tokens salt)[1]? = some (tta.toHash64 (keyOf tta pp salt)) →
    tta.sizeofKey ≤ (keyOf tta pp salt).length

/-- Without a salt entry there is no first token to take. -/
theorem main_none (h : ini "General.salt".toList = none) (passphrase : Option Text) :
    (main tta ini passphrase).ending = .outOfRange := by
  unfold main readSalt
  rw [h]
  rfl

/-- With a salt entry, the run ends well exactly if it is sound. -/
theorem main_some {salt : Text} (h : ini "General.salt".toList = some salt)
    (passphrase : Option Text) :
    Clean (main tta ini passphrase) ↔ Sound tta (passphrase.getD "11111".toList) salt := by
  unfold main readSalt
  rw [h]
  dsimp only
  rw [tokens_first]
  dsimp only
  by_cases hshort : (tta.fromBase64 (firstToken salt)).length < tta.sizeofSalt
  · rw [if_pos hshort]
    apply iff_of_false
    · intro h
      exact absurd h.1 (by simp)
    · intro hsound
      exact absurd hshort (Nat.not_lt.mpr hsound.decoded)
  · rw [if_neg hshort]
    have hcomma := tokens_second salt
    cases hstamp : (tokens salt)[1]? with
    | none =>
      apply iff_of_false
      · intro h
        exact absurd h.1 (by simp)
      · intro hsound
        exact hcomma.mpr hsound.comma hstamp
    | some stamp =>
      dsimp only
      rw [checkKey_clean_iff]
      constructor
      · intro h
        refine ⟨hcomma.mp (by rw [hstamp]; simp), Nat.le_of_not_lt hshort, h.1, ?_⟩
        intro heq
        rw [hstamp] at heq
        exact h.2 (Option.some.inj heq)
      · intro hsound
        refine ⟨hsound.key, ?_⟩
        intro heq
        apply hsound.copied
        rw [hstamp, heq]
        rfl

/-- `main` ends well exactly if there is a salt entry with a comma in it, if what is
in front of the comma stands for enough bytes, and if the key is long enough. -/
theorem clean_iff (passphrase : Option Text) :
    Clean (main tta ini passphrase) ↔
      ∃ salt, ini "General.salt".toList = some salt ∧
        Sound tta (passphrase.getD "11111".toList) salt := by
  cases h : ini "General.salt".toList with
  | none =>
    apply iff_of_false
    · intro hclean
      exact absurd (hclean.1.symm.trans (main_none tta ini h passphrase)) (by simp)
    · intro hsound
      rcases hsound with ⟨salt, hsalt, -⟩
      exact absurd hsalt (by simp)
  | some salt =>
    rw [main_some tta ini h]
    simp

/-- Functions of `tta` that decode nothing and make keys of zeros. -/
def zeroTta : Tta where
  fromBase64 _ := []
  toBase64 _ := []
  getKey _ _ := List.replicate 48 0
  toHash64 _ := []
  fromAes64 _ _ := []
  toAes64 _ _ := []
  sizeofSalt := 8
  sizeofKey := 32
  keyLen := 32
  kniLen := 48

/-- Without a salt entry, behind the message for it, an exception ends the program. -/
theorem not_clean_missing :
    main zeroTta (fun _ => none) none =
        { events := [.badSalt "No such node (General.salt)".toList], ending := .outOfRange } ∧
      ¬ Clean (main zeroTta (fun _ => none) none) := by
  have hrun : main zeroTta (fun _ => none) none =
      { events := [.badSalt "No such node (General.salt)".toList], ending := .outOfRange } := by
    decide
  refine ⟨hrun, ?_⟩
  intro h
  rw [hrun] at h
  exact absurd h.1 (by decide)

end PtsTools.Exported
