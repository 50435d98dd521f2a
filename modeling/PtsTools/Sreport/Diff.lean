import Mathlib.Data.List.DropRight
import PtsTools.Sreport.Model

/-!
# Diffs and their lines

A `FileDiff` is one file of the output of `svn diff`: its header lines and its
hunks.  The lines of a body start with their mark and hold any text.

The rest of the module says what `sscanf` makes of each kind of line.  A line
that starts with neither `+` nor `@` is nothing.  A line that starts with `+++`
is a path when a visible byte follows, and the path is the first word of it:
`headerPath`.  That is so for the header of a file and for any other line, and a
path of 1024 bytes or more is what overruns the buffer.  A hunk header with both
lengths gives its two numbers.
-/

namespace PtsTools.Sreport

open PtsTools.Lib.Scanf

/-! ## Diffs -/

/-- A line of a diff. -/
structure IsLine (l : Text) : Prop where
  noLineFeed : 10 ∉ l
  short : l.length < 1000

/-- The header of a hunk, with both lengths. -/
def hunkHeader (oldStart oldLength newStart newLength : Nat) (tail : Text) : Text :=
  64 :: 64 :: 32 :: 45 :: (decimal oldStart ++ 44 :: (decimal oldLength ++
    32 :: 43 :: (decimal newStart ++ 44 :: (decimal newLength ++ 32 :: 64 :: 64 :: tail))))

/-- A hunk: `@@ -oldStart,oldLength +newStart,newLength @@`, some text behind it,
and the lines of the body with their marks. -/
structure Hunk where
  oldStart : Nat
  oldLength : Nat
  newStart : Nat
  newLength : Nat
  tail : Text
  body : List Text
  header_isLine : IsLine (hunkHeader oldStart oldLength newStart newLength tail)
  body_isLine : ∀ l ∈ body, IsLine l
  body_mark : ∀ l ∈ body, ∃ mark ∈ bytes " +-\\", ∃ text, l = mark :: text

/-- The header line of a hunk. -/
def Hunk.header (h : Hunk) : Text :=
  hunkHeader h.oldStart h.oldLength h.newStart h.newLength h.tail

/-- A file of a diff: the lines `Index:` and `====` in front, the two header lines
with a tab and some text behind the path, and the hunks. -/
structure FileDiff where
  preamble : List Text
  path : Text
  oldRest : Text
  newRest : Text
  hunks : List Hunk
  path_ne_nil : path ≠ []
  preamble_isLine : ∀ l ∈ preamble, IsLine l
  preamble_mark : ∀ l ∈ preamble, ∃ mark ∈ bytes "I=", ∃ text, l = mark :: text
  old_isLine : IsLine (bytes "--- " ++ path ++ 9 :: oldRest)
  new_isLine : IsLine (bytes "+++ " ++ path ++ 9 :: newRest)

/-- The lines of a hunk. -/
def Hunk.render (h : Hunk) : List Text := h.header :: h.body

/-- The header line with the old name of a file. -/
def FileDiff.oldHeader (f : FileDiff) : Text := bytes "--- " ++ f.path ++ 9 :: f.oldRest

/-- The header line with the new name of a file. -/
def FileDiff.newHeader (f : FileDiff) : Text := bytes "+++ " ++ f.path ++ 9 :: f.newRest

/-- The lines of a file. -/
def FileDiff.render (f : FileDiff) : List Text :=
  f.preamble ++ f.oldHeader :: f.newHeader :: f.hunks.flatMap Hunk.render

/-! ## Lines that are nothing -/

/-- A format that starts with another character matches nothing. -/
theorem sscanf_lit_ne {b c : UInt8} (hbc : c ≠ b) (hc : c ≠ 0) {fmt : String}
    {ds : List Directive} (hfmt : format fmt.toList = .lit b :: ds) (s : Text) :
    sscanf (c :: s) fmt = (0, []) := by
  have hcstring : cstring (c :: s) = c :: cstring s := by simp [cstring, hc]
  unfold sscanf
  rw [hcstring, hfmt, scan, if_neg hbc]
  rfl

theorem format_plus : format "+++ %s".toList = [.lit 43, .lit 43, .lit 43, .space, .str] := by
  decide

theorem format_hunk : format "@@ %d,%*d %d,%*d @@".toList =
    [.lit 64, .lit 64, .space, .int true, .lit 44, .int false, .space, .int true, .lit 44,
      .int false, .space, .lit 64, .lit 64] := by
  decide

/-- A line that starts with neither `+` nor `@` prints nothing. -/
theorem classify_other {c : UInt8} (hplus : c ≠ 43) (hat : c ≠ 64) (hzero : c ≠ 0) (s : Text)
    (locals : Locals) : classify (c :: s) locals = [] := by
  unfold classify
  rw [sscanf_lit_ne hplus hzero format_plus, sscanf_lit_ne hat hzero format_hunk]
  rfl

/-! ## Lines with a path -/

/-- The first word of a C string, up to white space. -/
def firstWord (s : Text) : Option Text :=
  match (cstring s).dropWhile isspace with
  | [] => none
  | t => some (t.takeWhile (! isspace ·))

/-- The path that the program reads from a line: the first word behind `+++`. -/
def headerPath : Text → Option Text
  | 43 :: 43 :: 43 :: s => firstWord s
  | _ => none

/-- Without a value the answer is not positive. -/
theorem sscanf_le_zero {s : Text} {fmt : String}
    (h : (scan false (format fmt.toList) (cstring s)).1 = []) : (sscanf s fmt).1 ≤ 0 := by
  unfold sscanf
  simp only [h]
  split_ifs <;> simp

theorem cstring_cons {c : UInt8} (hc : c ≠ 0) (s : Text) : cstring (c :: s) = c :: cstring s := by
  simp [cstring, hc]

/-- A character that differs from the format ends the conversions. -/
theorem scan_lit_ne {b : UInt8} {s : Text} (hs : s.head? ≠ some b) (done : Bool)
    (ds : List Directive) : (scan done (.lit b :: ds) (cstring s)).1 = [] := by
  cases s with
  | nil => rfl
  | cons c s =>
    by_cases hc : c = 0
    · subst hc
      rfl
    · have hcb : c ≠ b := fun h => hs (by rw [h]; rfl)
      rw [cstring_cons hc, scan, if_neg hcb]

theorem scan_lit (b : UInt8) (s : Text) (done : Bool) (ds : List Directive) :
    scan done (.lit b :: ds) (b :: s) = scan done ds s := by
  rw [scan, if_pos rfl]

theorem scan_lit_self {b : UInt8} (hb : b ≠ 0) (s : Text) (done : Bool) (ds : List Directive) :
    scan done (.lit b :: ds) (cstring (b :: s)) = scan done ds (cstring s) := by
  rw [cstring_cons hb, scan_lit]

/-- The pattern for paths on a line that starts with `+++`. -/
theorem sscanf_plus_eq (s : Text) :
    sscanf (43 :: 43 :: 43 :: s) "+++ %s" =
      match (cstring s).dropWhile isspace with
      | [] => (-1, [])
      | t => (1, [.str (t.takeWhile (! isspace ·))]) := by
  have hscan : scan false [.lit 43, .lit 43, .lit 43, .space, .str] (cstring (43 :: 43 :: 43 :: s))
      = scan false [.str] ((cstring s).dropWhile isspace) := by
    rw [scan_lit_self (by decide), scan_lit_self (by decide), scan_lit_self (by decide), scan]
  have hidem : ((cstring s).dropWhile isspace).dropWhile isspace = (cstring s).dropWhile isspace :=
    List.dropWhile_idempotent _ _
  unfold sscanf
  rw [format_plus, hscan, scan, hidem]
  cases (cstring s).dropWhile isspace with
  | nil => rfl
  | cons c t => rfl

/-- The pattern for paths on any other line. -/
theorem scan_plus_eq_nil {l : Text} (h : ¬ [43, 43, 43] <+: l) :
    (scan false (format "+++ %s".toList) (cstring l)).1 = [] := by
  rw [format_plus]
  by_cases h1 : l.head? = some 43
  · obtain ⟨s1, rfl⟩ := List.head?_eq_some_iff.mp h1
    rw [scan_lit_self (by decide)]
    by_cases h2 : s1.head? = some 43
    · obtain ⟨s2, rfl⟩ := List.head?_eq_some_iff.mp h2
      rw [scan_lit_self (by decide)]
      refine scan_lit_ne (fun h3 => h ?_) _ _
      obtain ⟨s3, rfl⟩ := List.head?_eq_some_iff.mp h3
      exact ⟨s3, rfl⟩
    · exact scan_lit_ne h2 _ _
  · exact scan_lit_ne h1 _ _

theorem headerPath_eq_none {l : Text} (h : ¬ [43, 43, 43] <+: l) : headerPath l = none := by
  unfold headerPath
  split
  · exact absurd ⟨_, rfl⟩ h
  · rfl

/-- A line that starts with `+` prints its path, or nothing. -/
theorem classify_plus (s : Text) (locals : Locals) :
    classify (43 :: s) locals = ((headerPath (43 :: s)).map Output.path).toList := by
  have hhunk : sscanf (43 :: s) "@@ %d,%*d %d,%*d @@" = (0, []) :=
    sscanf_lit_ne (by decide) (by decide) format_hunk s
  have hnone : (sscanf (43 :: s) "+++ %s").1 ≤ 0 → classify (43 :: s) locals = [] := by
    intro hle
    unfold classify
    rw [hhunk]
    simp only [Int.not_lt.mpr hle, if_false, lt_self_iff_false]
  by_cases h : [43, 43, 43] <+: 43 :: s
  · obtain ⟨t, ht⟩ := h
    obtain rfl : 43 :: 43 :: t = s := (List.cons.inj ht).2
    have heq := sscanf_plus_eq t
    show _ = ((firstWord t).map Output.path).toList
    unfold firstWord
    cases hw : (cstring t).dropWhile isspace with
    | nil =>
      rw [hw] at heq
      rw [hnone (by rw [heq]; decide)]
      rfl
    | cons c u =>
      rw [hw] at heq
      unfold classify
      rw [heq]
      rfl
  · rw [hnone (sscanf_le_zero (scan_plus_eq_nil h)), headerPath_eq_none h]
    rfl

theorem mem_cstring {s : Text} {b : UInt8} (h : b ∈ cstring s) : b ≠ 0 := by
  unfold cstring at h
  simpa using List.mem_takeWhile_imp h

/-- A word that is read has no white space and no zero byte in it. -/
theorem firstWord_word {s w : Text} (h : firstWord s = some w) :
    w ≠ [] ∧ ∀ b ∈ w, isspace b = false ∧ b ≠ 0 := by
  unfold firstWord at h
  cases hd : (cstring s).dropWhile isspace with
  | nil =>
    rw [hd] at h
    exact absurd h (by simp)
  | cons c t =>
    rw [hd] at h
    obtain rfl : (c :: t).takeWhile (! isspace ·) = w := Option.some.inj h
    have hc : isspace c = false := by
      have hhead := List.head_dropWhile_not isspace (l := cstring s) (by rw [hd]; simp)
      simpa [hd] using hhead
    refine ⟨by simp [hc], fun b hb => ⟨by simpa using List.mem_takeWhile_imp hb, ?_⟩⟩
    have hmem : b ∈ c :: t := (List.takeWhile_prefix _).subset hb
    rw [← hd] at hmem
    exact mem_cstring ((List.dropWhile_suffix _).subset hmem)

/-- A path that is read is a word. -/
theorem headerPath_word {l fn : Text} (h : headerPath l = some fn) :
    fn ≠ [] ∧ ∀ b ∈ fn, isspace b = false ∧ b ≠ 0 := by
  unfold headerPath at h
  split at h
  · exact firstWord_word h
  · exact absurd h (by simp)

theorem cstring_append {s : Text} (hs : ∀ b ∈ s, b ≠ 0) (t : Text) :
    cstring (s ++ t) = s ++ cstring t := by
  unfold cstring
  exact List.takeWhile_append_of_pos fun b hb => by simpa using hs b hb

/-- A word behind a blank, with a tab behind it, is read whole. -/
theorem firstWord_blank {w : Text} (hne : w ≠ [])
    (hword : ∀ b ∈ w, isspace b = false ∧ b ≠ 0) (rest : Text) :
    firstWord (32 :: (w ++ 9 :: rest)) = some w := by
  obtain ⟨c, u, rfl⟩ := List.exists_cons_of_ne_nil hne
  have hc : isspace c = false := (hword c List.mem_cons_self).1
  have hcstring : cstring (32 :: (c :: u ++ 9 :: rest)) = 32 :: (c :: u ++ 9 :: cstring rest) := by
    rw [cstring_cons (by decide), cstring_append fun b hb => (hword b hb).2,
      cstring_cons (by decide)]
  have hdrop : (32 :: (c :: u ++ 9 :: cstring rest)).dropWhile isspace
      = c :: u ++ 9 :: cstring rest := by
    rw [List.dropWhile_cons_of_pos (by decide), List.cons_append,
      List.dropWhile_cons_of_neg (by simp [hc])]
  have htake : (c :: u ++ 9 :: cstring rest).takeWhile (! isspace ·) = c :: u := by
    rw [List.takeWhile_append_of_pos fun b hb => by simp [(hword b hb).1],
      List.takeWhile_cons_of_neg (by decide), List.append_nil]
  unfold firstWord
  rw [hcstring, hdrop]
  show some ((c :: u ++ 9 :: cstring rest).takeWhile (! isspace ·)) = _
  rw [htake]

/-- The header line of a file whose path is one word gives that path. -/
theorem headerPath_header {path : Text} (hne : path ≠ [])
    (hword : ∀ b ∈ path, isspace b = false ∧ b ≠ 0) (rest : Text) :
    headerPath (bytes "+++ " ++ path ++ 9 :: rest) = some path := by
  have hbytes : bytes "+++ " = [43, 43, 43, 32] := by decide
  rw [hbytes, List.append_assoc]
  exact firstWord_blank hne hword rest

/-! ## Paths that fit -/

/-- The path that the program reads from a line, if any, fits into `fn` with its zero
byte. -/
def PathFits (l : Text) : Prop := ∀ fn, headerPath l = some fn → fn.length < 1024

/-- The values of the pattern for paths. -/
theorem sscanf_plus_args (l : Text) :
    (sscanf l "+++ %s").2 = ((headerPath l).map Arg.str).toList := by
  by_cases h : [43, 43, 43] <+: l
  · obtain ⟨s, rfl⟩ := h
    show (sscanf (43 :: 43 :: 43 :: s) "+++ %s").2 = ((firstWord s).map Arg.str).toList
    rw [sscanf_plus_eq]
    unfold firstWord
    cases (cstring s).dropWhile isspace <;> rfl
  · rw [headerPath_eq_none h]
    exact scan_plus_eq_nil h

/-- A line overruns `fn` exactly if it has a path that does not fit. -/
theorem overruns_eq_false_iff (l : Text) : overruns l = false ↔ PathFits l := by
  unfold overruns PathFits
  rw [sscanf_plus_args]
  cases headerPath l with
  | none => simp
  | some fn =>
    have hsize : 1024 < (Arg.str fn).size ↔ ¬ fn.length < 1024 := by
      have hbytes : (Arg.str fn).size = fn.length + 1 := rfl
      omega
    simp [hsize]

/-- A path is no longer than its line. -/
theorem headerPath_length_le {l fn : Text} (h : headerPath l = some fn) :
    fn.length ≤ l.length := by
  unfold headerPath at h
  split at h
  case h_2 => exact absurd h (by simp)
  case h_1 s =>
    unfold firstWord at h
    split at h
    case h_1 => exact absurd h (by simp)
    case h_2 =>
      obtain rfl := Option.some.inj h
      have hword : List.Sublist (((cstring s).dropWhile isspace).takeWhile (! isspace ·)) s :=
        (List.takeWhile_sublist _).trans
          ((List.dropWhile_sublist _).trans (List.takeWhile_sublist _))
      have hle := hword.length_le
      simp only [List.length_cons]
      omega

/-- The path of a short line fits. -/
theorem pathFits_of_short {l : Text} (hl : l.length < 1000) : PathFits l := by
  intro fn hfn
  have hle := headerPath_length_le hfn
  omega

/-! ## Hunk headers -/

theorem ne_zero_of_mem_decimal {n : Nat} {b : UInt8} (h : b ∈ decimal n) : b ≠ 0 := by
  intro heq
  subst heq
  exact absurd (isdigit_of_mem_decimal h) (by decide)

/-- There is no zero byte in a hunk header up to its tail. -/
theorem cstring_hunkHeader (a n b m : Nat) (tail : Text) :
    cstring (hunkHeader a n b m tail) = hunkHeader a n b m (cstring tail) := by
  have hdecimal : ∀ (k : Nat) (s : Text), cstring (decimal k ++ s) = decimal k ++ cstring s :=
    fun k s => cstring_append (fun _ => ne_zero_of_mem_decimal) s
  unfold hunkHeader
  rw [cstring_cons (by decide), cstring_cons (by decide), cstring_cons (by decide),
    cstring_cons (by decide), hdecimal, cstring_cons (by decide), hdecimal,
    cstring_cons (by decide), cstring_cons (by decide), hdecimal, cstring_cons (by decide),
    hdecimal, cstring_cons (by decide), cstring_cons (by decide), cstring_cons (by decide)]

/-- A conversion of a number, in terms of the conversions behind it. -/
theorem scan_int {s : Text} {z : Int} {rest : Text}
    (hscan : scanInt (s.dropWhile isspace) = some (z, rest)) (done assign : Bool)
    (ds : List Directive) :
    scan done (.int assign :: ds) s =
      (if assign then .int (toInt z) :: (scan true ds rest).1 else (scan true ds rest).1,
        (scan true ds rest).2) := by
  rw [scan, hscan]

/-- A decimal number starts with no white space. -/
theorem dropWhile_isspace_decimal (n : Nat) (s : Text) :
    (decimal n ++ s).dropWhile isspace = decimal n ++ s := by
  obtain ⟨d, ds, hd⟩ := List.exists_cons_of_ne_nil (decimal_ne_nil n)
  have hdigit : isdigit d = true := isdigit_of_mem_decimal (n := n) (by rw [hd]; simp)
  have hspace : isspace d = false := by
    unfold isdigit at hdigit
    unfold isspace
    simp only [Bool.and_eq_true, decide_eq_true_eq, UInt8.le_iff_toNat_le] at hdigit
    simp only [Bool.or_eq_false_iff, Bool.and_eq_false_iff, decide_eq_false_iff_not,
      UInt8.le_iff_toNat_le, ← UInt8.toNat_inj]
    have h32 : (32 : UInt8).toNat = 32 := rfl
    have h13 : (13 : UInt8).toNat = 13 := rfl
    have h48 : (48 : UInt8).toNat = 48 := rfl
    omega
  rw [hd, List.cons_append, List.dropWhile_cons_of_neg (by simp [hspace])]

/-- The length of a range is read and dropped. -/
theorem scan_length (n : Nat) (s : Text) (ds : List Directive) :
    scan true (.lit 44 :: .int false :: .space :: ds) (44 :: (decimal n ++ 32 :: s)) =
      scan true (.space :: ds) (32 :: s) := by
  have hscan := scanInt_unsigned n (c := 32) (by decide) s
  rw [← dropWhile_isspace_decimal] at hscan
  rw [scan_lit, scan_int hscan]
  rfl

/-- The start of a range is read with its sign. -/
theorem scan_start {g : UInt8} {sign : Int} (hg : g = 45 ∧ sign = -1 ∨ g = 43 ∧ sign = 1)
    (n : Nat) {c : UInt8} (hc : isdigit c = false) (s : Text) (done : Bool)
    (ds : List Directive) :
    scan done (.space :: .int true :: ds) (32 :: g :: (decimal n ++ c :: s)) =
      (.int (toInt (sign * n)) :: (scan true ds (c :: s)).1, (scan true ds (c :: s)).2) := by
  have hspace : isspace g = false := by
    rcases hg with ⟨rfl, -⟩ | ⟨rfl, -⟩ <;> decide
  have hdrop : (g :: (decimal n ++ c :: s)).dropWhile isspace = g :: (decimal n ++ c :: s) :=
    List.dropWhile_cons_of_neg (by simp [hspace])
  have hscan := scanInt_signed hg n hc s
  rw [← hdrop] at hscan
  rw [scan, List.dropWhile_cons_of_pos (by decide), hdrop, scan_int hscan]
  rfl

/-- The pattern ends behind the second `@@`. -/
theorem scan_last (s : Text) :
    scan true [.space, .lit 64, .lit 64] (32 :: 64 :: 64 :: s) = ([], false) := by
  rw [scan, List.dropWhile_cons_of_pos (by decide), List.dropWhile_cons_of_neg (by decide),
    scan_lit, scan_lit, scan]

/-- The numbers that the program reads from a hunk header. -/
theorem sscanf_hunk (a n b m : Nat) (tail : Text) :
    sscanf (hunkHeader a n b m tail) "@@ %d,%*d %d,%*d @@" =
      (2, [.int (toInt (-a)), .int (toInt b)]) := by
  have hscan : scan false (format "@@ %d,%*d %d,%*d @@".toList)
      (cstring (hunkHeader a n b m tail)) = ([.int (toInt (-a)), .int (toInt b)], false) := by
    rw [format_hunk, cstring_hunkHeader]
    unfold hunkHeader
    rw [scan_lit, scan_lit, scan_start (.inl ⟨rfl, rfl⟩) a (by decide), scan_length,
      scan_start (.inr ⟨rfl, rfl⟩) b (by decide), scan_length, scan_last, neg_one_mul, one_mul]
  unfold sscanf
  rw [hscan]
  rfl

/-- A hunk header prints the items of a hunk, whatever the locals hold. -/
theorem classify_hunk (a n b m : Nat) (tail : Text) (locals : Locals) :
    classify (hunkHeader a n b m tail) locals = hunk (toInt (-a)) (toInt b) := by
  have hplus : sscanf (hunkHeader a n b m tail) "+++ %s" = (0, []) :=
    sscanf_lit_ne (by decide) (by decide) format_plus _
  unfold classify
  rw [hplus, sscanf_hunk]
  rfl

end PtsTools.Sreport
