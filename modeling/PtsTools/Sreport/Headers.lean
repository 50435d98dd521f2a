import PtsTools.Sreport.Faithful

/-!
# The four forms of a hunk header

A range of a hunk header is its start and its length, and a length of one is left
out.  So there are four forms of a header, and one pattern for all of them.

If the new length is left out, the pattern has both starts before it fails.  If the
old length is left out, it fails behind the first start, with one value assigned,
and the program goes on with a `right` that it never wrote: `sscanf_header`.
-/

namespace PtsTools.Sreport

open PtsTools.Lib.Scanf

/-! ## Headers -/

/-- A range of a hunk header. -/
def range (start length : Nat) : Text :=
  decimal start ++ if length = 1 then [] else 44 :: decimal length

/-- A hunk header with some text behind it. -/
def header (oldStart oldLength newStart newLength : Nat) (tail : Text) : Text :=
  64 :: 64 :: 32 :: 45 :: (range oldStart oldLength ++
    32 :: 43 :: (range newStart newLength ++ 32 :: 64 :: 64 :: tail))

theorem ne_zero_of_mem_range {start length : Nat} {b : UInt8} (h : b ∈ range start length) :
    b ≠ 0 := by
  unfold range at h
  rcases List.mem_append.mp h with h | h
  · exact ne_zero_of_mem_decimal h
  · split_ifs at h with hone
    · exact absurd h (List.not_mem_nil)
    · rcases List.mem_cons.mp h with h | h
      · rw [h]
        decide
      · exact ne_zero_of_mem_decimal h

/-- There is no zero byte in a header up to its tail. -/
theorem cstring_header (a n b m : Nat) (tail : Text) :
    cstring (header a n b m tail) = header a n b m (cstring tail) := by
  have hrange : ∀ (start length : Nat) (s : Text),
      cstring (range start length ++ s) = range start length ++ cstring s :=
    fun _ _ s => cstring_append (fun _ => ne_zero_of_mem_range) s
  unfold header
  rw [cstring_cons (by decide), cstring_cons (by decide), cstring_cons (by decide),
    cstring_cons (by decide), hrange, cstring_cons (by decide), cstring_cons (by decide), hrange,
    cstring_cons (by decide), cstring_cons (by decide), cstring_cons (by decide)]

/-! ## The pattern on a header -/

/-- A range without its length: the pattern wants a comma and ends. -/
theorem scan_one {g : UInt8} {sign : Int} (hg : g = 45 ∧ sign = -1 ∨ g = 43 ∧ sign = 1)
    (start : Nat) (s : Text) (done : Bool) (ds : List Directive) :
    scan done (.space :: .int true :: .lit 44 :: ds) (32 :: g :: (range start 1 ++ 32 :: s)) =
      ([.int (toInt (sign * start))], false) := by
  have hrange : range start 1 = decimal start := List.append_nil _
  rw [hrange, scan_start hg start (by decide), scan, if_neg (by decide)]

/-- A range with its length. -/
theorem scan_range {g : UInt8} {sign : Int} (hg : g = 45 ∧ sign = -1 ∨ g = 43 ∧ sign = 1)
    (start : Nat) {length : Nat} (hlength : length ≠ 1) (s : Text) (done : Bool)
    (ds : List Directive) :
    scan done (.space :: .int true :: .lit 44 :: .int false :: .space :: ds)
        (32 :: g :: (range start length ++ 32 :: s)) =
      (.int (toInt (sign * start)) :: (scan true (.space :: ds) (32 :: s)).1,
        (scan true (.space :: ds) (32 :: s)).2) := by
  have hrange : range start length ++ 32 :: s
      = decimal start ++ 44 :: (decimal length ++ 32 :: s) := by
    unfold range
    rw [if_neg hlength, List.append_assoc]
    rfl
  rw [hrange, scan_start hg start (by decide), scan_length]

/-- The values that the pattern assigns on a header: both starts only if the old
length is there. -/
theorem sscanf_header (a n b m : Nat) (tail : Text) :
    sscanf (header a n b m tail) "@@ %d,%*d %d,%*d @@" =
      if n = 1 then (1, [.int (toInt (-a))]) else (2, [.int (toInt (-a)), .int (toInt b)]) := by
  have hscan : scan false (format "@@ %d,%*d %d,%*d @@".toList) (cstring (header a n b m tail)) =
      (if n = 1 then [.int (toInt (-a))] else [.int (toInt (-a)), .int (toInt b)], false) := by
    rw [format_hunk, cstring_header]
    unfold header
    rw [scan_lit, scan_lit]
    by_cases hn : n = 1
    · subst hn
      rw [scan_one (.inl ⟨rfl, rfl⟩), neg_one_mul]
      rfl
    · rw [scan_range (.inl ⟨rfl, rfl⟩) a hn, neg_one_mul, if_neg hn]
      by_cases hm : m = 1
      · subst hm
        rw [scan_one (.inr ⟨rfl, rfl⟩), one_mul]
      · rw [scan_range (.inr ⟨rfl, rfl⟩) b hm, scan_last, one_mul]
  unfold sscanf
  rw [hscan]
  split_ifs <;> rfl

/-- The values behind the two assignments of the pattern on a header. -/
theorem assigned_header (a n b m : Nat) (tail : Text) (locals : Locals) :
    assigned (sscanf (header a n b m tail) "@@ %d,%*d %d,%*d @@").2 0 locals.left = toInt (-a) ∧
      assigned (sscanf (header a n b m tail) "@@ %d,%*d %d,%*d @@").2 1 locals.right =
        if n = 1 then locals.right else toInt b := by
  rw [sscanf_header]
  split_ifs <;> exact ⟨rfl, rfl⟩

/-- What the program prints for a header. -/
theorem classify_header (a n b m : Nat) (tail : Text) (locals : Locals) :
    classify (header a n b m tail) locals =
      hunk (toInt (-a)) (if n = 1 then locals.right else toInt b) := by
  have hplus : sscanf (header a n b m tail) "+++ %s" = (0, []) :=
    sscanf_lit_ne (by decide) (by decide) format_plus _
  have hassigned := assigned_header a n b m tail locals
  have hpos : 0 < (sscanf (header a n b m tail) "@@ %d,%*d %d,%*d @@").1 := by
    rw [sscanf_header]
    split_ifs <;> simp
  unfold classify
  rw [hplus]
  simp only [lt_self_iff_false, if_false, if_pos hpos, hassigned]

/-! ## A header in the input -/

/-- A stream that has failed gives empty lines only. -/
theorem tested_failed {fuel : Nat} {rest l : Text} (h : l ∈ tested fuel ⟨rest, false, true⟩) :
    l = [] := by
  induction fuel with
  | zero => exact absurd h List.not_mem_nil
  | succ fuel ih =>
    rcases List.mem_cons.mp h with h | h
    · exact h
    · exact ih h

/-- A line in the input is tested, at its place, exactly if it fits into the buffer
and so do all the lines before it and their paths. -/
theorem tested_at {ls : List Text} (hls : ∀ l ∈ ls, 10 ∉ l) {l : Text} (hl : 10 ∉ l) (hne : l ≠ [])
    (rest : Text) :
    (∃ fuel, (tested fuel (.open (unlines ls ++ (l ++ 10 :: rest))))[ls.length]? = some l) ↔
      (∀ l' ∈ ls ++ [l], l'.length < 10239) ∧ ∀ l' ∈ ls, PathFits l' := by
  induction ls with
  | nil =>
    show (∃ fuel, (tested fuel (.open (l ++ 10 :: rest)))[0]? = some l) ↔ _
    by_cases hfit : l.length < 10239
    · refine iff_of_true ⟨1, ?_⟩ (by simpa using hfit)
      by_cases hpath : PathFits l
      · rw [(round_line hl hfit hpath rest 0).2]
        rfl
      · rw [(round_overrun hl hfit hpath rest 0).2]
        rfl
    · refine iff_of_false ?_ (fun hfits => hfit (hfits.1 l (by simp)))
      intro h
      rcases h with ⟨fuel, h⟩
      cases fuel with
      | zero => exact absurd h (by simp [tested])
      | succ fuel =>
        -- the line that is tested is only the front of this one
        rw [(round_long hl hfit _ fuel).2] at h
        have hcut : l.take 10238 = l := by
          split at h <;> exact Option.some.inj h
        have hlen := congrArg List.length hcut
        rw [List.length_take] at hlen
        omega
  | cons l' ls ih =>
    have hl' : 10 ∉ l' := hls l' List.mem_cons_self
    have ih' := ih fun k hk => hls k (List.mem_cons_of_mem l' hk)
    rw [unlines_cons, List.cons_append, List.forall_mem_cons, List.forall_mem_cons,
      and_and_and_comm, ← ih']
    constructor
    · intro h
      rcases h with ⟨fuel, h⟩
      cases fuel with
      | zero => exact absurd h (by simp [tested])
      | succ fuel =>
        by_cases hfit : l'.length < 10239
        · by_cases hpath : PathFits l'
          · rw [(round_line hl' hfit hpath _ fuel).2] at h
            exact ⟨⟨hfit, hpath⟩, fuel, h⟩
          · rw [(round_overrun hl' hfit hpath _ fuel).2] at h
            exact absurd h (by simp)
        · rw [(round_long hl' hfit _ fuel).2] at h
          split at h
          · exact absurd h (by simp)
          · exact absurd (tested_failed (List.mem_of_getElem? h)) hne
    · intro h
      rcases h with ⟨⟨hfit, hpath⟩, fuel, h⟩
      refine ⟨fuel + 1, ?_⟩
      rw [(round_line hl' hfit hpath _ fuel).2]
      exact h

/-! ## The numbers of a header -/

/-- A call that prints line numbers. -/
def Output.isNumbers : Output → Bool
  | .line _ => true
  | .lines _ _ => true
  | _ => false

/-- The printed numbers. -/
def numbers (os : List Output) : List Output := os.filter Output.isNumbers

/-- A hunk prints numbers once. -/
theorem numbers_hunk (left right : Int32) :
    numbers (hunk left right) = (hunk left right).getLast?.toList := by
  unfold hunk numbers
  dsimp only
  split_ifs <;> rfl

/-- A header, with other lines before it and some text behind it, is read right: it
is one of the lines that are tested, and whatever the locals hold, `left` and
`right` are its two starts and the printed numbers are three more. -/
structure ReadRight (before : List Text) (a n b m : Nat) (tail rest : Text) : Prop where
  tested : ∃ fuel, (tested fuel (.open (unlines before ++ (header a n b m tail ++ 10 :: rest))))[
    before.length]? = some (header a n b m tail)
  left : ∀ locals : Locals,
    assigned (sscanf (header a n b m tail) "@@ %d,%*d %d,%*d @@").2 0 locals.left * -1 =
      Int32.ofNat a
  right : ∀ locals : Locals,
    assigned (sscanf (header a n b m tail) "@@ %d,%*d %d,%*d @@").2 1 locals.right = Int32.ofNat b
  printed : ∀ locals : Locals, numbers (classify (header a n b m tail) locals) =
    [if a = b then .line (Int32.ofNat (a + 3))
      else .lines (Int32.ofNat (a + 3)) (Int32.ofNat (b + 3))]

/-- There is no line feed in a header. -/
theorem header_noLineFeed (a n b m : Nat) {tail : Text} (htail : 10 ∉ tail) :
    10 ∉ header a n b m tail := by
  have hdecimal : ∀ k : Nat, 10 ∉ decimal k := by
    intro k hmem
    exact absurd (isdigit_of_mem_decimal hmem) (by decide)
  have hrange : ∀ start length : Nat, 10 ∉ range start length := by
    intro start length
    unfold range
    split_ifs <;> simp [hdecimal]
  simp [header, hrange, htail]

/-- A header is read right exactly if it has its old length, it and the lines before
it fit into the buffer, and the paths of the lines before it fit into theirs. -/
theorem readRight_iff {before : List Text} (hbefore : ∀ l ∈ before, 10 ∉ l) {a b : Nat}
    (ha : a ≤ 2 ^ 31 - 4) (hb : b ≤ 2 ^ 31 - 4) (n m : Nat) {tail : Text} (htail : 10 ∉ tail)
    (rest : Text) :
    ReadRight before a n b m tail rest ↔
      n ≠ 1 ∧ (∀ l ∈ before ++ [header a n b m tail], l.length < 10239) ∧
        ∀ l ∈ before, PathFits l := by
  have hne : header a n b m tail ≠ [] := List.cons_ne_nil _ _
  have htested := tested_at hbefore (header_noLineFeed a n b m htail) hne rest
  constructor
  · intro h
    refine ⟨?_, htested.mp h.tested⟩
    intro hn
    -- the local `right` is not assigned, so it may hold another number
    have hright := h.right ⟨0, Int32.ofNat b + 1⟩
    rw [(assigned_header a n b m tail _).2, if_pos hn] at hright
    simp at hright
  · intro h
    rcases h with ⟨hn, hfits⟩
    refine ⟨htested.mpr hfits, ?_, ?_, ?_⟩
    · intro locals
      rw [(assigned_header a n b m tail locals).1]
      exact toInt_neg (by omega)
    · intro locals
      rw [(assigned_header a n b m tail locals).2, if_neg hn]
      exact toInt_natCast (by omega)
    · intro locals
      rw [classify_header, if_neg hn, numbers_hunk, hunk_numbers (by omega) (by omega)]
      rfl

/-- A header without the new length, behind another line. -/
theorem readRight_five : ReadRight [bytes "Index: a"] 5 2 7 1 [] [] :=
  (readRight_iff (by decide) (by decide) (by decide) 2 1 (by decide) []).mpr
    ⟨by decide, by decide, by simpa using pathFits_of_short (by decide)⟩

/-- A header without the old length prints what is on the stack. -/
theorem not_readRight_five :
    header 5 1 7 2 [] = bytes "@@ -5 +7,2 @@" ∧
      numbers (classify (bytes "@@ -5 +7,2 @@") ⟨0, 40⟩) = [.lines 8 43] ∧
      ¬ ReadRight [] 5 1 7 2 [] [] := by
  have hheader : header 5 1 7 2 [] = bytes "@@ -5 +7,2 @@" := by decide
  have hprinted : numbers (classify (header 5 1 7 2 []) ⟨0, 40⟩) = [.lines 8 43] := by
    rw [classify_header]
    decide
  refine ⟨hheader, by rw [← hheader, hprinted], ?_⟩
  intro h
  have hright := h.printed ⟨0, 40⟩
  rw [hprinted] at hright
  exact absurd hright (by decide)

end PtsTools.Sreport
