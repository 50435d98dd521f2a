import PtsTools.Sreport.Diff

/-!
# What the loop of `sreport` reads

The loop ends when `getline` has reached the end of the input, and it looks at
nothing else.  A line that does not fit into the buffer makes the stream fail, and
a stream that has failed never comes to the end: `stops_failed`.  A last line
without a line feed is read together with the end, so the loop leaves before it
looks at it.  Behind a line whose path does not fit into `fn` nothing is said.

`tested` are the lines that the body of the loop gets and `stops` says whether the
loop has ended.  `loop_eq` ties both to the loop.  Every input is some whole lines
and a rest, and `stops_lines` and `tested_lines` say what becomes of those.
-/

namespace PtsTools.Sreport

open PtsTools.Lib.Scanf

/-! ## The rounds of the loop -/

/-- The lines that are given to the two patterns in the first `fuel` rounds. -/
def tested : Nat → Istream → List Text
  | 0, _ => []
  | fuel + 1, cin =>
    let (line, cin) := cin.getline (10240 - 1)
    if cin.eofbit then []
    else if overruns line then [line]
    else line :: tested fuel cin

/-- The loop has ended within `fuel` rounds, and no line has overrun `fn`. -/
def stops : Nat → Istream → Bool
  | 0, _ => false
  | fuel + 1, cin =>
    let (line, cin) := cin.getline (10240 - 1)
    cin.eofbit || (!overruns line && stops fuel cin)

/-- The loop prints what its lines give, if it ends. -/
theorem loop_eq (junk : Nat → Locals) (fuel i : Nat) (cin : Istream) :
    loop junk fuel i cin =
      if stops fuel cin then some (outputs junk i (tested fuel cin)) else none := by
  induction fuel generalizing i cin with
  | zero => rfl
  | succ fuel ih =>
    unfold loop stops tested
    dsimp only
    by_cases heof : (cin.getline (10240 - 1)).2.eofbit = true
    · simp [heof, outputs]
    · rw [if_neg heof, if_neg heof, ih]
      by_cases hover : overruns (cin.getline (10240 - 1)).1 = true
      · simp [heof, hover]
      · by_cases hstops : stops fuel (cin.getline (10240 - 1)).2 = true
        · simp [heof, hover, hstops, outputs]
        · simp [heof, hover, hstops]

/-- The program ends exactly when the loop does. -/
theorem sreport_isSome (junk : Nat → Locals) (fuel : Nat) (s : Text) :
    (sreport junk fuel s).isSome = stops fuel (.open s) := by
  unfold sreport
  rw [loop_eq]
  cases stops fuel (.open s) <;> rfl

/-! ## One round -/

/-- A line that does not fit is cut off, whatever comes behind it. -/
theorem takeLine_long {l : Text} (hl : 10 ∉ l) {k : Nat} (hk : k < l.length) (t : Text) :
    takeLine k (l ++ t) = (l.take k, .full, l.drop k ++ t) := by
  induction l generalizing k with
  | nil => exact absurd hk (Nat.not_lt_zero k)
  | cons c l ih =>
    have hc : c ≠ 10 := fun h => hl (by rw [h]; exact List.mem_cons_self)
    cases k with
    | zero => rw [List.cons_append, takeLine, if_neg hc]; rfl
    | succ k =>
      have ih' := ih (fun h => hl (List.mem_cons_of_mem c h)) (by simpa using hk)
      rw [List.cons_append, takeLine, if_neg hc, ih']
      rfl

/-- The last line, if it fits and no line feed is behind it. -/
theorem takeLine_last {l : Text} (hl : 10 ∉ l) {k : Nat} (hk : l.length ≤ k) :
    takeLine k l = (l, .eof, []) := by
  induction l generalizing k with
  | nil => cases k <;> rfl
  | cons c l ih =>
    have hc : c ≠ 10 := fun h => hl (by rw [h]; exact List.mem_cons_self)
    have hne : k ≠ 0 := by
      rw [List.length_cons] at hk
      omega
    obtain ⟨k, rfl⟩ := Nat.exists_eq_add_one_of_ne_zero hne
    have ih' := ih (fun h => hl (List.mem_cons_of_mem c h)) (by simpa using hk)
    rw [takeLine, if_neg hc, ih']

/-- A round on a line that does not fit makes the stream fail. -/
theorem getline_long {l : Text} (hl : 10 ∉ l) {n : Nat} (hn : n - 1 < l.length) (t : Text) :
    (Istream.open (l ++ t)).getline n =
      (l.take (n - 1), ⟨l.drop (n - 1) ++ t, false, true⟩) := by
  unfold Istream.getline
  simp only [Istream.open, takeLine_long hl hn]
  rfl

/-- A round on a last line without a line feed comes to the end of the input. -/
theorem getline_last {l : Text} (hl : 10 ∉ l) {n : Nat} (hn : l.length ≤ n - 1) :
    (Istream.open l).getline n = (l, ⟨[], true, l = []⟩) := by
  unfold Istream.getline
  simp only [Istream.open, takeLine_last hl hn]
  rfl

/-- The loop never ends on a stream that has failed. -/
theorem stops_failed (fuel : Nat) (rest : Text) : stops fuel ⟨rest, false, true⟩ = false := by
  induction fuel with
  | zero => rfl
  | succ fuel ih =>
    have hround : stops (fuel + 1) ⟨rest, false, true⟩ =
        (!overruns [] && stops fuel ⟨rest, false, true⟩) := rfl
    rw [hround, ih, Bool.and_false]

/-! ## The lines of an input -/

/-- The lines of an input.  Behind the last line feed there is a line only if there
is a byte. -/
def inputLines (s : Text) : List Text :=
  if (s.splitOn 10).getLast? = some [] then (s.splitOn 10).dropLast else s.splitOn 10

/-- Every input is some lines with their line feeds and a rest without one. -/
theorem exists_lines (s : Text) :
    ∃ ls last, s = unlines ls ++ last ∧ (∀ l ∈ ls, 10 ∉ l) ∧ 10 ∉ last := by
  induction s with
  | nil => exact ⟨[], [], rfl, by simp, by simp⟩
  | cons c s ih =>
    obtain ⟨ls, last, rfl, hls, hlast⟩ := ih
    by_cases hc : c = 10
    · subst hc
      refine ⟨[] :: ls, last, rfl, ?_, hlast⟩
      intro l hl
      rcases List.mem_cons.mp hl with rfl | hl
      · simp
      · exact hls l hl
    · have hnew : ∀ l : Text, 10 ∉ l → 10 ∉ c :: l := by
        intro l hl hmem
        rcases List.mem_cons.mp hmem with h | h
        · exact hc h.symm
        · exact hl h
      cases ls with
      | nil => exact ⟨[], c :: last, rfl, by simp, hnew last hlast⟩
      | cons l ls =>
        refine ⟨(c :: l) :: ls, last, rfl, ?_, hlast⟩
        intro l' hl'
        rcases List.mem_cons.mp hl' with rfl | hl'
        · exact hnew l (hls l List.mem_cons_self)
        · exact hls l' (List.mem_cons_of_mem l hl')

theorem unlines_cons (l : Text) (ls : List Text) (last : Text) :
    unlines (l :: ls) ++ last = l ++ 10 :: (unlines ls ++ last) := by
  simp [unlines]

/-- The pieces of such an input between its line feeds. -/
theorem splitOn_lines {ls : List Text} (hls : ∀ l ∈ ls, 10 ∉ l) {last : Text} (hlast : 10 ∉ last) :
    (unlines ls ++ last).splitOn 10 = ls ++ [last] := by
  induction ls with
  | nil => exact List.splitOn_eq_singleton hlast
  | cons l ls ih =>
    rw [unlines_cons, List.splitOn_append_cons_self_of_not_mem (hls l List.mem_cons_self),
      ih fun l' hl' => hls l' (List.mem_cons_of_mem l hl')]
    rfl

/-- The lines of such an input. -/
theorem inputLines_eq {ls : List Text} (hls : ∀ l ∈ ls, 10 ∉ l) {last : Text}
    (hlast : 10 ∉ last) :
    inputLines (unlines ls ++ last) = if last = [] then ls else ls ++ [last] := by
  unfold inputLines
  rw [splitOn_lines hls hlast]
  simp

/-- Such an input ends with a line feed exactly if there is no rest. -/
theorem ends_iff {ls : List Text} {last : Text} (hlast : 10 ∉ last) :
    unlines ls ++ last = [] ∨ (unlines ls ++ last).getLast? = some 10 ↔ last = [] := by
  constructor
  · intro h
    by_contra hne
    rcases h with h | h
    · exact hne (List.append_eq_nil_iff.mp h).2
    · rw [List.getLast?_append, List.getLast?_eq_some_getLast hne] at h
      have heq : last.getLast hne = 10 := Option.some.inj h
      exact hlast (by rw [← heq]; exact List.getLast_mem hne)
  · intro h
    subst h
    rw [List.append_nil]
    rcases List.eq_nil_or_concat ls with rfl | ⟨ls, l, rfl⟩
    · exact Or.inl rfl
    · right
      simp [unlines]

/-! ## The loop on an input -/

/-- A round whose `getline` is known. -/
theorem round_eq {cin cin' : Istream} {line : Text}
    (h : cin.getline (10240 - 1) = (line, cin')) (fuel : Nat) :
    stops (fuel + 1) cin = (cin'.eofbit || (!overruns line && stops fuel cin')) ∧
      tested (fuel + 1) cin =
        if cin'.eofbit then [] else if overruns line then [line] else line :: tested fuel cin' := by
  constructor
  · rw [stops, h]
  · rw [tested, h]

/-- A round on a line with a line feed that fits, if its path fits too. -/
theorem round_line {l : Text} (hl : 10 ∉ l) (hfit : l.length < 10239) (hpath : PathFits l)
    (rest : Text) (fuel : Nat) :
    stops (fuel + 1) (.open (l ++ 10 :: rest)) = stops fuel (.open rest) ∧
      tested (fuel + 1) (.open (l ++ 10 :: rest)) = l :: tested fuel (.open rest) := by
  have hround := round_eq (getline_line hl (n := 10240 - 1) (by omega) rest) fuel
  rwa [(overruns_eq_false_iff l).mpr hpath] at hround

/-- A round on a line with a line feed that fits, if its path does not. -/
theorem round_overrun {l : Text} (hl : 10 ∉ l) (hfit : l.length < 10239) (hpath : ¬ PathFits l)
    (rest : Text) (fuel : Nat) :
    stops (fuel + 1) (.open (l ++ 10 :: rest)) = false ∧
      tested (fuel + 1) (.open (l ++ 10 :: rest)) = [l] := by
  have hround := round_eq (getline_line hl (n := 10240 - 1) (by omega) rest) fuel
  rw [← overruns_eq_false_iff, Bool.not_eq_false] at hpath
  rwa [hpath] at hround

/-- A round on a last line that fits. -/
theorem round_last {l : Text} (hl : 10 ∉ l) (hfit : l.length < 10239) (fuel : Nat) :
    stops (fuel + 1) (.open l) = true ∧ tested (fuel + 1) (.open l) = [] :=
  round_eq (getline_last hl (by omega)) fuel

/-- A round on a line that does not fit.  The loop never ends after it. -/
theorem round_long {l : Text} (hl : 10 ∉ l) (hlong : ¬ l.length < 10239) (t : Text) (fuel : Nat) :
    stops (fuel + 1) (.open (l ++ t)) = false ∧
      tested (fuel + 1) (.open (l ++ t)) =
        if overruns (l.take 10238) then [l.take 10238]
        else l.take 10238 :: tested fuel ⟨l.drop 10238 ++ t, false, true⟩ := by
  have hround := round_eq (getline_long hl (n := 10240 - 1) (by omega) t) fuel
  rw [stops_failed, Bool.and_false] at hround
  exact hround

/-- The loop ends exactly if every piece of the input fits into the buffer and so does
every path, and then in one round more than there are lines with a line feed. -/
theorem stops_lines {ls : List Text} (hls : ∀ l ∈ ls, 10 ∉ l) {last : Text} (hlast : 10 ∉ last)
    (fuel : Nat) :
    stops fuel (.open (unlines ls ++ last)) = true ↔
      (∀ l ∈ ls ++ [last], l.length < 10239) ∧ (∀ l ∈ ls, PathFits l) ∧ ls.length < fuel := by
  induction ls generalizing fuel with
  | nil =>
    cases fuel with
    | zero => simp [stops]
    | succ fuel =>
      show stops (fuel + 1) (.open last) = true ↔ _
      by_cases hfit : last.length < 10239
      · rw [(round_last hlast hfit fuel).1]
        simp [hfit]
      · have hlong := (round_long hlast hfit [] fuel).1
        rw [List.append_nil] at hlong
        rw [hlong]
        simp [hfit]
  | cons l ls ih =>
    have hl : 10 ∉ l := hls l List.mem_cons_self
    rw [unlines_cons]
    cases fuel with
    | zero => simp [stops]
    | succ fuel =>
      by_cases hfit : l.length < 10239
      · by_cases hpath : PathFits l
        · rw [(round_line hl hfit hpath _ fuel).1,
            ih (fun l' hl' => hls l' (List.mem_cons_of_mem l hl')) fuel]
          simp [hfit, hpath]
        · rw [(round_overrun hl hfit hpath _ fuel).1]
          simp [hpath]
      · rw [(round_long hl hfit _ fuel).1]
        simp [hfit]

/-- The lines with a line feed are the ones that are tested. -/
theorem tested_lines {ls : List Text} (hls : ∀ l ∈ ls, 10 ∉ l) {last : Text} (hlast : 10 ∉ last)
    (hfits : ∀ l ∈ ls ++ [last], l.length < 10239) (hpaths : ∀ l ∈ ls, PathFits l) {fuel : Nat}
    (hfuel : ls.length < fuel) : tested fuel (.open (unlines ls ++ last)) = ls := by
  induction ls generalizing fuel with
  | nil =>
    obtain ⟨fuel, rfl⟩ := Nat.exists_eq_add_one_of_ne_zero (by omega : fuel ≠ 0)
    exact (round_last hlast (hfits last (by simp)) fuel).2
  | cons l ls ih =>
    rw [List.length_cons] at hfuel
    obtain ⟨fuel, rfl⟩ := Nat.exists_eq_add_one_of_ne_zero (by omega : fuel ≠ 0)
    have hlt : ls.length < fuel := by omega
    have hl := List.mem_cons_self (a := l) (l := ls)
    have ih' := ih (fun l' hl' => hls l' (List.mem_cons_of_mem l hl'))
      (fun l' hl' => hfits l' (List.mem_cons_of_mem l hl'))
      (fun l' hl' => hpaths l' (List.mem_cons_of_mem l hl')) hlt
    rw [unlines_cons, (round_line (hls l hl) (hfits l (by simp)) (hpaths l hl) _ fuel).2, ih']

theorem fits_concat_nil {ls : List Text} (hls : ∀ l ∈ ls, l.length < 10239) :
    ∀ l ∈ ls ++ [[]], l.length < 10239 := by
  intro l hl
  rcases List.mem_append.mp hl with hl | hl
  · exact hls l hl
  · rw [List.mem_singleton.mp hl]
    decide

/-- Lines that fit into the buffer are all read if their paths fit too, and the loop
ends behind the last one. -/
theorem loop_unlines (junk : Nat → Locals) {ls : List Text}
    (hls : ∀ l ∈ ls, 10 ∉ l ∧ l.length < 10239 ∧ PathFits l) {fuel : Nat}
    (hfuel : ls.length < fuel) (i : Nat) :
    loop junk fuel i (.open (unlines ls)) = some (outputs junk i ls) := by
  have hnl : ∀ l ∈ ls, 10 ∉ l := fun l hl => (hls l hl).1
  have hfits := fits_concat_nil fun l hl => (hls l hl).2.1
  have hpaths : ∀ l ∈ ls, PathFits l := fun l hl => (hls l hl).2.2
  have hstops := (stops_lines hnl List.not_mem_nil fuel).mpr ⟨hfits, hpaths, hfuel⟩
  have htested := tested_lines hnl List.not_mem_nil hfits hpaths hfuel
  rw [List.append_nil] at hstops htested
  rw [loop_eq, if_pos hstops, htested]

/-- The loop ends and has tested every line once exactly if every line and its path fit
into their buffers and the last line has its line feed. -/
theorem reads_all_iff (junk : Nat → Locals) (s : Text) :
    (∃ fuel, (sreport junk fuel s).isSome ∧ tested fuel (.open s) = inputLines s) ↔
      (∀ l ∈ inputLines s, l.length < 10239 ∧ PathFits l) ∧
        (s = [] ∨ s.getLast? = some 10) := by
  obtain ⟨ls, last, rfl, hls, hlast⟩ := exists_lines s
  rw [ends_iff hlast, inputLines_eq hls hlast]
  constructor
  · intro h
    rcases h with ⟨fuel, hsome, htested⟩
    rw [sreport_isSome, stops_lines hls hlast] at hsome
    obtain ⟨hfits, hpaths, hfuel⟩ := hsome
    rw [tested_lines hls hlast hfits hpaths hfuel] at htested
    have hnil : last = [] := by
      by_contra hne
      rw [if_neg hne] at htested
      have hlen := congrArg List.length htested
      simp at hlen
    refine ⟨?_, hnil⟩
    rw [if_pos hnil]
    exact fun l hl => ⟨hfits l (List.mem_append_left _ hl), hpaths l hl⟩
  · intro h
    rcases h with ⟨hlines, rfl⟩
    rw [if_pos rfl] at hlines
    have hall := fits_concat_nil fun l hl => (hlines l hl).1
    have hpaths : ∀ l ∈ ls, PathFits l := fun l hl => (hlines l hl).2
    refine ⟨ls.length + 1, ?_, ?_⟩
    · rw [sreport_isSome, stops_lines hls hlast]
      exact ⟨hall, hpaths, Nat.lt_succ_self _⟩
    · rw [tested_lines hls hlast hall hpaths (Nat.lt_succ_self _), if_pos rfl]

/-- A line of 10239 bytes with its line feed keeps the program in its loop for
ever. -/
theorem sreport_long_line :
    ¬ ∃ fuel, (sreport (fun _ => ⟨0, 0⟩) fuel (List.replicate 10239 97 ++ [10])).isSome ∧
      tested fuel (.open (List.replicate 10239 97 ++ [10])) =
        inputLines (List.replicate 10239 97 ++ [10]) := by
  intro h
  rcases h with ⟨fuel, hsome, -⟩
  have hline : 10 ∉ List.replicate 10239 (97 : UInt8) := by
    intro hmem
    exact absurd (List.eq_of_mem_replicate hmem) (by decide)
  have hlong : ¬ (List.replicate 10239 (97 : UInt8)).length < 10239 := by
    rw [List.length_replicate]
    omega
  rw [sreport_isSome] at hsome
  cases fuel with
  | zero => exact absurd hsome (by simp [stops])
  | succ fuel =>
    -- the first round makes the stream fail, and every later one leaves it as it is
    rw [(round_long hline hlong [10] fuel).1] at hsome
    exact absurd hsome (by simp)

end PtsTools.Sreport
