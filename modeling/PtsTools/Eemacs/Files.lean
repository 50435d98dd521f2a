import PtsTools.Eemacs.Model

/-!
# The file that `eemacs` opens

An argument denotes a file, in three spellings, and a file under the home directory
is the same file under the drive `n:`.  Only the spelling with a tilde comes out
right.  The other two replace the home directory without the slash behind it, and
neither of them looks whether the home directory ends there: `mapsFile_iff`.
-/

namespace PtsTools.Eemacs

open PtsTools.Lib.Scanf

/-! ## Files -/

/-- The file that an argument denotes. -/
def file (pwd arg : Text) : Text :=
  if bytes "~/" <+: arg then home ++ arg.drop 1
  else if arg.head? = some 47 then arg
  else pwd ++ bytes "/" ++ arg

/-- A file lies under the home directory, or is the home directory. -/
def UnderHome (f : Text) : Prop := f = home ∨ home ++ bytes "/" <+: f

/-- A run opens the right file: a file below the home directory on the drive `n:`,
and no file of another directory there. -/
structure MapsFile (pwd argv0 arg : Text) (run : Run) : Prop where
  below : ∀ x ≠ [], file pwd arg = home ++ bytes "/" ++ x →
    run = .execvp (bytes "emacsclient") [argv0, bytes "n:/" ++ x]
  outside : ¬ UnderHome (file pwd arg) → ∀ args,
    run = .execvp (bytes "emacsclient") (argv0 :: args) → ∀ a ∈ args, ¬ bytes "n:/" <+: a

/-! ## The four branches -/

theorem head_tilde {arg : Text} (h : bytes "~/" <+: arg) : arg.head? = some 126 := by
  rcases h with ⟨s, hs⟩
  have hbytes : bytes "~/" = [126, 47] := by decide
  rw [← hs, hbytes]
  rfl

theorem head_home {arg : Text} (h : home <+: arg) : arg.head? = some 47 := by
  rcases h with ⟨s, hs⟩
  have hhome : home = 47 :: bytes "home/ts.p" := by decide
  rw [← hs, hhome]
  rfl

/-- A full path is no path with a tilde. -/
theorem not_tilde {arg : Text} (h : arg.head? = some 47) : ¬ bytes "~/" <+: arg := by
  intro htilde
  rw [head_tilde htilde] at h
  exact absurd h (by decide)

/-- A file that is handed over without the home directory and the slash behind it. -/
theorem mapsFile_below {pwd argv0 arg x : Text} (hfile : file pwd arg = home ++ bytes "/" ++ x) :
    MapsFile pwd argv0 arg (.execvp (bytes "emacsclient") [argv0, bytes "n:/" ++ x]) where
  below := by
    intro y _ hy
    rw [hfile] at hy
    rw [List.append_cancel_left hy]
  outside := by
    intro hout
    rw [hfile] at hout
    exact absurd (Or.inr (List.prefix_append _ x)) hout

/-- A file that is handed over without as many bytes as the home directory has is
right only if it is the home directory. -/
theorem mapsFile_cut (pwd argv0 arg : Text) :
    MapsFile pwd argv0 arg (.execvp (bytes "emacsclient")
        [argv0, replaceFront (file pwd arg) home.length (bytes "n:/")]) ↔
      file pwd arg = home ∨ file pwd arg = home ++ bytes "/" := by
  constructor
  · intro h
    by_cases hunder : UnderHome (file pwd arg)
    · rcases hunder with hhome | hunder
      · exact Or.inl hhome
      · rcases hunder with ⟨x, hx⟩
        by_cases hnil : x = []
        · right
          rw [← hx, hnil, List.append_nil]
        · -- the slash behind the home directory is still there
          have hrun := h.below x hnil hx.symm
          have hargs := List.cons.inj (List.cons.inj (Run.execvp.inj hrun).2).2
          have hlen := congrArg List.length hargs.1
          have hslash : (bytes "/").length = 1 := by decide
          rw [replaceFront, ← hx, List.append_assoc home, List.drop_left, List.length_append,
            List.length_append, List.length_append, hslash] at hlen
          omega
    · have hnot := h.outside hunder _ rfl _ List.mem_cons_self
      exact absurd (List.prefix_append _ _) hnot
  · intro h
    constructor
    · intro x hx hfile
      rw [hfile] at h
      rcases h with h | h
      · have hlen := congrArg List.length h
        have hslash : (bytes "/").length = 1 := by decide
        rw [List.length_append, List.length_append, hslash] at hlen
        omega
      · exact absurd (List.append_right_eq_self.mp h) hx
    · intro hout
      rcases h with h | h
      · exact absurd (Or.inl h) hout
      · have hunder : UnderHome (file pwd arg) := Or.inr ⟨[], by rw [h, List.append_nil]⟩
        exact absurd hunder hout

/-- The branch for a path with a tilde. -/
theorem eemacs_tilde (pwd argv0 x : Text) (more : List Text) :
    eemacs pwd (argv0 :: (bytes "~/" ++ x) :: more) =
        .execvp (bytes "emacsclient") [argv0, bytes "n:/" ++ x] ∧
      file pwd (bytes "~/" ++ x) = home ++ bytes "/" ++ x := by
  have htilde : bytes "~/" <+: bytes "~/" ++ x := List.prefix_append _ _
  constructor
  · unfold eemacs
    dsimp only
    rw [if_pos ((strstr_eq_zero_iff _ _).mpr htilde), replaceFront, List.drop_left]
  · unfold file
    rw [if_pos htilde, List.append_assoc]
    rfl

/-- The branch for a path that starts like the home directory. -/
theorem eemacs_home {arg : Text} (h : home <+: arg) (pwd argv0 : Text) (more : List Text) :
    eemacs pwd (argv0 :: arg :: more) =
      .execvp (bytes "emacsclient")
        [argv0, replaceFront (file pwd arg) home.length (bytes "n:/")] := by
  have htilde := not_tilde (head_home h)
  unfold eemacs file
  dsimp only
  rw [if_neg (mt (strstr_eq_zero_iff _ _).mp htilde), if_pos ((strstr_eq_zero_iff _ _).mpr h),
    if_neg htilde, if_pos (head_home h)]

/-- The branch for any other full path. -/
theorem eemacs_full {arg : Text} (hslash : arg.head? = some 47) (h : ¬ home <+: arg)
    (pwd argv0 : Text) (more : List Text) :
    eemacs pwd (argv0 :: arg :: more) = .execvp (bytes "emacs") (argv0 :: arg :: more) ∧
      file pwd arg = arg := by
  have htilde := not_tilde hslash
  constructor
  · unfold eemacs
    dsimp only
    rw [if_neg (mt (strstr_eq_zero_iff _ _).mp htilde), if_neg (mt (strstr_eq_zero_iff _ _).mp h),
      if_pos hslash]
  · unfold file
    rw [if_neg htilde, if_pos hslash]

/-- The branch for a relative path. -/
theorem eemacs_relative {arg : Text} (htilde : ¬ bytes "~/" <+: arg)
    (hslash : arg.head? ≠ some 47) (pwd argv0 : Text) (more : List Text) :
    eemacs pwd (argv0 :: arg :: more) =
      .execvp (bytes "emacsclient")
        [argv0, replaceFront (file pwd arg) home.length (bytes "n:/")] := by
  have hhome : ¬ home <+: arg := fun h => hslash (head_home h)
  unfold eemacs file
  dsimp only
  rw [if_neg (mt (strstr_eq_zero_iff _ _).mp htilde), if_neg (mt (strstr_eq_zero_iff _ _).mp hhome),
    if_neg hslash, if_neg htilde, if_neg hslash]

/-- A file is opened right exactly if it is spelled with a tilde, or it is spelled
in full and does not start like the home directory, or it is the home directory. -/
theorem mapsFile_iff (pwd argv0 arg : Text) (more : List Text) :
    MapsFile pwd argv0 arg (eemacs pwd (argv0 :: arg :: more)) ↔
      bytes "~/" <+: arg ∨ (arg.head? = some 47 ∧ ¬ home <+: arg) ∨
        file pwd arg = home ∨ file pwd arg = home ++ bytes "/" := by
  by_cases htilde : bytes "~/" <+: arg
  · rcases htilde with ⟨x, rfl⟩
    rcases eemacs_tilde pwd argv0 x more with ⟨hrun, hfile⟩
    rw [hrun]
    exact ⟨fun _ => Or.inl (List.prefix_append _ _), fun _ => mapsFile_below hfile⟩
  · by_cases hhome : home <+: arg
    · rw [eemacs_home hhome, mapsFile_cut]
      simp only [htilde, hhome, not_true_eq_false, and_false, false_or]
    · by_cases hslash : arg.head? = some 47
      · rcases eemacs_full hslash hhome pwd argv0 more with ⟨hrun, hfile⟩
        rw [hrun]
        refine ⟨fun _ => Or.inr (Or.inl ⟨hslash, hhome⟩), fun _ => ⟨?_, ?_⟩⟩
        · intro x _ hx
          rw [hfile, List.append_assoc] at hx
          exact absurd ⟨_, hx.symm⟩ hhome
        · intro _ args hargs
          exact absurd (Run.execvp.inj hargs).1 (by decide)
      · rw [eemacs_relative htilde hslash, mapsFile_cut]
        simp only [htilde, hslash, false_and, false_or]

/-- A file of the home directory, spelled in full, gets a second slash, and one of
another user's directory is opened in this one. -/
theorem eemacs_full_path :
    eemacs (bytes "/") [bytes "eemacs", bytes "/home/ts.p/a"] =
        .execvp (bytes "emacsclient") [bytes "eemacs", bytes "n://a"] ∧
      ¬ MapsFile (bytes "/") (bytes "eemacs") (bytes "/home/ts.p/a")
        (eemacs (bytes "/") [bytes "eemacs", bytes "/home/ts.p/a"]) := by
  have hrun : eemacs (bytes "/") [bytes "eemacs", bytes "/home/ts.p/a"] =
      .execvp (bytes "emacsclient") [bytes "eemacs", bytes "n://a"] := by decide
  refine ⟨hrun, ?_⟩
  intro h
  have hbelow := h.below (bytes "a") (by decide) (by decide)
  rw [hrun] at hbelow
  exact absurd hbelow (by decide)

end PtsTools.Eemacs
