import Mathlib.Tactic.SplitIfs

/-!
# While loops

A loop is a condition and a body.  `Loop.run` runs it with fuel, one unit for each
test of the condition, and `Loop.Ends` says that it ends in a state with some fuel.
The state is unique: `Ends.unique`.

`ends_step` goes through one round.  `not_terminates_of_invariant` is the rule for
a loop that never ends: a property that implies the condition and that the body
keeps.
-/

namespace PtsTools.Lib.While

/-- A loop over a state. -/
structure Loop (σ : Type) where
  cond : σ → Bool
  body : σ → σ

variable {σ : Type} {l : Loop σ} {s t u : σ}

/-- The loop with fuel, or `none` if the fuel runs out. -/
def Loop.run (l : Loop σ) : Nat → σ → Option σ
  | 0, _ => none
  | fuel + 1, s => if l.cond s then l.run fuel (l.body s) else some s

/-- The loop ends in a state. -/
def Loop.Ends (l : Loop σ) (s t : σ) : Prop := ∃ fuel, l.run fuel s = some t

/-- The loop ends. -/
def Loop.Terminates (l : Loop σ) (s : σ) : Prop := ∃ t, l.Ends s t

/-- More fuel does not change where a loop ends. -/
theorem run_add {fuel : Nat} (h : l.run fuel s = some t) (k : Nat) :
    l.run (fuel + k) s = some t := by
  induction fuel generalizing s with
  | zero => exact absurd h (by simp [Loop.run])
  | succ fuel ih =>
    rw [Nat.add_right_comm, Loop.run]
    rw [Loop.run] at h
    split_ifs at h ⊢ with hcond
    · exact ih h
    · exact h

/-- A loop ends in one state only. -/
theorem Ends.unique (ht : l.Ends s t) (hu : l.Ends s u) : t = u := by
  rcases ht with ⟨m, hm⟩
  rcases hu with ⟨n, hn⟩
  have hm' := run_add hm n
  rw [Nat.add_comm, run_add hn m] at hm'
  exact (Option.some.inj hm').symm

/-- Where the condition does not hold, the loop has ended. -/
theorem ends_done (h : l.cond s = false) : l.Ends s s :=
  ⟨1, by rw [Loop.run, if_neg (by rw [h]; decide)]⟩

/-- One round of the loop. -/
theorem ends_step (h : l.cond s = true) : l.Ends s t ↔ l.Ends (l.body s) t := by
  constructor
  · intro hends
    rcases hends with ⟨fuel, hfuel⟩
    cases fuel with
    | zero => exact absurd hfuel (by simp [Loop.run])
    | succ fuel =>
      rw [Loop.run, if_pos h] at hfuel
      exact ⟨fuel, hfuel⟩
  · intro hends
    rcases hends with ⟨fuel, hfuel⟩
    exact ⟨fuel + 1, by rw [Loop.run, if_pos h, hfuel]⟩

/-- A loop does not end if a property implies its condition and the body keeps it. -/
theorem not_terminates_of_invariant {I : σ → Prop} (hcond : ∀ s, I s → l.cond s = true)
    (hbody : ∀ s, I s → I (l.body s)) (hs : I s) : ¬ l.Terminates s := by
  intro h
  rcases h with ⟨t, fuel, hfuel⟩
  induction fuel generalizing s with
  | zero => exact absurd hfuel (by simp [Loop.run])
  | succ fuel ih =>
    rw [Loop.run, if_pos (hcond s hs)] at hfuel
    exact ih (hbody s hs) hfuel

end PtsTools.Lib.While
