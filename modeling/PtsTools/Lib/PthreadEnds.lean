import Mathlib.Algebra.BigOperators.Group.Finset.Basic
import Mathlib.Algebra.Order.BigOperators.Group.Finset
import PtsTools.Lib.Pthread

/-!
# Threads that come to an end

A program whose points have a `Weight` that gets smaller along the code cannot
run for ever: every move takes something from the weight of the state,
`Weight.total_lt`.  So every run stops, and if every reachable state in which no
thread can move satisfies a condition, every run ends in it: `endsIn_of_stuck`.
-/

namespace PtsTools.Lib.Pthread

variable {T : Type} {P : T → Type} {M C L : Type}

/-! ## Runs -/

section Runs

variable [DecidableEq T] [DecidableEq M] (prog : Program T P M C L)

/-- A run of `n` moves. -/
inductive Moves : Nat → State T P M L → State T P M L → Prop
  | nil (s : State T P M L) : Moves 0 s s
  | cons {s s' s'' : State T P M L} {t : T} {n : Nat} (hm : Move prog s t s')
      (h : Moves n s' s'') : Moves (n + 1) s s''

/-- Every run from a state stops, whatever the order of the moves, and where it
stops `Q` holds. -/
inductive EndsIn (Q : State T P M L → Prop) : State T P M L → Prop
  | stop {s : State T P M L} (hstuck : Stuck prog s) (hq : Q s) : EndsIn Q s
  | move {s : State T P M L} (hmove : ∃ t s', Move prog s t s')
      (h : ∀ t s', Move prog s t s' → EndsIn Q s') : EndsIn Q s

end Runs

/-! ## Weights -/

/-- A number for every program point that gets smaller along the code. -/
structure Weight (prog : Program T P M C L) where
  point : {t : T} → P t → Nat
  next : ∀ {t : T} {p q : P t}, prog.next p = some q → point q < point p

variable {prog : Program T P M C L} (w : Weight prog)

/-- What is left to do for a thread.  Being woken and getting the mutex back are
moves on the way from a `wait` to the next point. -/
def Weight.status {t : T} : Status (P t) → Nat
  | .absent => 3 * w.point (prog.entry t) + 4
  | .ready p => 3 * w.point p + 3
  | .waiting p => 3 * w.point p + 2
  | .woken p => 3 * w.point p + 1
  | .finished => 0

/-- A thread that goes on has less left to do. -/
theorem Weight.after_le {t : T} (p : P t) : w.status (prog.after p) ≤ 3 * w.point p := by
  unfold Program.after
  cases hnext : prog.next p with
  | none => exact Nat.zero_le _
  | some q =>
    have hlt := w.next hnext
    show 3 * w.point q + 3 ≤ 3 * w.point p
    omega

variable [DecidableEq T]

/-- What is left after a thread got another status. -/
theorem Weight.set_le {s : State T P M L} {t : T} {status : Status (P t)}
    (hle : w.status status ≤ w.status (s.status t)) (u : T) :
    w.status ((s.set t status).status u) ≤ w.status (s.status u) := by
  rw [State.set_status]
  by_cases hu : u = t
  · subst hu
    rw [Function.update_self]
    exact hle
  · rw [Function.update_of_ne hu]

/-- The thread that goes on from `p` has less left to do, and no other thread has
more. -/
theorem Weight.advance {s : State T P M L} {t : T} (s' : State T P M L) (p : P t)
    (hlt : 3 * w.point p < w.status (s.status t))
    (hle : ∀ u, w.status (s'.status u) ≤ w.status (s.status u)) :
    w.status ((s'.set t (prog.after p)).status t) < w.status (s.status t) ∧
      ∀ u, w.status ((s'.set t (prog.after p)).status u) ≤ w.status (s.status u) := by
  have hafter : w.status ((s'.set t (prog.after p)).status t) < w.status (s.status t) := by
    rw [State.set_status, Function.update_self]
    exact (w.after_le p).trans_lt hlt
  refine ⟨hafter, ?_⟩
  intro u
  by_cases hu : u = t
  · rw [hu]
    exact hafter.le
  · rw [State.set_status, Function.update_of_ne hu]
    exact hle u

variable [DecidableEq M]

/-- Every move leaves the thread less to do, and no other thread more. -/
theorem Weight.move {s s' : State T P M L} {t : T} (hm : Move prog s t s') :
    w.status (s'.status t) < w.status (s.status t) ∧
      ∀ u, w.status (s'.status u) ≤ w.status (s.status u) := by
  have hready : ∀ p, s.status t = .ready p → 3 * w.point p < w.status (s.status t) := by
    intro p hs
    rw [hs]
    show 3 * w.point p < 3 * w.point p + 3
    omega
  cases hm with
  | lock hs hop hfree => exact w.advance (s.setOwner _ _) _ (hready _ hs) fun u => le_rfl
  | unlock hs hop hown => exact w.advance (s.setOwner _ _) _ (hready _ hs) fun u => le_rfl
  | @wait p c m hs hop hown =>
    have hlt : w.status (.waiting p) < w.status (s.status t) := by
      rw [hs]
      exact Nat.lt_succ_self _
    refine ⟨?_, w.set_le (s := s.setOwner m none) hlt.le⟩
    rw [State.set_status, Function.update_self]
    exact hlt
  | @regain p c m hs hop hfree =>
    have hlt : 3 * w.point p < w.status (s.status t) := by
      rw [hs]
      exact Nat.lt_succ_self _
    exact w.advance (s.setOwner _ _) _ hlt fun u => le_rfl
  | @wake u p q c m hs hop hu hq =>
    have hwoken : w.status (.woken q) ≤ w.status (s.status u) := by
      rw [hu]
      exact Nat.le_succ _
    exact w.advance _ _ (hready _ hs) (w.set_le hwoken)
  | lost hs hop hnone => exact w.advance _ _ (hready _ hs) fun u => le_rfl
  | @create u p hs hop hu =>
    have hentry : w.status (.ready (prog.entry u)) ≤ w.status (s.status u) := by
      rw [hu]
      exact Nat.le_succ _
    exact w.advance _ _ (hready _ hs) (w.set_le hentry)
  | join hs hop hu => exact w.advance _ _ (hready _ hs) fun u => le_rfl
  | print hs hop => exact w.advance (s.print _) _ (hready _ hs) fun u => le_rfl
  | delay hs hop => exact w.advance _ _ (hready _ hs) fun u => le_rfl

variable [Fintype T]

/-- What is left to do for all threads. -/
def Weight.total (s : State T P M L) : Nat := ∑ t, w.status (s.status t)

theorem Weight.total_lt {s s' : State T P M L} {t : T} (hm : Move prog s t s') :
    w.total s' < w.total s := by
  have hmove := w.move hm
  exact Finset.sum_lt_sum (fun u _ => hmove.2 u) ⟨t, Finset.mem_univ t, hmove.1⟩

/-- No run has more moves than the weight of the state that it starts from. -/
theorem Weight.moves_le {s s' : State T P M L} {n : Nat} (h : Moves prog n s s') :
    n + w.total s' ≤ w.total s := by
  induction h with
  | nil s => exact (Nat.zero_add _).le
  | cons hm _ ih =>
    have hlt := w.total_lt hm
    omega

/-- Every run of a program with weights ends, in what the states have in common in
which no thread can move. -/
theorem Weight.endsIn_of_stuck (w : Weight prog) {init s : State T P M L} {Q : State T P M L → Prop}
    (hQ : ∀ s, Reachable prog (fun _ _ => True) init s → Stuck prog s → Q s)
    (h : Reachable prog (fun _ _ => True) init s) : EndsIn prog Q s := by
  induction hn : w.total s using Nat.strong_induction_on generalizing s with
  | _ n ih =>
    by_cases hstuck : Stuck prog s
    · exact .stop hstuck (hQ s h hstuck)
    · have hmove : ∃ t s', Move prog s t s' := by
        unfold Stuck at hstuck
        push Not at hstuck
        exact hstuck
      refine .move hmove ?_
      intro t s' hm
      have hlt : w.total s' < n := hn ▸ w.total_lt hm
      exact ih _ hlt (.move h trivial hm) rfl

end PtsTools.Lib.Pthread
