import PtsTools.Lib.Pthread

/-!
# Threads with shared memory

What the threads share beside mutexes and condition variables is a value of a type
`D`.  An `Effect` says what a program point does to it.  A thread does that when it
leaves the point, in the same step as its operation there, so memory changes one
point at a time and in the order of the moves.

`SharedReachable` are the states with their memory.  Without it they are the
states of the program, `SharedReachable.reachable`, so that what is known about the
mutexes carries over.
-/

namespace PtsTools.Lib.Pthread

variable {T : Type} {P : T → Type} {M C L D : Type}

/-- What the program points do to the shared memory. -/
abbrev Effect (P : T → Type) (D : Type) := (t : T) → P t → D → D

/-- The memory after a move of the thread `t`.  A thread that comes out of `wait` has
left its point already. -/
def Effect.apply (eff : Effect P D) (s : State T P M L) (t : T) (d : D) : D :=
  match s.status t with
  | .ready p => eff t p d
  | _ => d

theorem Effect.apply_ready {eff : Effect P D} {s : State T P M L} {t : T} {p : P t}
    (hs : s.status t = .ready p) (d : D) : eff.apply s t d = eff t p d := by
  unfold Effect.apply
  rw [hs]

theorem Effect.apply_woken {eff : Effect P D} {s : State T P M L} {t : T} {p : P t}
    (hs : s.status t = .woken p) (d : D) : eff.apply s t d = d := by
  unfold Effect.apply
  rw [hs]

variable [DecidableEq T] [DecidableEq M]

/-- The states with memory that moves reach. -/
inductive SharedReachable (prog : Program T P M C L) (eff : Effect P D) (init : State T P M L)
    (d0 : D) : State T P M L → D → Prop
  | refl : SharedReachable prog eff init d0 init d0
  | move {s s' : State T P M L} {d : D} {t : T} (hs : SharedReachable prog eff init d0 s d)
      (hm : Move prog s t s') : SharedReachable prog eff init d0 s' (eff.apply s t d)

variable {prog : Program T P M C L} {eff : Effect P D} {init s : State T P M L} {d0 d : D}

/-- Without the memory they are the states of the program. -/
theorem SharedReachable.reachable (h : SharedReachable prog eff init d0 s d) :
    Reachable prog (fun _ _ => True) init s := by
  induction h with
  | refl => exact .refl
  | move hs hm ih => exact .move ih trivial hm

/-- What holds at first and survives every move holds in every reachable state. -/
theorem SharedReachable.invariant {I : State T P M L → D → Prop} (h0 : I init d0)
    (hstep : ∀ s s' d t, SharedReachable prog eff init d0 s d → I s d → Move prog s t s' →
      I s' (eff.apply s t d))
    (h : SharedReachable prog eff init d0 s d) : I s d := by
  induction h with
  | refl => exact h0
  | move hs hm ih => exact hstep _ _ _ _ hs ih hm

/-! ## Computing runs -/

variable [DecidableEq C] [Fintype T]

/-- The moves of a schedule with their effects. -/
def sharedRun (prog : Program T P M C L) (eff : Effect P D) :
    State T P M L → D → List (T × T) → Option (State T P M L × D)
  | s, d, [] => some (s, d)
  | s, d, (t, u) :: schedule =>
    (step prog s t u).bind fun s' => sharedRun prog eff s' (eff.apply s t d) schedule

/-- What a schedule leads to is reachable. -/
theorem sharedReachable_run {s' : State T P M L} {d' : D} {schedule : List (T × T)}
    (h : sharedRun prog eff s d schedule = some (s', d'))
    (hs : SharedReachable prog eff init d0 s d) : SharedReachable prog eff init d0 s' d' := by
  induction schedule generalizing s d with
  | nil =>
    obtain ⟨rfl, rfl⟩ := Prod.mk.inj (Option.some.inj h)
    exact hs
  | cons entry schedule ih =>
    obtain ⟨s1, h1, h2⟩ := Option.bind_eq_some_iff.mp h
    exact ih h2 (.move hs (move_of_step h1))

end PtsTools.Lib.Pthread
