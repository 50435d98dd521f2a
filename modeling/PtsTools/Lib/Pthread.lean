import Mathlib.Data.Fintype.Defs
import Mathlib.Logic.Function.Basic
import Mathlib.Tactic.Simps.Basic

/-!
# Threads with mutexes and condition variables

A `Program` gives every thread its code: the points it can stand at, what it
does there, and where it goes on.  A `State` has the status of every thread, the
owner of every mutex, and the lines that were printed.

`Move` is the step of one thread.  A mutex has one owner.  `wait` gives up the
mutex and starts to wait in one step, a signal wakes one of the threads that
wait at that moment and is lost when none does, and a woken thread goes on when
it gets the mutex back.  No thread wakes up by itself.  `step` computes the same
moves, `move_iff_step`.

The second part is about programs that never hold two mutexes, `SingleLock`.
The owner of a mutex can be read off the program points then, `owned_of_reachable`,
and where no thread can move, no mutex is held: `blocked_of_stuck` says what every
thread is waiting for.
-/

namespace PtsTools.Lib.Pthread

/-! ## Programs and states -/

/-- What a thread does at a point of its code. -/
inductive Op (T M C L : Type)
  | lock (m : M)
  | unlock (m : M)
  | wait (c : C) (m : M)
  | signal (c : C)
  | create (t : T)
  | join (t : T)
  | print (line : L)
  | delay
  deriving DecidableEq, Repr

/-- The code of all threads.  A thread without a next point has returned. -/
structure Program (T : Type) (P : T → Type) (M C L : Type) where
  entry : (t : T) → P t
  op : {t : T} → P t → Op T M C L
  next : {t : T} → P t → Option (P t)

/-- How a thread stands.  `waiting` is inside `wait` and not signalled, and `woken`
is inside `wait`, signalled, and without the mutex. -/
inductive Status (P : Type)
  | absent
  | ready (p : P)
  | waiting (p : P)
  | woken (p : P)
  | finished
  deriving DecidableEq, Repr

/-- A state of the process. -/
structure State (T : Type) (P : T → Type) (M L : Type) where
  status : (t : T) → Status (P t)
  owner : M → Option T
  printed : List L

variable {T : Type} {P : T → Type} {M C L : Type}

/-- The state with another status of one thread. -/
@[simps]
def State.set [DecidableEq T] (s : State T P M L) (t : T) (status : Status (P t)) : State T P M L :=
  { s with status := Function.update s.status t status }

/-- The state with another owner of one mutex. -/
@[simps]
def State.setOwner [DecidableEq M] (s : State T P M L) (m : M) (owner : Option T) : State T P M L :=
  { s with owner := Function.update s.owner m owner }

/-- The state after a line was printed. -/
@[simps]
def State.print (s : State T P M L) (line : L) : State T P M L :=
  { s with printed := s.printed ++ [line] }

/-- The status behind a program point. -/
def Program.after (prog : Program T P M C L) {t : T} (p : P t) : Status (P t) :=
  match prog.next p with
  | some q => .ready q
  | none => .finished

/-- The state in which only the thread `t` runs, at its entry. -/
def Program.start [DecidableEq T] (prog : Program T P M C L) (t : T) : State T P M L where
  status := Function.update (fun _ => .absent) t (.ready (prog.entry t))
  owner _ := none
  printed := []

/-- The thread `u` is inside `wait` on `c` and not signalled. -/
def Program.waitsOn [DecidableEq C] (prog : Program T P M C L) (s : State T P M L) (c : C)
    (u : T) : Bool :=
  match s.status u with
  | .waiting q =>
    match prog.op q with
    | .wait c' _ => c' = c
    | _ => false
  | _ => false

theorem waitsOn_iff [DecidableEq C] {prog : Program T P M C L} {s : State T P M L} {c : C} {u : T} :
    prog.waitsOn s c u ↔ ∃ q m, s.status u = .waiting q ∧ prog.op q = .wait c m := by
  unfold Program.waitsOn
  cases hu : s.status u with
  | waiting q => cases hq : prog.op q <;> simp [hq]
  | _ => simp

/-! ## What a thread holds -/

/-- The mutex that a thread holds, where `holds` says it for the program points.
Inside `wait` it holds none. -/
def Status.held {P : Type} (holds : P → Option M) (status : Status P) : Option M :=
  match status with
  | .ready p => holds p
  | _ => none

/-- The mutex that the thread `t` holds in a state. -/
def State.held (s : State T P M L) (holds : (t : T) → P t → Option M) (t : T) : Option M :=
  (s.status t).held (holds t)

theorem held_set_self [DecidableEq T] {holds : (t : T) → P t → Option M} (s : State T P M L)
    (t : T) (status : Status (P t)) : (s.set t status).held holds t = status.held (holds t) := by
  rw [State.held, State.set_status, Function.update_self]

theorem held_set_of_ne [DecidableEq T] {holds : (t : T) → P t → Option M} (s : State T P M L)
    {t u : T} (hu : u ≠ t) (status : Status (P t)) :
    (s.set t status).held holds u = s.held holds u := by
  rw [State.held, State.set_status, Function.update_of_ne hu, State.held]

theorem held_eq {holds : (t : T) → P t → Option M} {s : State T P M L} {t : T}
    {status : Status (P t)} (h : s.status t = status) :
    s.held holds t = status.held (holds t) := by
  rw [State.held, h]

/-- A thread that holds the same as before changes nothing. -/
theorem held_set_same [DecidableEq T] {holds : (t : T) → P t → Option M} {s : State T P M L} {t : T}
    {status : Status (P t)} (hsame : status.held (holds t) = s.held holds t) (u : T) :
    (s.set t status).held holds u = s.held holds u := by
  by_cases hu : u = t
  · subst hu
    rw [held_set_self, hsame]
  · rw [held_set_of_ne _ hu]

theorem held_setOwner [DecidableEq M] {holds : (t : T) → P t → Option M} (s : State T P M L)
    (m : M) (owner : Option T) (t : T) : (s.setOwner m owner).held holds t = s.held holds t := rfl

/-- The mutexes held before and after an operation, in a program that never holds
two. -/
def Op.Allows (op : Op T M C L) (before after : Option M) : Prop :=
  match op with
  | .lock m => before = none ∧ after = some m
  | .unlock m => before = some m ∧ after = none
  | .wait _ m => before = some m ∧ after = some m
  | .join _ => before = none ∧ after = none
  | _ => after = before

/-- A program in which `holds` says for every point the one mutex that is held
there. -/
structure SingleLock (prog : Program T P M C L) (holds : (t : T) → P t → Option M) : Prop where
  entry : ∀ t, holds t (prog.entry t) = none
  op : ∀ {t : T} (p : P t), (prog.op p).Allows (holds t p) ((prog.after p).held (holds t))

/-- A program point is left with what its operation leaves. -/
theorem SingleLock.after {prog : Program T P M C L} {holds : (t : T) → P t → Option M}
    (d : SingleLock prog holds) {t : T} {p : P t} {op : Op T M C L}
    (hop : prog.op p = op) : op.Allows (holds t p) ((prog.after p).held (holds t)) :=
  hop ▸ d.op p

/-- The owner of a mutex is the thread that stands where the mutex is held. -/
def Owned (holds : (t : T) → P t → Option M) (s : State T P M L) : Prop :=
  ∀ m t, s.owner m = some t ↔ s.held holds t = some m

/-- A step that changes neither owners nor what is held. -/
theorem Owned.keep {holds : (t : T) → P t → Option M} {s s' : State T P M L}
    (h : Owned holds s) (howner : s'.owner = s.owner)
    (hheld : ∀ t, s'.held holds t = s.held holds t) : Owned holds s' := by
  intro m t
  rw [howner, hheld]
  exact h m t

/-- Two threads never hold the same mutex. -/
theorem Owned.exclusive {holds : (t : T) → P t → Option M} {s : State T P M L}
    (h : Owned holds s) {m : M} {t u : T} (ht : s.held holds t = some m)
    (hu : s.held holds u = some m) : t = u := by
  have howner := (h m t).mpr ht
  rw [(h m u).mpr hu, Option.some.injEq] at howner
  exact howner.symm

/-! ## Moves -/

variable [DecidableEq T] [DecidableEq M]

/-- One step of the thread `t`. -/
inductive Move (prog : Program T P M C L) (s : State T P M L) : T → State T P M L → Prop
  | lock {t : T} {p : P t} {m : M} (hs : s.status t = .ready p) (hop : prog.op p = .lock m)
      (hfree : s.owner m = none) : Move prog s t ((s.setOwner m (some t)).set t (prog.after p))
  | unlock {t : T} {p : P t} {m : M} (hs : s.status t = .ready p) (hop : prog.op p = .unlock m)
      (hown : s.owner m = some t) : Move prog s t ((s.setOwner m none).set t (prog.after p))
  | wait {t : T} {p : P t} {c : C} {m : M} (hs : s.status t = .ready p)
      (hop : prog.op p = .wait c m) (hown : s.owner m = some t) :
      Move prog s t ((s.setOwner m none).set t (.waiting p))
  | regain {t : T} {p : P t} {c : C} {m : M} (hs : s.status t = .woken p)
      (hop : prog.op p = .wait c m) (hfree : s.owner m = none) :
      Move prog s t ((s.setOwner m (some t)).set t (prog.after p))
  | wake {t u : T} {p : P t} {q : P u} {c : C} {m : M} (hs : s.status t = .ready p)
      (hop : prog.op p = .signal c) (hu : s.status u = .waiting q)
      (hq : prog.op q = .wait c m) :
      Move prog s t ((s.set u (.woken q)).set t (prog.after p))
  | lost {t : T} {p : P t} {c : C} (hs : s.status t = .ready p) (hop : prog.op p = .signal c)
      (hnone : ∀ (u : T) (q : P u) (m : M), s.status u = .waiting q → prog.op q ≠ .wait c m) :
      Move prog s t (s.set t (prog.after p))
  | create {t u : T} {p : P t} (hs : s.status t = .ready p) (hop : prog.op p = .create u)
      (hu : s.status u = .absent) :
      Move prog s t ((s.set u (.ready (prog.entry u))).set t (prog.after p))
  | join {t u : T} {p : P t} (hs : s.status t = .ready p) (hop : prog.op p = .join u)
      (hu : s.status u = .finished) : Move prog s t (s.set t (prog.after p))
  | print {t : T} {p : P t} {line : L} (hs : s.status t = .ready p)
      (hop : prog.op p = .print line) : Move prog s t ((s.print line).set t (prog.after p))
  | delay {t : T} {p : P t} (hs : s.status t = .ready p) (hop : prog.op p = .delay) :
      Move prog s t (s.set t (prog.after p))

/-- No thread can move. -/
def Stuck (prog : Program T P M C L) (s : State T P M L) : Prop :=
  ∀ (t : T) (s' : State T P M L), ¬ Move prog s t s'

/-- A thread was created and has not returned, and no thread can move. -/
def Deadlocked (prog : Program T P M C L) (s : State T P M L) : Prop :=
  (∃ t, s.status t ≠ .absent ∧ s.status t ≠ .finished) ∧ Stuck prog s

/-- The states that moves reach from `init`, where every move of a thread `t` from
a state `s` meets the condition `guard s t`. -/
inductive Reachable (prog : Program T P M C L) (guard : State T P M L → T → Prop)
    (init : State T P M L) : State T P M L → Prop
  | refl : Reachable prog guard init init
  | move {s s' : State T P M L} {t : T} (hs : Reachable prog guard init s) (hg : guard s t)
      (hm : Move prog s t s') : Reachable prog guard init s'

variable {prog : Program T P M C L} {guard : State T P M L → T → Prop} {init s : State T P M L}

/-- What holds at first and survives every move holds in every reachable state. -/
theorem Reachable.invariant {I : State T P M L → Prop} (h0 : I init)
    (hstep : ∀ s s' t, Reachable prog guard init s → I s → guard s t → Move prog s t s' → I s')
    (h : Reachable prog guard init s) : I s := by
  induction h with
  | refl => exact h0
  | move hs hg hm ih => exact hstep _ _ _ hs ih hg hm

/-- A weaker condition reaches more. -/
theorem Reachable.mono {guard' : State T P M L → T → Prop}
    (hmono : ∀ s t, Reachable prog guard init s → guard s t → guard' s t)
    (h : Reachable prog guard init s) : Reachable prog guard' init s := by
  induction h with
  | refl => exact .refl
  | move hs hg hm ih => exact .move ih (hmono _ _ hs hg) hm

/-! ## Computing moves -/

section Step

variable [DecidableEq C] [Fintype T]

/-- The move of the thread `t`, if it can move.  A signal wakes `u`. -/
def step (prog : Program T P M C L) (s : State T P M L) (t u : T) : Option (State T P M L) :=
  match s.status t with
  | .ready p =>
    match prog.op p with
    | .lock m =>
      if s.owner m = none then some ((s.setOwner m (some t)).set t (prog.after p)) else none
    | .unlock m =>
      if s.owner m = some t then some ((s.setOwner m none).set t (prog.after p)) else none
    | .wait _ m =>
      if s.owner m = some t then some ((s.setOwner m none).set t (.waiting p)) else none
    | .signal c =>
      if ∃ v, prog.waitsOn s c v then
        match s.status u with
        | .waiting q =>
          if prog.waitsOn s c u then some ((s.set u (.woken q)).set t (prog.after p)) else none
        | _ => none
      else some (s.set t (prog.after p))
    | .create v =>
      match s.status v with
      | .absent => some ((s.set v (.ready (prog.entry v))).set t (prog.after p))
      | _ => none
    | .join v =>
      match s.status v with
      | .finished => some (s.set t (prog.after p))
      | _ => none
    | .print line => some ((s.print line).set t (prog.after p))
    | .delay => some (s.set t (prog.after p))
  | .woken p =>
    match prog.op p with
    | .wait _ m =>
      if s.owner m = none then some ((s.setOwner m (some t)).set t (prog.after p)) else none
    | _ => none
  | _ => none

/-- What the function computes is a move. -/
theorem move_of_step {s s' : State T P M L} {t u : T} (h : step prog s t u = some s') :
    Move prog s t s' := by
  unfold step at h
  cases hs : s.status t with
  | absent => simp [hs] at h
  | waiting p => simp [hs] at h
  | finished => simp [hs] at h
  | woken p =>
    cases hop : prog.op p with
    | wait c m =>
      simp only [hs, hop, Option.ite_none_right_eq_some, Option.some.injEq] at h
      obtain ⟨hfree, rfl⟩ := h
      exact .regain hs hop hfree
    | _ => simp [hs, hop] at h
  | ready p =>
    cases hop : prog.op p with
    | lock m =>
      simp only [hs, hop, Option.ite_none_right_eq_some, Option.some.injEq] at h
      obtain ⟨hfree, rfl⟩ := h
      exact .lock hs hop hfree
    | unlock m =>
      simp only [hs, hop, Option.ite_none_right_eq_some, Option.some.injEq] at h
      obtain ⟨hown, rfl⟩ := h
      exact .unlock hs hop hown
    | wait c m =>
      simp only [hs, hop, Option.ite_none_right_eq_some, Option.some.injEq] at h
      obtain ⟨hown, rfl⟩ := h
      exact .wait hs hop hown
    | signal c =>
      simp only [hs, hop] at h
      by_cases hsome : ∃ v, prog.waitsOn s c v
      · rw [if_pos hsome] at h
        cases hu : s.status u with
        | waiting q =>
          simp only [hu, Option.ite_none_right_eq_some, Option.some.injEq] at h
          obtain ⟨hwaits, rfl⟩ := h
          obtain ⟨q', m, hq', hq⟩ := waitsOn_iff.mp hwaits
          rw [hu, Status.waiting.injEq] at hq'
          subst hq'
          exact .wake hs hop hu hq
        | _ => simp [hu] at h
      · rw [if_neg hsome, Option.some.injEq] at h
        subst h
        refine .lost hs hop fun v q m hv hq => hsome ⟨v, ?_⟩
        exact waitsOn_iff.mpr ⟨q, m, hv, hq⟩
    | create v =>
      cases hv : s.status v with
      | absent =>
        simp only [hs, hop, hv, Option.some.injEq] at h
        subst h
        exact .create hs hop hv
      | _ => simp [hs, hop, hv] at h
    | join v =>
      cases hv : s.status v with
      | finished =>
        simp only [hs, hop, hv, Option.some.injEq] at h
        subst h
        exact .join hs hop hv
      | _ => simp [hs, hop, hv] at h
    | print line =>
      simp only [hs, hop, Option.some.injEq] at h
      subst h
      exact .print hs hop
    | delay =>
      simp only [hs, hop, Option.some.injEq] at h
      subst h
      exact .delay hs hop

/-- The moves of a thread are the ones that the function computes. -/
theorem move_iff_step {s s' : State T P M L} {t : T} :
    Move prog s t s' ↔ ∃ u, step prog s t u = some s' := by
  constructor
  · intro h
    unfold step
    cases h with
    | @wake u p q c m hs hop hu hq =>
      have hwaits := waitsOn_iff.mpr ⟨q, m, hu, hq⟩
      refine ⟨u, ?_⟩
      simp only [hs, hop]
      rw [if_pos ⟨u, hwaits⟩]
      simp [hu, hwaits]
    | lost hs hop hnone =>
      refine ⟨t, ?_⟩
      simp only [hs, hop]
      rw [if_neg]
      intro hsome
      rcases hsome with ⟨v, hv⟩
      obtain ⟨q, m, hq, hqm⟩ := waitsOn_iff.mp hv
      exact hnone v q m hq hqm
    | lock hs hop hfree => exact ⟨t, by simp [hs, hop, hfree]⟩
    | unlock hs hop hown => exact ⟨t, by simp [hs, hop, hown]⟩
    | wait hs hop hown => exact ⟨t, by simp [hs, hop, hown]⟩
    | regain hs hop hfree => exact ⟨t, by simp [hs, hop, hfree]⟩
    | create hs hop hu => exact ⟨t, by simp [hs, hop, hu]⟩
    | join hs hop hu => exact ⟨t, by simp [hs, hop, hu]⟩
    | print hs hop => exact ⟨t, by simp [hs, hop]⟩
    | delay hs hop => exact ⟨t, by simp [hs, hop]⟩
  · intro hsome
    rcases hsome with ⟨u, h⟩
    exact move_of_step h

/-- The moves of the threads of a schedule, each with the thread that a signal
wakes. -/
def run (prog : Program T P M C L) : State T P M L → List (T × T) → Option (State T P M L)
  | s, [] => some s
  | s, (t, u) :: schedule => (step prog s t u).bind fun s' => run prog s' schedule

/-- What a schedule leads to is reachable. -/
theorem reachable_run {init s s' : State T P M L} {schedule : List (T × T)}
    (h : run prog s schedule = some s') (hs : Reachable prog (fun _ _ => True) init s) :
    Reachable prog (fun _ _ => True) init s' := by
  induction schedule generalizing s with
  | nil =>
    obtain rfl := Option.some.inj h
    exact hs
  | cons entry schedule ih =>
    obtain ⟨s1, h1, h2⟩ := Option.bind_eq_some_iff.mp h
    exact ih h2 (.move hs trivial (move_of_step h1))

/-- A property that a schedule reaches holds in a reachable state. -/
theorem exists_reachable_of_run (prog : Program T P M C L) (init : State T P M L)
    (schedule : List (T × T)) {p : State T P M L → Bool}
    (h : (run prog init schedule).any p = true) :
    ∃ s, Reachable prog (fun _ _ => True) init s ∧ p s = true := by
  obtain ⟨s, hs, hp⟩ := (Option.any_eq_true _ _).mp h
  exact ⟨s, reachable_run hs .refl, hp⟩

end Step

/-! ## Programs that hold one mutex at a time -/

variable {holds : (t : T) → P t → Option M} {t0 : T}

/-- A thread that holds nothing takes a free mutex. -/
theorem Owned.take {s : State T P M L} (h : Owned holds s) {m : M} {t : T} {status : Status (P t)}
    (hfree : s.owner m = none) (hnone : s.held holds t = none)
    (hsome : status.held (holds t) = some m) :
    Owned holds ((s.setOwner m (some t)).set t status) := by
  intro m' v
  rw [State.set_owner, State.setOwner_owner]
  have hm' := h m' v
  by_cases hm : m' = m
  · subst hm
    rw [Function.update_self, Option.some.injEq]
    by_cases hv : v = t
    · subst hv
      rw [held_set_self, hsome]
      exact iff_of_true rfl rfl
    · rw [held_set_of_ne _ hv, held_setOwner]
      apply iff_of_false (fun heq => hv heq.symm)
      intro heq
      rw [hm'.mpr heq] at hfree
      exact absurd hfree (by simp)
  · rw [Function.update_of_ne hm]
    by_cases hv : v = t
    · subst hv
      rw [held_set_self, hsome, Option.some.injEq, hm', hnone]
      exact iff_of_false (by simp) fun heq => hm heq.symm
    · rw [held_set_of_ne _ hv, held_setOwner]
      exact hm'

/-- A thread gives up the mutex that it holds. -/
theorem Owned.release {s : State T P M L} (h : Owned holds s) {m : M} {t : T}
    {status : Status (P t)} (hheld : s.held holds t = some m)
    (hnone : status.held (holds t) = none) :
    Owned holds ((s.setOwner m none).set t status) := by
  intro m' v
  rw [State.set_owner, State.setOwner_owner]
  have hm' := h m' v
  by_cases hv : v = t
  · subst hv
    rw [held_set_self, hnone]
    refine iff_of_false (fun heq => ?_) (by simp)
    by_cases hm : m' = m
    · rw [hm, Function.update_self] at heq
      exact absurd heq (by simp)
    · rw [Function.update_of_ne hm, hm', hheld, Option.some.injEq] at heq
      exact hm heq.symm
  · rw [held_set_of_ne _ hv, held_setOwner]
    by_cases hm : m' = m
    · subst hm
      rw [Function.update_self]
      apply iff_of_false (by simp)
      intro heq
      have howner : s.owner m' = some t := (h m' t).mpr hheld
      rw [hm'.mpr heq, Option.some.injEq] at howner
      exact hv howner
    · rw [Function.update_of_ne hm]
      exact hm'

omit [DecidableEq M] in
theorem owned_start (d : SingleLock prog holds) (t0 : T) : Owned holds (prog.start t0) := by
  intro m t
  apply iff_of_false (by simp [Program.start])
  intro hheld
  by_cases ht : t = t0
  · subst ht
    simp [State.held, Program.start, Status.held, d.entry] at hheld
  · simp [State.held, Program.start, Status.held, Function.update_of_ne ht] at hheld

/-- What a thread holds behind its operation is what the operation allows, so a move keeps
the owners where the points say. -/
theorem Owned.move (d : SingleLock prog holds) {s' : State T P M L} {t : T} (h : Owned holds s)
    (hm : Move prog s t s') : Owned holds s' := by
  cases hm with
  | lock hs hop hfree => exact h.take hfree ((held_eq hs).trans (d.after hop).1) (d.after hop).2
  | unlock hs hop hown =>
    exact h.release ((held_eq hs).trans (d.after hop).1) (d.after hop).2
  | wait hs hop hown => exact h.release ((held_eq hs).trans (d.after hop).1) rfl
  | regain hs hop hfree => exact h.take hfree (held_eq hs) (d.after hop).2
  | @wake u p q c m hs hop hu hq =>
    have hwoken : ∀ v, (s.set u (.woken q)).held holds v = s.held holds v :=
      held_set_same (held_eq hu).symm
    have hkeep : Owned holds (s.set u (.woken q)) := h.keep rfl hwoken
    refine hkeep.keep rfl (held_set_same ?_)
    rw [hwoken, held_eq hs]
    exact d.after hop
  | lost hs hop hnone =>
    exact h.keep rfl (held_set_same ((d.after hop).trans (held_eq hs).symm))
  | @create u p hs hop hu =>
    have hready : ∀ v, (s.set u (.ready (prog.entry u))).held holds v = s.held holds v :=
      held_set_same ((d.entry u).trans (held_eq hu).symm)
    have hkeep : Owned holds (s.set u (.ready (prog.entry u))) := h.keep rfl hready
    refine hkeep.keep rfl (held_set_same ?_)
    rw [hready, held_eq hs]
    exact d.after hop
  | join hs hop hu =>
    refine h.keep rfl (held_set_same ?_)
    rw [held_eq hs]
    exact (d.after hop).2.trans (d.after hop).1.symm
  | print hs hop => exact h.keep rfl (held_set_same ((d.after hop).trans (held_eq hs).symm))
  | delay hs hop => exact h.keep rfl (held_set_same ((d.after hop).trans (held_eq hs).symm))

/-- The owners can be read off the program points in every reachable state. -/
theorem owned_of_reachable (d : SingleLock prog holds)
    (h : Reachable prog guard (prog.start t0) s) : Owned holds s :=
  h.invariant (I := Owned holds) (owned_start d t0) fun _ _ _ _ ih _ hm => ih.move d hm

/-! ## Where every thread stands when none can move -/

/-- A thread inside `wait` stands at a `wait`. -/
def Parked (prog : Program T P M C L) (s : State T P M L) : Prop :=
  ∀ (t : T) (p : P t), s.status t = .waiting p ∨ s.status t = .woken p →
    ∃ c m, prog.op p = .wait c m

omit [DecidableEq M] in
theorem Parked.set {s : State T P M L} (h : Parked prog s) {t : T} {status : Status (P t)}
    (hstatus : ∀ p, status = .waiting p ∨ status = .woken p → ∃ c m, prog.op p = .wait c m) :
    Parked prog (s.set t status) := by
  intro v p hp
  rw [State.set_status] at hp
  by_cases hv : v = t
  · subst hv
    rw [Function.update_self] at hp
    exact hstatus p hp
  · rw [Function.update_of_ne hv] at hp
    exact h v p hp

omit [DecidableEq M] in
/-- Behind an operation a thread is not inside `wait`. -/
theorem Parked.advance {s : State T P M L} (h : Parked prog s) {t : T} (p : P t) :
    Parked prog (s.set t (prog.after p)) := by
  apply h.set
  intro q hq
  unfold Program.after at hq
  cases hn : prog.next p <;> simp [hn] at hq

omit [DecidableEq M] in
theorem parked_start (prog : Program T P M C L) (t0 : T) : Parked prog (prog.start t0) := by
  have hnone : Parked prog (⟨fun _ => .absent, fun _ => none, []⟩ : State T P M L) := by
    intro v p hp
    simp at hp
  exact hnone.set fun p hp => by simp at hp

theorem Parked.move {s' : State T P M L} {t : T} (h : Parked prog s) (hm : Move prog s t s') :
    Parked prog s' := by
  cases hm with
  | lock hs hop hfree => exact Parked.advance (s := s.setOwner _ _) h _
  | unlock hs hop hown => exact Parked.advance (s := s.setOwner _ _) h _
  | @wait p c m hs hop hown =>
    apply Parked.set (s := s.setOwner _ _) h
    intro q hq
    simp only [Status.waiting.injEq, reduceCtorEq, or_false] at hq
    exact ⟨c, m, hq ▸ hop⟩
  | regain hs hop hfree => exact Parked.advance (s := s.setOwner _ _) h _
  | @wake u p q c m hs hop hu hq =>
    refine Parked.advance (Parked.set h fun q' hq' => ?_) _
    simp only [Status.woken.injEq, reduceCtorEq, false_or] at hq'
    exact ⟨c, m, hq' ▸ hq⟩
  | lost hs hop hnone => exact h.advance _
  | create hs hop hu => exact Parked.advance (Parked.set h fun q hq => by simp at hq) _
  | join hs hop hu => exact h.advance _
  | print hs hop => exact Parked.advance (s := s.print _) h _
  | delay hs hop => exact h.advance _

theorem parked_of_reachable (h : Reachable prog guard (prog.start t0) s) : Parked prog s :=
  h.invariant (I := Parked prog) (parked_start prog t0) fun _ _ _ _ ih _ hm => ih.move hm

/-- A thread before a signal can move. -/
theorem signal_moves {t : T} {p : P t} {c : C} (hs : s.status t = .ready p)
    (hop : prog.op p = .signal c) : ∃ s', Move prog s t s' := by
  by_cases h : ∃ (u : T) (q : P u) (m : M), s.status u = .waiting q ∧ prog.op q = .wait c m
  · obtain ⟨u, q, m, hu, hq⟩ := h
    exact ⟨_, .wake hs hop hu hq⟩
  · exact ⟨_, .lost hs hop fun u q m hu hq => h ⟨u, q, m, hu, hq⟩⟩

/-- What a thread is waiting for in a state in which no thread can move. -/
inductive Blocked (prog : Program T P M C L) (s : State T P M L) (t : T) : Prop
  | absent (hs : s.status t = .absent)
  | finished (hs : s.status t = .finished)
  | waiting {p : P t} (hs : s.status t = .waiting p)
  | join {p : P t} {u : T} (hs : s.status t = .ready p) (hop : prog.op p = .join u)
      (hu : s.status u ≠ .finished)

/-- Where no thread can move, no mutex is held: its owner could move. -/
theorem unowned_of_stuck (howned : Owned holds s) (d : SingleLock prog holds)
    (hcreate : ∀ (t u : T) (p : P t), s.status t = .ready p → prog.op p = .create u →
      s.status u = .absent) (hstuck : Stuck prog s) (m : M) : s.owner m = none := by
  by_contra hne
  obtain ⟨t, ht⟩ := Option.ne_none_iff_exists'.mp hne
  have hheld := (howned m t).mp ht
  cases hs : s.status t with
  | ready p =>
    have hp : holds t p = some m := by
      rw [← hheld, held_eq hs, Status.held]
    have hown : ∀ m', holds t p = some m' → s.owner m' = some t := fun m' hm' =>
      (howned m' t).mpr ((held_eq hs).trans hm')
    cases hop : prog.op p with
    | lock m' =>
      rw [(d.after hop).1] at hp
      exact absurd hp (by simp)
    | unlock m' => exact hstuck t _ (.unlock hs hop (hown m' (d.after hop).1))
    | wait c m' => exact hstuck t _ (.wait hs hop (hown m' (d.after hop).1))
    | signal c =>
      obtain ⟨s', hmove⟩ := signal_moves hs hop
      exact hstuck t s' hmove
    | create u => exact hstuck t _ (.create hs hop (hcreate t u p hs hop))
    | join u =>
      rw [(d.after hop).1] at hp
      exact absurd hp (by simp)
    | print line => exact hstuck t _ (.print hs hop)
    | delay => exact hstuck t _ (.delay hs hop)
  | _ =>
    rw [held_eq hs] at hheld
    simp [Status.held] at hheld

/-- So a thread that cannot move waits for a signal or for the end of another
thread. -/
theorem blocked_of_owned (d : SingleLock prog holds) (howned : Owned holds s)
    (hparked : Parked prog s)
    (hcreate : ∀ (t u : T) (p : P t), s.status t = .ready p → prog.op p = .create u →
      s.status u = .absent) (hstuck : Stuck prog s) (t : T) : Blocked prog s t := by
  have hfree := unowned_of_stuck howned d hcreate hstuck
  cases hs : s.status t with
  | absent => exact .absent hs
  | finished => exact .finished hs
  | waiting p => exact .waiting hs
  | woken p =>
    obtain ⟨c, m, hop⟩ := hparked t p (Or.inr hs)
    exact absurd (.regain hs hop (hfree m)) (hstuck t _)
  | ready p =>
    have hnone : ∀ m, holds t p ≠ some m := by
      intro m hm
      have howner := (howned m t).mpr ((held_eq hs).trans hm)
      rw [hfree m] at howner
      exact absurd howner (by simp)
    cases hop : prog.op p with
    | lock m => exact absurd (.lock hs hop (hfree m)) (hstuck t _)
    | unlock m => exact absurd (d.after hop).1 (hnone m)
    | wait c m => exact absurd (d.after hop).1 (hnone m)
    | signal c =>
      obtain ⟨s', hmove⟩ := signal_moves hs hop
      exact absurd hmove (hstuck t s')
    | create u => exact absurd (.create hs hop (hcreate t u p hs hop)) (hstuck t _)
    | join u =>
      by_cases hu : s.status u = .finished
      · exact absurd (.join hs hop hu) (hstuck t _)
      · exact .join hs hop hu
    | print line => exact absurd (.print hs hop) (hstuck t _)
    | delay => exact absurd (.delay hs hop) (hstuck t _)

/-- This holds of every reachable state. -/
theorem blocked_of_stuck (d : SingleLock prog holds)
    (h : Reachable prog guard (prog.start t0) s)
    (hcreate : ∀ (t u : T) (p : P t), s.status t = .ready p → prog.op p = .create u →
      s.status u = .absent) (hstuck : Stuck prog s) (t : T) : Blocked prog s t :=
  blocked_of_owned d (owned_of_reachable d h) (parked_of_reachable h) hcreate hstuck t

end PtsTools.Lib.Pthread
