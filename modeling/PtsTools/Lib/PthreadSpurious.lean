import PtsTools.Lib.PthreadEnds
import PtsTools.Lib.PthreadShared

/-!
# Threads that wake up by themselves

A `wait` can come back without a signal.  `SpuriousMove` has these wakeups beside the
moves of the threads, and `SpuriousReachable` are the states with their memory that they
lead to.  A program that tests nothing behind its `wait` does more in them.

Who owns a mutex is told by the program points still, `Owned.spurious`, and a program
with weights stops still, `Weight.spuriousMoves_le`.  It stops only where no thread is
inside `wait`: `blocked_of_spuriouslyStuck`.
-/

namespace PtsTools.Lib.Pthread

variable {T : Type} {P : T → Type} {M C L D : Type} [DecidableEq T] [DecidableEq M]

/-! ## Moves and wakeups -/

/-- One step of the thread `t`, which may wake up without a signal. -/
inductive SpuriousMove (prog : Program T P M C L) (s : State T P M L) : T → State T P M L → Prop
  | move {t : T} {s' : State T P M L} (hm : Move prog s t s') : SpuriousMove prog s t s'
  | wakeup {t : T} {p : P t} (hs : s.status t = .waiting p) :
      SpuriousMove prog s t (s.set t (.woken p))

/-- No thread can move or wake up. -/
def SpuriouslyStuck (prog : Program T P M C L) (s : State T P M L) : Prop :=
  ∀ (t : T) (s' : State T P M L), ¬ SpuriousMove prog s t s'

/-- The states with memory that moves and wakeups reach. -/
inductive SpuriousReachable (prog : Program T P M C L) (eff : Effect P D) (init : State T P M L)
    (d0 : D) : State T P M L → D → Prop
  | refl : SpuriousReachable prog eff init d0 init d0
  | move {s s' : State T P M L} {d : D} {t : T} (hs : SpuriousReachable prog eff init d0 s d)
      (hm : SpuriousMove prog s t s') : SpuriousReachable prog eff init d0 s' (eff.apply s t d)

variable {prog : Program T P M C L} {eff : Effect P D} {init s : State T P M L} {d0 d : D}

/-- What holds at first and survives every move and every wakeup holds in every
reachable state. -/
theorem SpuriousReachable.invariant {I : State T P M L → D → Prop} (h0 : I init d0)
    (hstep : ∀ s s' d t, SpuriousReachable prog eff init d0 s d → I s d → SpuriousMove prog s t s' →
      I s' (eff.apply s t d))
    (h : SpuriousReachable prog eff init d0 s d) : I s d := by
  induction h with
  | refl => exact h0
  | move hs hm ih => exact hstep _ _ _ _ hs ih hm

/-- The memory does not decide what the threads do. -/
theorem Reachable.spurious {guard : State T P M L → T → Prop} (h : Reachable prog guard init s) :
    ∃ d, SpuriousReachable prog eff init d0 s d := by
  induction h with
  | refl => exact ⟨d0, .refl⟩
  | move _ _ hm ih =>
    obtain ⟨d, hd⟩ := ih
    exact ⟨_, hd.move (.move hm)⟩

/-! ## Computing runs -/

section Run

variable [DecidableEq C] [Fintype T]

/-- The move of the thread `t`, or its wakeup if it waits. -/
def spuriousStep (prog : Program T P M C L) (s : State T P M L) (t u : T) :
    Option (State T P M L) :=
  match s.status t with
  | .waiting p => some (s.set t (.woken p))
  | _ => step prog s t u

theorem spuriousMove_of_step {s' : State T P M L} {t u : T}
    (h : spuriousStep prog s t u = some s') : SpuriousMove prog s t s' := by
  unfold spuriousStep at h
  cases hs : s.status t with
  | waiting p =>
    rw [hs] at h
    obtain rfl := Option.some.inj h
    exact .wakeup hs
  | _ =>
    rw [hs] at h
    exact .move (move_of_step h)

/-- The moves and wakeups of a schedule with their effects. -/
def spuriousRun (prog : Program T P M C L) (eff : Effect P D) :
    State T P M L → D → List (T × T) → Option (State T P M L × D)
  | s, d, [] => some (s, d)
  | s, d, (t, u) :: schedule =>
    (spuriousStep prog s t u).bind fun s' => spuriousRun prog eff s' (eff.apply s t d) schedule

/-- A schedule without wakeups. -/
theorem spuriousRun_of_sharedRun {s' : State T P M L} {d' : D} {schedule : List (T × T)}
    (h : sharedRun prog eff s d schedule = some (s', d')) :
    spuriousRun prog eff s d schedule = some (s', d') := by
  induction schedule generalizing s d with
  | nil => exact h
  | cons entry schedule ih =>
    obtain ⟨t, u⟩ := entry
    obtain ⟨s1, h1, h2⟩ := Option.bind_eq_some_iff.mp h
    have hstep : spuriousStep prog s t u = some s1 := by
      unfold spuriousStep
      cases hs : s.status t with
      | waiting p =>
        unfold step at h1
        rw [hs] at h1
        cases h1
      | _ => exact h1
    show (spuriousStep prog s t u).bind _ = _
    rw [hstep]
    exact ih h2

/-- What a schedule leads to is reachable. -/
theorem spuriousReachable_run {s' : State T P M L} {d' : D} {schedule : List (T × T)}
    (h : spuriousRun prog eff s d schedule = some (s', d'))
    (hs : SpuriousReachable prog eff init d0 s d) : SpuriousReachable prog eff init d0 s' d' := by
  induction schedule generalizing s d with
  | nil =>
    obtain ⟨rfl, rfl⟩ := Prod.mk.inj (Option.some.inj h)
    exact hs
  | cons entry schedule ih =>
    obtain ⟨s1, h1, h2⟩ := Option.bind_eq_some_iff.mp h
    exact ih h2 (hs.move (spuriousMove_of_step h1))

end Run

/-! ## Programs that hold one mutex at a time -/

variable {holds : (t : T) → P t → Option M}

/-- A thread that wakes up holds nothing, as before. -/
theorem Owned.spurious (single : SingleLock prog holds) {s' : State T P M L} {t : T}
    (h : Owned holds s) (hm : SpuriousMove prog s t s') : Owned holds s' := by
  cases hm with
  | move hm => exact h.move single hm
  | wakeup hs => exact h.keep rfl (held_set_same (held_eq hs).symm)

/-- A thread that wakes up stands at its `wait`. -/
theorem Parked.spurious {s' : State T P M L} {t : T} (h : Parked prog s)
    (hm : SpuriousMove prog s t s') : Parked prog s' := by
  cases hm with
  | move hm => exact h.move hm
  | @wakeup p hs =>
    apply h.set
    intro q hq
    simp only [Status.woken.injEq, reduceCtorEq, false_or] at hq
    exact hq ▸ h t p (Or.inl hs)

/-- A thread that can neither move nor wake up waits for the end of another thread, if
it has not ended itself. -/
theorem blocked_of_spuriouslyStuck (single : SingleLock prog holds) (howned : Owned holds s)
    (hparked : Parked prog s)
    (hcreate : ∀ (t u : T) (p : P t), s.status t = .ready p → prog.op p = .create u →
      s.status u = .absent) (hstuck : SpuriouslyStuck prog s) (t : T) :
    s.status t = .absent ∨ s.status t = .finished ∨
      ∃ p u, s.status t = .ready p ∧ prog.op p = .join u ∧ s.status u ≠ .finished := by
  have hmoves : Stuck prog s := fun t s' hm => hstuck t s' (.move hm)
  cases blocked_of_owned single howned hparked hcreate hmoves t with
  | absent hs => exact Or.inl hs
  | finished hs => exact Or.inr (Or.inl hs)
  | waiting hs => exact absurd (.wakeup hs) (hstuck t _)
  | join hs hop hu => exact Or.inr (Or.inr ⟨_, _, hs, hop, hu⟩)

/-! ## Programs with weights -/

/-- A run of `n` moves and wakeups. -/
inductive SpuriousMoves (prog : Program T P M C L) : Nat → State T P M L → State T P M L → Prop
  | nil (s : State T P M L) : SpuriousMoves prog 0 s s
  | cons {s s' s'' : State T P M L} {t : T} {n : Nat} (hm : SpuriousMove prog s t s')
      (h : SpuriousMoves prog n s' s'') : SpuriousMoves prog (n + 1) s s''

/-- Every run from a state stops, if the threads that wait wake up at last, and where it
stops `Q` holds. -/
inductive SpuriouslyEndsIn (prog : Program T P M C L) (Q : State T P M L → Prop) :
    State T P M L → Prop
  | stop {s : State T P M L} (hstuck : SpuriouslyStuck prog s) (hq : Q s) :
      SpuriouslyEndsIn prog Q s
  | move {s : State T P M L} (hmove : ∃ t s', SpuriousMove prog s t s')
      (h : ∀ t s', SpuriousMove prog s t s' → SpuriouslyEndsIn prog Q s') :
      SpuriouslyEndsIn prog Q s

variable [Fintype T] (w : Weight prog)

theorem Weight.spurious_lt {s' : State T P M L} {t : T} (hm : SpuriousMove prog s t s') :
    w.total s' < w.total s := by
  cases hm with
  | move hm => exact w.total_lt hm
  | @wakeup p hs =>
    have hlt : w.status (.woken p) < w.status (s.status t) := by
      rw [hs]
      exact Nat.lt_succ_self _
    refine Finset.sum_lt_sum (fun u _ => w.set_le hlt.le u) ⟨t, Finset.mem_univ t, ?_⟩
    rw [State.set_status, Function.update_self]
    exact hlt

/-- No run has more moves and wakeups than the weight of the state that it starts from. -/
theorem Weight.spuriousMoves_le {s' : State T P M L} {n : Nat}
    (h : SpuriousMoves prog n s s') : n + w.total s' ≤ w.total s := by
  induction h with
  | nil s => exact (Nat.zero_add _).le
  | cons hm _ ih =>
    have hlt := w.spurious_lt hm
    omega

/-- Every run of a program with weights ends, in what the states of an invariant have in
common in which no thread can move or wake up. -/
theorem Weight.spuriouslyEndsIn (w : Weight prog) {I Q : State T P M L → Prop}
    (hI : ∀ s s' t, I s → SpuriousMove prog s t s' → I s')
    (hQ : ∀ s, I s → SpuriouslyStuck prog s → Q s) (h : I s) : SpuriouslyEndsIn prog Q s := by
  induction hn : w.total s using Nat.strong_induction_on generalizing s with
  | _ n ih =>
    by_cases hstuck : SpuriouslyStuck prog s
    · exact .stop hstuck (hQ s h hstuck)
    · have hmove : ∃ t s', SpuriousMove prog s t s' := by
        unfold SpuriouslyStuck at hstuck
        push Not at hstuck
        exact hstuck
      refine .move hmove ?_
      intro t s' hm
      have hlt : w.total s' < n := hn ▸ w.spurious_lt hm
      exact ih _ hlt (hI s s' t h hm) rfl

end PtsTools.Lib.Pthread
