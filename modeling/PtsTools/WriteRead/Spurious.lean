import PtsTools.Lib.PthreadSpurious
import PtsTools.WriteRead.Snapshots

/-!
# `do_read` with wakeups that nobody asked for

`do_read` tests nothing behind `pthread_cond_wait`, and the wait may come back without a
signal.  Then it prints what is stored, a line that it has printed before, or the zeros
from before the first round: `shown_iff`.  It never shows the numbers of two
rounds in one line.

The first two stores of `do_write` are outside of the lock.  Only the order of the
signals keeps `do_read` away from them, so they race with a `do_read` that woke up
early, and nothing else does: `spurious_race_iff`.
-/

namespace PtsTools.WriteRead

open PtsTools.Lib.Pthread

variable {random : Nat → Nat} {s : PState} {d : Data}

/-- The states of the program, where `do_read` may wake up without a signal. -/
abbrev Wakes (random : Nat → Nat) : PState → Data → Prop :=
  SpuriousReachable program (effect random) initial initialData

/-! ## What is shown -/

/-- The line of the numbers that are stored before round `k`. -/
def shown (random : Nat → Nat) (k : Nat) : Line :=
  ⟨lastA random k, lastB random k, lastA random k + lastB random k⟩

/-- Outside of the critical section the numbers of the last round are stored. -/
theorem shown_of_stored {status : Status WritePoint} {a b : Nat} (h : Stored random status a b)
    (hfree : status.held WritePoint.holds = none) :
    (⟨a, b, a + b⟩ : Line) = shown random (rounds status) := by
  cases status with
  | finished | waiting p | woken p => exact absurd h id
  | absent =>
    obtain ⟨rfl, rfl⟩ := h
    rfl
  | ready p =>
    cases p with
    | setA k | setB k | signal k | unlock k => cases hfree
    | _ =>
      obtain ⟨rfl, rfl⟩ := h
      rfl

/-- The invariant with wakeups: the lines are those of rounds that do not decrease. -/
structure Shown (random : Nat → Nat) (v : View) (d : Data) : Prop where
  stored : Stored random v.write d.a d.b
  printed : ∃ ks : List Nat, ks.Pairwise (· ≤ ·) ∧ d.printed = ks.map (shown random) ∧
    ∀ k ∈ ks, k ≤ rounds v.write

/-- Every move keeps the invariant. -/
theorem Shown.next {v v' : View} {d d' : Data} (h : Shown random v d)
    (hex : v.read = .ready .print → v.write.held WritePoint.holds = none)
    (hn : Next random v d v' d') : Shown random v' d' := by
  obtain ⟨main, write, read⟩ := v
  obtain ⟨hstored, ks, hsorted, hprinted, hks⟩ := h
  cases hn with
  | joinWrite | joinRead | createRead | readLock | readWait | readRegain | readUnlock =>
    exact ⟨hstored, ks, hsorted, hprinted, hks⟩
  | createWrite h hw =>
    obtain rfl : write = _ := hw
    exact ⟨hstored, ks, hsorted, hprinted, hks⟩
  | initA h =>
    obtain rfl : write = _ := h
    exact ⟨⟨rfl, hstored.2⟩, ks, hsorted, hprinted, hks⟩
  | initB h =>
    obtain rfl : write = _ := h
    exact ⟨⟨hstored.1, rfl⟩, ks, hsorted, hprinted, hks⟩
  | writeLock h | writeUnlock h | sleep h =>
    obtain rfl : write = _ := h
    exact ⟨hstored, ks, hsorted, hprinted, hks⟩
  | setA h =>
    obtain rfl : write = _ := h
    exact ⟨⟨rfl, hstored.2⟩, ks, hsorted, hprinted, hks⟩
  | setB h =>
    obtain rfl : write = _ := h
    exact ⟨⟨hstored.1, rfl⟩, ks, hsorted, hprinted, hks⟩
  | wakes h hr | loses h hr =>
    obtain rfl : write = _ := h
    exact ⟨hstored, ks, hsorted, hprinted, fun k hk => Nat.le_succ_of_le (hks k hk)⟩
  | print h =>
    refine ⟨hstored, ks ++ [rounds write], ?_, ?_, ?_⟩
    · refine List.pairwise_append.mpr ⟨hsorted, List.pairwise_singleton _ _, ?_⟩
      intro k hk k' hk'
      rw [List.mem_singleton.mp hk']
      exact hks k hk
    · rw [List.map_append, List.map_singleton, ← shown_of_stored hstored (hex h), ← hprinted]
    · intro k hk
      rcases List.mem_append.mp hk with hk | hk
      · exact hks k hk
      · rw [List.mem_singleton.mp hk]

/-- So does a wakeup. -/
theorem Shown.wakeup (h : Shown random (view s) d) {t : Thread} {p : Point t}
    (hs : s.status t = .waiting p) : Shown random (view (s.set t (.woken p))) d := by
  cases t with
  | main => exact ⟨h.stored, h.printed⟩
  | doRead => exact ⟨h.stored, h.printed⟩
  | doWrite =>
    -- `do_write` waits for nothing
    have hwrite : (view s).write = .waiting p := hs
    have hstored := h.stored
    rw [hwrite] at hstored
    exact absurd hstored id

theorem owned_of_wakes (h : Wakes random s d) : Owned holds s :=
  h.invariant (I := fun s _ => Owned holds s) (owned_start singleLock .main)
    fun _ _ _ _ _ ih hm => ih.spurious singleLock hm

/-- The invariant holds in every state that is reached with wakeups. -/
theorem shown_of_wakes (h : Wakes random s d) : Shown random (view s) d := by
  apply h.invariant (I := fun s d => Shown random (view s) d)
  · exact ⟨⟨rfl, rfl⟩, [], List.Pairwise.nil, rfl, fun k hk => absurd hk List.not_mem_nil⟩
  · intro s s' d t hs ih hm
    cases hm with
    | move hm => exact ih.next (free_of_print (owned_of_wakes hs)) (next_of_move hm)
    | @wakeup p hp =>
      have heff : (effect random).apply s t d = d := by
        unfold Effect.apply
        rw [hp]
      rw [heff]
      exact ih.wakeup hp

/-! ## All of it can be shown -/

/-- A schedule in which `do_read` wakes up by itself. -/
def wakeEarly : List (Thread × Thread) := List.replicate 6 (.doRead, .doRead)

theorem early_shown (random : Nat → Nat) (k : Nat) (printed : List Line) :
    spuriousRun program (effect random) (between k) (stored random k printed) wakeEarly =
      some (between k, stored random k (printed ++ [shown random k])) :=
  eq_some_between rfl

theorem wakes_later {k n : Nat} {printed : List Line} (hkn : k ≤ n)
    (h : Wakes random (between k) (stored random k printed)) :
    Wakes random (between n) (stored random n printed) := by
  induction n, hkn using Nat.le_induction with
  | base => exact h
  | succ n _ ih =>
    exact spuriousReachable_run (spuriousRun_of_sharedRun (round_missed random n printed)) ih

/-- The lines of any rounds that do not decrease can have been printed, in front of any
round that is not earlier. -/
theorem wakes_lines {ks : List Nat} (hks : ks.Pairwise (· ≤ ·)) {n : Nat} (hn : ∀ k ∈ ks, k ≤ n) :
    Wakes random (between n) (stored random n (ks.map (shown random))) := by
  induction ks using List.reverseRecOn generalizing n with
  | nil =>
    have hstart := spuriousRun_of_sharedRun (starting_done random)
    exact wakes_later (Nat.zero_le n) (spuriousReachable_run hstart .refl)
  | append_singleton ks k ih =>
    obtain ⟨hks, _, hlast⟩ := List.pairwise_append.mp hks
    have hk : k ≤ n := hn k (List.mem_append_right _ (List.mem_singleton_self k))
    have hbefore := ih hks fun k' hk' => hlast k' hk' k (List.mem_singleton_self k)
    rw [List.map_append, List.map_singleton]
    exact wakes_later hk (spuriousReachable_run (early_shown random k _) hbefore)

/-- What `do_read` can have printed with wakeups: the lines of some rounds in their order,
each as often as it likes, and zeros in front of them. -/
theorem shown_iff (random : Nat → Nat) (printed : List Line) :
    (∃ s d, Wakes random s d ∧ d.printed = printed) ↔
      ∃ ks : List Nat, ks.Pairwise (· ≤ ·) ∧ printed = ks.map (shown random) := by
  constructor
  · intro h
    obtain ⟨s, d, hs, rfl⟩ := h
    obtain ⟨_, ks, hsorted, hprinted, _⟩ := shown_of_wakes hs
    exact ⟨ks, hsorted, hprinted⟩
  · intro h
    obtain ⟨ks, hsorted, rfl⟩ := h
    exact ⟨_, _, wakes_lines hsorted fun k hk => List.le_sum_of_mem hk, rfl⟩

/-! ## The race -/

/-- A schedule in which `do_read` is faster than the first store. -/
def overtake : List (Thread × Thread) :=
  List.replicate 2 (.main, .main) ++ List.replicate 4 (.doRead, .doRead)

theorem overtaken (random : Nat → Nat) :
    (spuriousRun program (effect random) initial initialData overtake).map
        (fun r => (r.1.status .doRead, r.1.status .doWrite)) =
      some (.ready ReadPoint.print, .ready WritePoint.initA) := rfl

/-- With wakeups there is a race, and it is always the one of the first two stores. -/
theorem spurious_race_iff (random : Nat → Nat) :
    (∃ s d, Wakes random s d ∧ Race s) ∧
      ∀ s d, Wakes random s d →
        (Race s ↔ s.status .doRead = .ready ReadPoint.print ∧ Initialising s) := by
  refine ⟨?_, fun s d h => race_iff (owned_of_wakes h)⟩
  obtain ⟨⟨s, d⟩, hrun, hobserved⟩ := Option.map_eq_some_iff.mp (overtaken random)
  obtain ⟨hread, hwrite⟩ := Prod.mk.inj hobserved
  have h : Wakes random s d := spuriousReachable_run hrun .refl
  exact ⟨s, d, h, (race_iff (owned_of_wakes h)).mpr ⟨hread, Or.inl hwrite⟩⟩

end PtsTools.WriteRead
