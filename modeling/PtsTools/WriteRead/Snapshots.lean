import Mathlib.Algebra.Order.BigOperators.Group.List
import Mathlib.Algebra.Order.Group.Nat
import Mathlib.Data.List.Induction
import PtsTools.WriteRead.Model

/-!
# What `do_read` sees

The invariant `Consistent` ties the memory to the point of `do_write`, and the
printed lines to the rounds of `do_write` whose signal was sent.  A thread that is
out of its wait was woken by a signal that is newer than all printed lines, so every
line shows the two numbers of one round, and no round is shown twice:
`consistent_of_reaches`.

Rounds can be missed, any of them.  A signal is lost while `do_read` does not wait,
and `printed_iff` says that the lines of any increasing sequence of rounds, and no
others, can be what was printed.
-/

namespace PtsTools.WriteRead

open PtsTools.Lib.Pthread

variable {random : Nat → Nat} {s : PState} {d : Data}

/-! ## Rounds -/

/-- The number that was stored last in `a` before round `k`. -/
def lastA (random : Nat → Nat) : Nat → Nat
  | 0 => 0
  | k + 1 => random (2 * k) % 6000

/-- The number that was stored last in `b` before round `k`. -/
def lastB (random : Nat → Nat) : Nat → Nat
  | 0 => 0
  | k + 1 => random (2 * k + 1) % 6000

/-- The line of round `k`. -/
def line (random : Nat → Nat) (k : Nat) : Line :=
  ⟨random (2 * k) % 6000, random (2 * k + 1) % 6000,
    random (2 * k) % 6000 + random (2 * k + 1) % 6000⟩

/-- The number of rounds whose signal was sent. -/
def rounds : Status WritePoint → Nat
  | .absent | .finished => 0
  | .ready p | .waiting p | .woken p =>
    match p with
    | .initA | .initB => 0
    | .lock k | .setA k | .setB k | .signal k => k
    | .unlock k | .sleep k => k + 1

/-- What is stored, by the point of `do_write`.  The thread does not end, and waits
for nothing. -/
def Stored (random : Nat → Nat) (status : Status WritePoint) (a b : Nat) : Prop :=
  match status with
  | .absent | .ready .initA | .ready .initB => a = 0 ∧ b = 0
  | .ready (.lock k) | .ready (.setA k) => a = lastA random k ∧ b = lastB random k
  | .ready (.setB k) => a = lastA random (k + 1) ∧ b = lastB random k
  | .ready (.signal k) | .ready (.unlock k) | .ready (.sleep k) =>
    a = lastA random (k + 1) ∧ b = lastB random (k + 1)
  | .finished | .waiting _ | .woken _ => False

/-- Where `do_read` has got a signal that it has not answered with a line. -/
def notified : Status ReadPoint → Bool
  | .woken _ | .ready .print => true
  | _ => false

/-- The invariant of the program. -/
structure Consistent (random : Nat → Nat) (v : View) (d : Data) : Prop where
  stored : Stored random v.write d.a d.b
  printed : ∃ ks : List Nat, ks.Pairwise (· < ·) ∧ d.printed = ks.map (line random) ∧
    if notified v.read then (∀ k ∈ ks, k + 1 < rounds v.write) ∧ 0 < rounds v.write
    else ∀ k ∈ ks, k < rounds v.write

/-- Between two rounds the numbers of the last one are stored. -/
theorem line_of_stored {status : Status WritePoint} {a b : Nat} (h : Stored random status a b)
    (hfree : (status.held WritePoint.holds) = none) (hrounds : 0 < rounds status) :
    (⟨a, b, a + b⟩ : Line) = line random (rounds status - 1) := by
  cases status with
  | absent | finished => exact absurd hrounds (Nat.lt_irrefl 0)
  | waiting p | woken p => exact absurd h id
  | ready p =>
    cases p with
    | initA | initB => exact absurd hrounds (Nat.lt_irrefl 0)
    | setA k | setB k | signal k | unlock k => cases hfree
    | lock k =>
      obtain ⟨rfl, rfl⟩ := h
      cases k with
      | zero => exact absurd hrounds (Nat.lt_irrefl 0)
      | succ k => rfl
    | sleep k =>
      obtain ⟨rfl, rfl⟩ := h
      rfl

/-- Every move keeps the invariant.  While `do_read` prints, `do_write` is not
between its lock and its unlock. -/
theorem Consistent.next {v v' : View} {d d' : Data} (h : Consistent random v d)
    (hex : v.read = .ready .print → v.write.held WritePoint.holds = none)
    (hn : Next random v d v' d') : Consistent random v' d' := by
  obtain ⟨main, write, read⟩ := v
  obtain ⟨hstored, ks, hsorted, hprinted, hks⟩ := h
  cases hn with
  | joinWrite | joinRead => exact ⟨hstored, ks, hsorted, hprinted, hks⟩
  | createWrite h hw =>
    obtain rfl : write = _ := hw
    exact ⟨hstored, ks, hsorted, hprinted, hks⟩
  | createRead h hr =>
    obtain rfl : read = _ := hr
    exact ⟨hstored, ks, hsorted, hprinted, hks⟩
  | initA h =>
    obtain rfl : write = _ := h
    exact ⟨⟨rfl, hstored.2⟩, ks, hsorted, hprinted, hks⟩
  | initB h =>
    obtain rfl : write = _ := h
    exact ⟨⟨hstored.1, rfl⟩, ks, hsorted, hprinted, hks⟩
  | writeLock h | writeUnlock h | sleep h =>
    obtain rfl : write = _ := h
    exact ⟨hstored, ks, hsorted, hprinted, hks⟩
  | setA h =>
    obtain rfl : write = _ := h
    exact ⟨⟨rfl, hstored.2⟩, ks, hsorted, hprinted, hks⟩
  | setB h =>
    obtain rfl : write = _ := h
    exact ⟨⟨hstored.1, rfl⟩, ks, hsorted, hprinted, hks⟩
  | @wakes k h hr =>
    obtain rfl : write = _ := h
    obtain rfl : read = _ := hr
    refine ⟨hstored, ks, hsorted, hprinted, ?_, Nat.succ_pos k⟩
    intro k' hk'
    exact Nat.succ_lt_succ (hks k' hk')
  | @loses k h hr =>
    obtain rfl : write = _ := h
    refine ⟨hstored, ks, hsorted, hprinted, ?_⟩
    show if notified read then (∀ k' ∈ ks, k' + 1 < k + 1) ∧ 0 < k + 1 else ∀ k' ∈ ks, k' < k + 1
    split_ifs at hks ⊢
    · exact ⟨fun k' hk' => Nat.lt_succ_of_lt (hks.1 k' hk'), Nat.succ_pos k⟩
    · exact fun k' hk' => Nat.lt_succ_of_lt (hks k' hk')
  | readLock h | readWait h | readUnlock h =>
    obtain rfl : read = _ := h
    exact ⟨hstored, ks, hsorted, hprinted, hks⟩
  | readRegain h =>
    obtain rfl : read = _ := h
    exact ⟨hstored, ks, hsorted, hprinted, hks⟩
  | print h =>
    obtain rfl : read = _ := h
    obtain ⟨hnewer, hrounds⟩ := hks
    refine ⟨hstored, ks ++ [rounds write - 1], ?_, ?_, ?_⟩
    · refine List.pairwise_append.mpr ⟨hsorted, List.pairwise_singleton _ _, ?_⟩
      intro k hk k' hk'
      rw [List.mem_singleton.mp hk']
      exact Nat.lt_sub_of_add_lt (hnewer k hk)
    · rw [List.map_append, List.map_singleton, ← line_of_stored hstored (hex rfl) hrounds,
        ← hprinted]
    · intro k hk
      rcases List.mem_append.mp hk with hk | hk
      · exact Nat.lt_of_succ_lt (hnewer k hk)
      · rw [List.mem_singleton.mp hk]
        exact Nat.sub_lt hrounds Nat.one_pos

/-- `do_read` prints only while `do_write` is outside of its critical section. -/
theorem free_of_print (howned : Owned holds s) (hread : (view s).read = .ready .print) :
    (view s).write.held WritePoint.holds = none := by
  have hr : s.held holds .doRead = some .mutexLock := held_eq hread
  cases hw : s.held holds .doWrite with
  | none => exact hw
  | some m =>
    cases m
    exact absurd (howned.exclusive hr hw) (by decide)

/-- The invariant holds in every reachable state. -/
theorem consistent_of_reaches (h : Reaches random s d) : Consistent random (view s) d := by
  apply h.invariant (I := fun s d => Consistent random (view s) d)
  · exact ⟨⟨rfl, rfl⟩, [], List.Pairwise.nil, rfl, fun k hk => absurd hk List.not_mem_nil⟩
  · intro s s' d t hs ih hm
    exact ih.next (free_of_print (owned_of_reachable singleLock hs.reachable)) (next_of_move hm)

/-! ## Any rounds can be missed -/

/-- Between two rounds: both threads are in front of their locks. -/
def between (k : Nat) : PState where
  status
    | .main => .ready MainPoint.joinWrite
    | .doWrite => .ready (WritePoint.lock k)
    | .doRead => .ready ReadPoint.lock
  owner _ := none
  printed := []

/-- The memory between two rounds. -/
def stored (random : Nat → Nat) (k : Nat) (printed : List Line) : Data :=
  ⟨lastA random k, lastB random k, printed⟩

theorem eq_between {k : Nat} (hview : view s = view (between k))
    (howner : s.owner .mutexLock = none) (hprinted : s.printed = []) : s = between k := by
  obtain ⟨status, owner, printed⟩ := s
  obtain ⟨hmain, hwrite, hread⟩ := View.mk.inj hview
  have hstatus : status = (between k).status := by
    funext t
    cases t with
    | main => exact hmain
    | doWrite => exact hwrite
    | doRead => exact hread
  have howner' : owner = (between k).owner := by
    funext m
    cases m
    exact howner
  rw [hstatus, howner']
  exact congrArg (State.mk _ _) hprinted

/-- What a run leads to, if that is between two rounds. -/
theorem eq_some_between {r : Option (PState × Data)} {k : Nat} {d' : Data}
    (h : r.map (fun r => (view r.1, r.1.owner .mutexLock, r.1.printed, r.2)) =
      some (view (between k), none, [], d')) :
    r = some (between k, d') := by
  obtain ⟨⟨s', d''⟩, hs', hobserved⟩ := Option.map_eq_some_iff.mp h
  obtain ⟨hview, hrest⟩ := Prod.mk.inj hobserved
  obtain ⟨howner, hrest⟩ := Prod.mk.inj hrest
  obtain ⟨hprinted, hdata⟩ := Prod.mk.inj hrest
  have hbetween : s' = between k := eq_between hview howner hprinted
  rw [hs', hbetween]
  exact congrArg (fun d => some (between k, d)) hdata

/-- A schedule of the start. -/
def starting : List (Thread × Thread) :=
  List.replicate 2 (.main, .main) ++ List.replicate 2 (.doWrite, .doWrite)

/-- A schedule of one round that `do_read` misses. -/
def missRound : List (Thread × Thread) := List.replicate 6 (.doWrite, .doWrite)

/-- A schedule of one round that `do_read` prints. -/
def seeRound : List (Thread × Thread) :=
  List.replicate 2 (.doRead, .doRead) ++ List.replicate 6 (.doWrite, .doRead) ++
  List.replicate 3 (.doRead, .doRead)

theorem starting_done (random : Nat → Nat) :
    sharedRun program (effect random) initial initialData starting =
      some (between 0, stored random 0 []) :=
  eq_some_between rfl

theorem round_missed (random : Nat → Nat) (k : Nat) (printed : List Line) :
    sharedRun program (effect random) (between k) (stored random k printed) missRound =
      some (between (k + 1), stored random (k + 1) printed) :=
  eq_some_between rfl

theorem round_seen (random : Nat → Nat) (k : Nat) (printed : List Line) :
    sharedRun program (effect random) (between k) (stored random k printed) seeRound =
      some (between (k + 1), stored random (k + 1) (printed ++ [line random k])) :=
  eq_some_between rfl

/-- `do_read` can miss any number of rounds. -/
theorem reaches_later {k n : Nat} {printed : List Line} (hkn : k ≤ n)
    (h : Reaches random (between k) (stored random k printed)) :
    Reaches random (between n) (stored random n printed) := by
  induction n, hkn using Nat.le_induction with
  | base => exact h
  | succ n _ ih => exact sharedReachable_run (round_missed random n printed) ih

/-- The lines of any increasing sequence of rounds can have been printed, in front of
any later round. -/
theorem reaches_lines {ks : List Nat} (hks : ks.Pairwise (· < ·)) {n : Nat}
    (hn : ∀ k ∈ ks, k < n) :
    Reaches random (between n) (stored random n (ks.map (line random))) := by
  induction ks using List.reverseRecOn generalizing n with
  | nil => exact reaches_later (Nat.zero_le n) (sharedReachable_run (starting_done random) .refl)
  | append_singleton ks k ih =>
    obtain ⟨hks, _, hlast⟩ := List.pairwise_append.mp hks
    have hk : k < n := hn k (List.mem_append_right _ (List.mem_singleton_self k))
    have hbefore := ih hks fun k' hk' => hlast k' hk' k (List.mem_singleton_self k)
    rw [List.map_append, List.map_singleton]
    exact reaches_later hk (sharedReachable_run (round_seen random k _) hbefore)

/-- What `do_read` can have printed: the lines of some rounds, in their order and
each at most once, and of any such rounds. -/
theorem printed_iff (random : Nat → Nat) (printed : List Line) :
    (∃ s d, Reaches random s d ∧ d.printed = printed) ↔
      ∃ ks : List Nat, ks.Pairwise (· < ·) ∧ printed = ks.map (line random) := by
  constructor
  · intro h
    obtain ⟨s, d, hs, rfl⟩ := h
    obtain ⟨_, ks, hsorted, hprinted, _⟩ := consistent_of_reaches hs
    exact ⟨ks, hsorted, hprinted⟩
  · intro h
    obtain ⟨ks, hsorted, rfl⟩ := h
    have hbound : ∀ k ∈ ks, k < ks.sum + 1 := fun k hk => Nat.lt_succ_of_le (List.le_sum_of_mem hk)
    exact ⟨_, _, reaches_lines hsorted hbound, rfl⟩

/-! ## No race and no deadlock -/

/-- A thread stands at a point that reads or writes `mydata`. -/
def touches : (t : Thread) → Point t → Prop
  | .main, _ => False
  | .doWrite, p => p = WritePoint.initA ∨ p = .initB ∨ (∃ k, p = .setA k) ∨ ∃ k, p = .setB k
  | .doRead, p => p = ReadPoint.print

/-- Two threads are about to use `mydata` at the same time. -/
def Race (s : PState) : Prop :=
  ∃ (t u : Thread) (p : Point t) (q : Point u), t ≠ u ∧ s.status t = .ready p ∧
    s.status u = .ready q ∧ touches t p ∧ touches u q

/-- `do_write` is at its first two stores, outside of the lock. -/
def Initialising (s : PState) : Prop :=
  s.status .doWrite = .ready WritePoint.initA ∨ s.status .doWrite = .ready WritePoint.initB

/-- Two threads at `mydata` at once: `do_read` that prints, and `do_write` at its first
stores. -/
theorem race_iff (howned : Owned holds s) :
    Race s ↔ s.status .doRead = .ready ReadPoint.print ∧ Initialising s := by
  have hinit : ∀ {p : WritePoint}, s.status .doRead = .ready ReadPoint.print →
      s.status .doWrite = .ready p → touches .doWrite p → Initialising s := by
    intro p hread hwrite htouches
    have hfree := free_of_print howned hread
    have hw : (view s).write = .ready p := hwrite
    rw [hw] at hfree
    rcases htouches with rfl | rfl | ⟨k, rfl⟩ | ⟨k, rfl⟩
    · exact Or.inl hwrite
    · exact Or.inr hwrite
    · cases hfree
    · cases hfree
  constructor
  · intro hrace
    obtain ⟨t, u, p, q, hne, hp, hq, htp, htq⟩ := hrace
    cases t with
    | main => exact absurd htp id
    | doWrite =>
      cases u with
      | main => exact absurd htq id
      | doWrite => exact absurd rfl hne
      | doRead =>
        obtain rfl : q = ReadPoint.print := htq
        exact ⟨hq, hinit hq hp htp⟩
    | doRead =>
      cases u with
      | main => exact absurd htq id
      | doRead => exact absurd rfl hne
      | doWrite =>
        obtain rfl : p = ReadPoint.print := htp
        exact ⟨hp, hinit hp hq htq⟩
  · intro h
    obtain ⟨hread, hwrite | hwrite⟩ := h
    · exact ⟨.doWrite, .doRead, .initA, .print, by decide, hwrite, hread, Or.inl rfl, rfl⟩
    · exact ⟨.doWrite, .doRead, .initB, .print, by decide, hwrite, hread, Or.inr (Or.inl rfl), rfl⟩

/-- `do_read` prints only behind the first signal, so never while `do_write` is at its first
stores. -/
theorem not_race (h : Reaches random s d) : ¬ Race s := by
  intro hrace
  obtain ⟨hread, hinit⟩ := (race_iff (owned_of_reachable singleLock h.reachable)).mp hrace
  have hr : (view s).read = .ready .print := hread
  obtain ⟨_, ks, _, _, hks⟩ := consistent_of_reaches h
  rw [hr] at hks
  have hrounds : 0 < rounds (view s).write := hks.2
  rcases hinit with hwrite | hwrite
  · have hw : (view s).write = .ready .initA := hwrite
    rw [hw] at hrounds
    exact absurd hrounds (Nat.lt_irrefl 0)
  · have hw : (view s).write = .ready .initB := hwrite
    rw [hw] at hrounds
    exact absurd hrounds (Nat.lt_irrefl 0)

/-- How far `main` is. -/
def Created (v : View) : Prop :=
  match v.main with
  | .ready .createWrite => v.write = .absent ∧ v.read = .absent
  | .ready .createRead => v.write ≠ .absent ∧ v.read = .absent
  | .ready .joinWrite => v.write ≠ .absent
  | _ => False

theorem Created.next {v v' : View} {d d' : Data} (h : Created v)
    (hstored : Stored random v.write d.a d.b) (hn : Next random v d v' d') : Created v' := by
  obtain ⟨main, write, read⟩ := v
  unfold Created at h ⊢
  cases hn with
  | createWrite h' hw =>
    obtain rfl : main = _ := h'
    exact ⟨by simp, h.2⟩
  | createRead h' hr =>
    obtain rfl : main = _ := h'
    exact h.1
  | joinWrite h' hw =>
    -- `do_write` does not end
    obtain rfl : write = _ := hw
    exact absurd hstored id
  | joinRead h' hr =>
    obtain rfl : main = _ := h'
    exact absurd h id
  | _ =>
    -- the other moves are not of `main`, and leave no thread absent
    split at h
    all_goals simp_all

theorem created_of_reaches (h : Reaches random s d) : Created (view s) := by
  apply h.invariant (I := fun s _ => Created (view s))
  · exact ⟨rfl, rfl⟩
  · intro s s' d t hs ih hm
    exact ih.next (d := d) (consistent_of_reaches hs).stored (next_of_move hm)

/-- A thread that does not exist yet is created. -/
theorem absent_of_create (h : Reaches random s d) (t u : Thread) (p : Point t)
    (hs : s.status t = .ready p) (hop : program.op p = .create u) : s.status u = .absent := by
  have hcreated := created_of_reaches h
  unfold Created at hcreated
  cases t <;> cases p <;> cases hop
  · have hmain : (view s).main = .ready .createWrite := hs
    rw [hmain] at hcreated
    exact hcreated.1
  · have hmain : (view s).main = .ready .createRead := hs
    rw [hmain] at hcreated
    exact hcreated.2

/-- `do_write` is never kept from going on for good. -/
theorem not_blocked_doWrite (h : Reaches random s d) (hwrite : (view s).write ≠ .absent) :
    ¬ Blocked program s .doWrite := by
  have hstored := (consistent_of_reaches h).stored
  intro hblocked
  cases hblocked with
  | absent hs => exact hwrite hs
  | finished hs =>
    have hw : (view s).write = .finished := hs
    rw [hw] at hstored
    exact hstored
  | @waiting p hs =>
    have hw : (view s).write = .waiting p := hs
    rw [hw] at hstored
    exact hstored
  | @join p u hs hop hu => cases p <;> cases hop

/-- In every reachable state some thread can move, and no thread is about to use
`mydata` while another one is. -/
theorem runs_without_race (h : Reaches random s d) :
    ¬ Stuck program s ∧ ¬ Race s ∧ (view s).main ≠ .finished := by
  have hcreated := created_of_reaches h
  unfold Created at hcreated
  refine ⟨?_, not_race h, ?_⟩
  · intro hstuck
    have hblocked := blocked_of_stuck singleLock h.reachable (absent_of_create h) hstuck
    cases hblocked .main with
    | absent hs =>
      have hmain : (view s).main = .absent := hs
      rw [hmain] at hcreated
      exact hcreated
    | finished hs =>
      have hmain : (view s).main = .finished := hs
      rw [hmain] at hcreated
      exact hcreated
    | @waiting p hs =>
      have hmain : (view s).main = .waiting p := hs
      rw [hmain] at hcreated
      exact hcreated
    | @join p u hs hop hu =>
      have hmain : (view s).main = .ready p := hs
      rw [hmain] at hcreated
      cases p with
      | createWrite => cases hop
      | createRead => cases hop
      | joinWrite => exact not_blocked_doWrite h hcreated (hblocked .doWrite)
      | joinRead => exact hcreated
  · intro hmain
    rw [hmain] at hcreated
    exact hcreated

/-- A schedule of a round up to the moment at which `do_read` is about to print. -/
def catchRound : List (Thread × Thread) :=
  List.replicate 2 (.doRead, .doRead) ++ List.replicate 6 (.doWrite, .doRead) ++
  [(.doRead, .doRead)]

/-- So it is behind a first print, when `do_read` is about to make the second one. -/
theorem runs_without_race_printing :
    ∃ (s : PState) (d : Data), d.printed = [⟨0, 1, 1⟩] ∧
      s.status .doRead = .ready ReadPoint.print ∧
      s.status .doWrite = .ready (WritePoint.lock 2) ∧
      ¬ Stuck program s ∧ ¬ Race s ∧ (view s).main ≠ .finished := by
  have hfirst : Reaches id (between 1) (stored id 1 ([0].map (line id))) :=
    reaches_lines (List.pairwise_singleton _ _) (by simp)
  have hcaught : (sharedRun program (effect id) (between 1) (stored id 1 [line id 0])
      catchRound).map (fun r => (view r.1, r.2.printed)) =
        some (⟨.ready .joinWrite, .ready (.lock 2), .ready .print⟩, [line id 0]) := rfl
  obtain ⟨⟨s, d⟩, hrun, hobserved⟩ := Option.map_eq_some_iff.mp hcaught
  obtain ⟨hview, hprinted⟩ := Prod.mk.inj hobserved
  obtain ⟨-, hwrite, hread⟩ := View.mk.inj hview
  exact ⟨s, d, hprinted, hread, hwrite, runs_without_race (sharedReachable_run hrun hfirst)⟩

end PtsTools.WriteRead
