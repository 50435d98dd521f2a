import Mathlib.Data.List.Permutation
import PtsTools.Lib.PthreadEnds
import PtsTools.PingPong.Deadlock

/-!
# How the game can end

Every thread only goes forward in its code, so every run of the program stops,
whatever the order of the moves.  It stops in one of two ways: all threads have
returned and the game is complete, or both threads wait in the same round, and
that `ping` was the last line: `ends_complete_or_parked`.

Neither can be left out.  From the start of any round the threads can play it,
`round_played`, or `ping` can be too early in it, `round_lost`, so that every round
can be the last one.  `outcomes_iff` lists what the program can have printed when
it stops.

All this is about builds in which the store of `pthread_join` does no harm.  Where the
first store ends the process, `stored_iff` lists what is printed by then.
-/

namespace PtsTools.PingPong

open PtsTools.Lib.Pthread

variable {howmany : Nat} {guard : PState → Thread → Prop} {s : PState}

/-! ## Every run stops -/

/-- What is left of the code of `main`. -/
def MainPoint.left : MainPoint → Nat
  | .lock i => 9 - 4 * i
  | .create i => 8 - 4 * i
  | .wait i => 7 - 4 * i
  | .unlock i => 6 - 4 * i
  | .join i => 1 - i

/-- What is left of the code of `ping`. -/
def PingPoint.left (howmany : Nat) : PingPoint → Nat
  | .lockSync => 6 * howmany + 9
  | .signalSync => 6 * howmany + 8
  | .unlockSync => 6 * howmany + 7
  | .lock i => 6 * (howmany - i) + 6
  | .print i => 6 * (howmany - i) + 5
  | .signal i => 6 * (howmany - i) + 4
  | .wait i => 6 * (howmany - i) + 3
  | .unlock i => 6 * (howmany - i) + 2
  | .sleep i => 6 * (howmany - i) + 1
  | .bye => 0

/-- What is left of the code of `pong`. -/
def PongPoint.left (howmany : Nat) : PongPoint → Nat
  | .lockSync => 5 * howmany + 9
  | .sleepSync => 5 * howmany + 8
  | .signalSync => 5 * howmany + 7
  | .unlockSync => 5 * howmany + 6
  | .lock i => 5 * (howmany - i) + 5
  | .wait i => 5 * (howmany - i) + 4
  | .print i => 5 * (howmany - i) + 3
  | .signal i => 5 * (howmany - i) + 2
  | .unlock i => 5 * (howmany - i) + 1
  | .bye => 0

theorem PingPoint.left_loop (i : Nat) :
    (PingPoint.loop howmany i).left howmany ≤ 6 * (howmany + 1 - i) := by
  unfold PingPoint.loop
  split_ifs with hi
  · show 6 * (howmany - i) + 6 ≤ 6 * (howmany + 1 - i)
    omega
  · exact Nat.zero_le _

theorem PongPoint.left_loop (i : Nat) :
    (PongPoint.loop howmany i).left howmany ≤ 5 * (howmany + 1 - i) := by
  unfold PongPoint.loop
  split_ifs with hi
  · show 5 * (howmany - i) + 5 ≤ 5 * (howmany + 1 - i)
    omega
  · exact Nat.zero_le _

theorem MainPoint.left_next {p q : MainPoint} (h : p.next = some q) : q.left < p.left := by
  cases p with
  | lock i | create i | wait i =>
    obtain rfl := Option.some.inj h
    show _ - 4 * (i : Nat) < _ - 4 * (i : Nat)
    omega
  | unlock i | join i =>
    match i with
    | 0 =>
      obtain rfl := Option.some.inj h
      decide
    | 1 => cases h <;> decide

theorem PingPoint.left_next {p q : PingPoint} (h : p.next howmany = some q) :
    q.left howmany < p.left howmany := by
  cases p with
  | unlockSync =>
    obtain rfl := Option.some.inj h
    exact (left_loop 0).trans_lt (Nat.lt_succ_self (6 * (howmany + 1)))
  | sleep i =>
    obtain rfl := Option.some.inj h
    have hle : (PingPoint.loop howmany (i + 1)).left howmany ≤ _ := left_loop (i + 1)
    rw [Nat.add_sub_add_right] at hle
    exact hle.trans_lt (Nat.lt_succ_self _)
  | bye => cases h
  | _ =>
    obtain rfl := Option.some.inj h
    exact Nat.lt_succ_self _

theorem PongPoint.left_next {p q : PongPoint} (h : p.next howmany = some q) :
    q.left howmany < p.left howmany := by
  cases p with
  | unlockSync =>
    obtain rfl := Option.some.inj h
    exact (left_loop 0).trans_lt (Nat.lt_succ_self (5 * (howmany + 1)))
  | unlock i =>
    obtain rfl := Option.some.inj h
    have hle : (PongPoint.loop howmany (i + 1)).left howmany ≤ _ := left_loop (i + 1)
    rw [Nat.add_sub_add_right] at hle
    exact hle.trans_lt (Nat.lt_succ_self _)
  | bye => cases h
  | _ =>
    obtain rfl := Option.some.inj h
    exact Nat.lt_succ_self _

/-- The code of the threads only goes forward. -/
def left (howmany : Nat) : Weight (program howmany) where
  point {t} p :=
    match t with
    | .main => MainPoint.left p
    | .ping => PingPoint.left howmany p
    | .pong => PongPoint.left howmany p
  next {t} p q h := by
    cases t with
    | main => exact MainPoint.left_next h
    | ping => exact PingPoint.left_next h
    | pong => exact PongPoint.left_next h

theorem left_initial (howmany : Nat) :
    (left howmany).total (initial howmany) = 33 * howmany + 92 := by
  show 30 + (3 * (6 * howmany + 9) + 4 + (3 * (5 * howmany + 9) + 4 + 0)) = _
  omega

/-! ## Where a run stops -/

/-- All threads have returned, and the game is complete. -/
def Complete (howmany : Nat) (v : View) : Prop :=
  v.main = .finished ∧ v.ping = .finished ∧ v.pong = .finished ∧
    (v.printed = turns (2 * howmany) ++ [.pingBye, .pongBye] ∨
      v.printed = turns (2 * howmany) ++ [.pongBye, .pingBye])

/-- Both threads wait in round `i`, behind the line of `ping`. -/
def ParkedIn (i : Nat) (v : View) : Prop :=
  v.main = .ready .joinPong ∧ v.ping = .waiting (.wait i) ∧ v.pong = .waiting (.wait i) ∧
    v.printed = turns (2 * i + 1)

theorem eq_finished_of_pingPhase {status : Status PingPoint} (h : pingPhase status = .finished) :
    status = .finished := by
  unfold pingPhase at h
  split at h <;> simp_all

theorem eq_finished_of_pongPhase {status : Status PongPoint} (h : pongPhase status = .finished) :
    status = .finished := by
  unfold pongPhase at h
  split at h <;> simp_all

theorem ne_absent_of_signalled {status : Status PingPoint} (h : (pingPhase status).Signalled) :
    status ≠ .absent := by
  intro habsent
  rw [habsent] at h
  exact absurd h (by unfold Phase.Signalled; decide)

theorem pong_ne_absent_of_signalled {status : Status PongPoint} (h : (pongPhase status).Signalled) :
    status ≠ .absent := by
  intro habsent
  rw [habsent] at h
  exact absurd h (by unfold Phase.Signalled; decide)

/-- Once all threads have returned, all lines are printed. -/
theorem complete_of_finished {v : View} (h : Turns howmany v) (hmain : v.main = .finished)
    (hping : v.ping = .finished) (hpong : v.pong = .finished) : Complete howmany v := by
  obtain ⟨byes, hperm, hprinted⟩ := h.played
  rw [hping, hpong] at hperm hprinted
  have hn : pings howmany .finished + pongs howmany .finished = 2 * howmany :=
    (Nat.two_mul howmany).symm
  rw [hn] at hprinted
  refine ⟨hmain, hping, hpong, ?_⟩
  rcases List.perm_pair.mp hperm with hbyes | hbyes
  · exact Or.inl (by rw [hprinted, hbyes])
  · exact Or.inr (by rw [hprinted, hbyes])

/-- Where both threads wait, they wait in the same round. -/
theorem parkedIn_of_waiting {v : View} (h : Turns howmany v) {i j : Nat}
    (hmain : v.main = .ready .joinPong) (hping : v.ping = .waiting (.wait i))
    (hpong : v.pong = .waiting (.wait j)) : i < howmany ∧ ParkedIn i v := by
  obtain ⟨hrange, _, hplayed, hhand⟩ := h
  rw [hping, hpong] at hplayed hhand
  rw [hping] at hrange
  have hij : i + 1 = j + 1 := hhand
  obtain rfl := Nat.succ.inj hij
  obtain ⟨byes, hperm, hprinted⟩ := hplayed
  have hn : i + 1 + i = 2 * i + 1 := by omega
  refine ⟨hrange, hmain, hping, hpong, ?_⟩
  rw [hprinted, List.Perm.eq_nil hperm, List.append_nil, ← hn]
  rfl

/-- Where no thread can move, `main` has returned or waits for the end of a thread. -/
theorem main_of_blocked (h : Reachable (program howmany) guard (initial howmany) s)
    (hblocked : ∀ t, Blocked (program howmany) s t) :
    (view s).main = .finished ∨
      (view s).main = .ready (.join 0) ∧ (view s).pong ≠ .finished ∨
      (view s).main = .ready (.join 1) ∧ (view s).ping ≠ .finished := by
  have hstarted := started_of_reachable h
  cases hblocked .main with
  | absent hs =>
    have hmain : (view s).main = .absent := hs
    rw [hmain] at hstarted
    exact absurd hstarted id
  | finished hs => exact Or.inl hs
  | @waiting p hs =>
    obtain ⟨c, m, hop⟩ := parked_of_reachable h .main p (Or.inl hs)
    cases p <;> cases hop
    rename_i i
    have hmain : (view s).main = .waiting (.wait i) := hs
    rw [hmain] at hstarted
    -- the thread that `main` waits for is on its way to the signal
    match i with
    | 0 =>
      have hphase := hstarted.2
      rcases pong_of_blocked h (hblocked .pong) with hq | hq | ⟨j, hq⟩
      · rw [hq] at hphase
        cases hphase
      · rw [hq] at hphase
        cases hphase
      · rw [hq] at hphase
        cases hphase
    | 1 =>
      have hphase := hstarted.1
      rcases ping_of_blocked h (hblocked .ping) with hp | hp | ⟨j, hp⟩
      · rw [hp] at hphase
        cases hphase
      · rw [hp] at hphase
        cases hphase
      · rw [hp] at hphase
        cases hphase
  | @join p u hs hop hu =>
    cases p <;> cases hop
    rename_i i
    match i with
    | 0 => exact Or.inr (Or.inl ⟨hs, hu⟩)
    | 1 => exact Or.inr (Or.inr ⟨hs, hu⟩)

/-- Where no thread can move, the game is complete or both threads wait in one
round. -/
theorem complete_or_parked_of_stuck (h : Reachable (program howmany) guard (initial howmany) s)
    (hstuck : Stuck (program howmany) s) :
    Complete howmany (view s) ∨ ∃ i < howmany, ParkedIn i (view s) := by
  have hblocked := blocked_of_stuck (singleLock howmany) h (absent_of_create h) hstuck
  have hstarted := started_of_reachable h
  have hturns := turns_of_reachable h
  rcases main_of_blocked h hblocked with hmain | ⟨hmain, hnot⟩ | ⟨hmain, hnot⟩
  · rw [hmain] at hstarted
    left
    exact complete_of_finished hturns hmain (eq_finished_of_pingPhase hstarted.1)
      (eq_finished_of_pongPhase hstarted.2)
  · right
    rw [hmain] at hstarted
    rcases pong_of_blocked h (hblocked .pong) with hpong | hpong | ⟨j, hpong⟩
    · exact absurd hpong (pong_ne_absent_of_signalled hstarted.2)
    · exact absurd hpong hnot
    · rcases ping_of_blocked h (hblocked .ping) with hping | hping | ⟨i, hping⟩
      · exact absurd hping (ne_absent_of_signalled hstarted.1)
      · exact absurd (pong_finished hturns hping (Or.inr (Or.inr ⟨j, hpong⟩)) hstarted.2) hnot
      · exact ⟨i, parkedIn_of_waiting hturns hmain hping hpong⟩
  · -- `pong` has returned, so `ping` has got all answers
    rw [hmain] at hstarted
    have hpong := eq_finished_of_pongPhase hstarted.2
    rcases ping_of_blocked h (hblocked .ping) with hping | hping | ⟨i, hping⟩
    · exact absurd hping (ne_absent_of_signalled hstarted.1)
    · exact absurd hping hnot
    · have hhand := hturns.hand
      have hrange := hturns.pingInRange
      rw [hping, hpong] at hhand
      rw [hping] at hrange
      have heq : i + 1 = howmany + 1 := hhand
      have hlt : i < howmany := hrange
      omega

/-- Every run of the program stops, after a number of moves that the number of
rounds bounds.  It stops with the game complete, or with both threads waiting in
one round. -/
theorem ends_complete_or_parked (howmany : Nat) :
    (∀ n s, Moves (program howmany) n (initial howmany) s → n ≤ 33 * howmany + 92) ∧
      EndsIn (program howmany)
        (fun s => Complete howmany (view s) ∨ ∃ i < howmany, ParkedIn i (view s))
        (initial howmany) := by
  constructor
  · intro n s h
    have hle := (left howmany).moves_le h
    rw [left_initial] at hle
    omega
  · exact (left howmany).endsIn_of_stuck (fun s => complete_or_parked_of_stuck) .refl

/-! ## Every way to stop is taken -/

/-- The state in which `main` waits for the end of `pong`, and nobody holds a mutex. -/
def game (ping : Status PingPoint) (pong : Status PongPoint) (printed : List Line) : PState where
  status
    | .main => .ready MainPoint.joinPong
    | .ping => ping
    | .pong => pong
  owner _ := none
  printed := printed

/-- The start of round `i`. -/
def roundStart (howmany i : Nat) (printed : List Line) : PState :=
  game (.ready (.loop howmany i)) (.ready (.loop howmany i)) printed

/-- The view and the owners are all of a state. -/
theorem eq_game {ping : Status PingPoint} {pong : Status PongPoint} {printed : List Line}
    (hview : view s = view (game ping pong printed)) (hsync : s.owner .syncMutex = none)
    (hgmutex : s.owner .gmutex = none) : s = game ping pong printed := by
  obtain ⟨status, owner, printed'⟩ := s
  obtain ⟨hmain, hping, hpong, hprinted⟩ := View.mk.inj hview
  have hstatus : status = (game ping pong printed).status := by
    funext t
    cases t with
    | main => exact hmain
    | ping => exact hping
    | pong => exact hpong
  have howner : owner = (game ping pong printed).owner := by
    funext m
    cases m with
    | syncMutex => exact hsync
    | gmutex => exact hgmutex
  rw [hstatus, howner]
  exact congrArg (State.mk _ _) hprinted

/-- What a schedule leads to, if that is a state of the game. -/
theorem run_eq_game {schedule : List (Thread × Thread)} {ping : Status PingPoint}
    {pong : Status PongPoint} {printed : List Line}
    (h : (run (program howmany) s schedule).map
        (fun s => (view s, s.owner .syncMutex, s.owner .gmutex)) =
      some (view (game ping pong printed), none, none)) :
    run (program howmany) s schedule = some (game ping pong printed) := by
  obtain ⟨s', hs', hobserved⟩ := Option.map_eq_some_iff.mp h
  obtain ⟨hview, howners⟩ := Prod.mk.inj hobserved
  obtain ⟨hsync, hgmutex⟩ := Prod.mk.inj howners
  rw [hs', eq_game hview hsync hgmutex]

/-- A schedule of the handshake. -/
def handshake : List (Thread × Thread) :=
  List.replicate 3 (.main, .main) ++ List.replicate 4 (.pong, .main) ++
  List.replicate 5 (.main, .main) ++ List.replicate 3 (.ping, .main) ++
  List.replicate 2 (.main, .main)

/-- A schedule of one round: `pong` waits before `ping` plays. -/
def playRound : List (Thread × Thread) :=
  List.replicate 2 (.pong, .pong) ++ List.replicate 4 (.ping, .pong) ++
  List.replicate 4 (.pong, .ping) ++ List.replicate 3 (.ping, .ping)

/-- A schedule of one round: `ping` plays before `pong` waits. -/
def loseSignal : List (Thread × Thread) :=
  List.replicate 4 (.ping, .pong) ++ List.replicate 2 (.pong, .pong)

theorem handshake_done (howmany : Nat) :
    run (program howmany) (initial howmany) handshake = some (roundStart howmany 0 []) :=
  run_eq_game rfl

theorem roundStart_lt {i : Nat} (hi : i < howmany) (printed : List Line) :
    roundStart howmany i printed = game (.ready (.lock i)) (.ready (.lock i)) printed := by
  unfold roundStart PingPoint.loop PongPoint.loop
  rw [if_pos hi, if_pos hi]

theorem round_played {i : Nat} (hi : i < howmany) (printed : List Line) :
    run (program howmany) (roundStart howmany i printed) playRound =
      some (roundStart howmany (i + 1) (printed ++ [.ping i] ++ [.pong i])) := by
  rw [roundStart_lt hi]
  exact run_eq_game rfl

theorem round_lost {i : Nat} (hi : i < howmany) (printed : List Line) :
    run (program howmany) (roundStart howmany i printed) loseSignal =
      some (game (.waiting (.wait i)) (.waiting (.wait i)) (printed ++ [.ping i])) := by
  rw [roundStart_lt hi]
  exact run_eq_game rfl

/-- The start of every round can be reached. -/
theorem reachable_roundStart {i : Nat} (hi : i ≤ howmany) :
    Reachable (program howmany) (fun _ _ => True) (initial howmany)
      (roundStart howmany i (turns (i + i))) := by
  induction i with
  | zero => exact reachable_run (handshake_done howmany) .refl
  | succ i ih =>
    have hplayed := round_played (Nat.lt_of_succ_le hi) (turns (i + i))
    rw [turns_append_ping, turns_append_pong] at hplayed
    exact reachable_run hplayed (ih (Nat.le_of_succ_le hi))

/-- Behind the last round both threads are at their farewell. -/
theorem reachable_byes (howmany : Nat) :
    Reachable (program howmany) (fun _ _ => True) (initial howmany)
      (game (.ready .bye) (.ready .bye) (turns (2 * howmany))) := by
  have hstart := reachable_roundStart (le_refl howmany)
  have hbye : roundStart howmany howmany (turns (howmany + howmany)) =
      game (.ready .bye) (.ready .bye) (turns (2 * howmany)) := by
    unfold roundStart PingPoint.loop PongPoint.loop
    rw [if_neg (lt_irrefl _), if_neg (lt_irrefl _), Nat.two_mul]
  rwa [hbye] at hstart

theorem stuck_of_complete (h : Complete howmany (view s)) : Stuck (program howmany) s := by
  obtain ⟨hmain, hping, hpong, _⟩ := h
  intro t s' hm
  have hn := next_of_move hm
  generalize view s' = v' at hn
  cases hn <;> simp_all

theorem stuck_of_parked {i : Nat} (h : ParkedIn i (view s)) : Stuck (program howmany) s := by
  obtain ⟨hmain, hping, hpong, _⟩ := h
  unfold MainPoint.joinPong at hmain
  intro t s' hm
  have hn := next_of_move hm
  generalize view s' = v' at hn
  cases hn <;> simp_all

/-- A schedule that leads from a reachable state leads to one. -/
theorem reachable_of_view {s' : PState} {v : View}
    (hs : Reachable (program howmany) (fun _ _ => True) (initial howmany) s')
    (schedule : List (Thread × Thread))
    (h : (run (program howmany) s' schedule).map view = some v) :
    ∃ s, Reachable (program howmany) (fun _ _ => True) (initial howmany) s ∧ view s = v := by
  obtain ⟨s, hrun, hview⟩ := Option.map_eq_some_iff.mp h
  exact ⟨s, reachable_run hrun hs, hview⟩

/-- They can say goodbye in any order. -/
theorem complete_reachable {byes : List Line}
    (hbyes : byes = [.pingBye, .pongBye] ∨ byes = [.pongBye, .pingBye]) :
    ∃ s, Reachable (program howmany) (fun _ _ => True) (initial howmany) s ∧
      view s = ⟨.finished, .finished, .finished, turns (2 * howmany) ++ byes⟩ := by
  have hstart := reachable_byes howmany
  rcases hbyes with rfl | rfl
  · apply reachable_of_view hstart
      [(.ping, .ping), (.pong, .pong), (.main, .main), (.main, .main)]
    rw [List.append_cons (turns (2 * howmany))]
    rfl
  · apply reachable_of_view hstart
      [(.pong, .pong), (.ping, .ping), (.main, .main), (.main, .main)]
    rw [List.append_cons (turns (2 * howmany))]
    rfl

/-- In any round `ping` can be too early. -/
theorem parked_reachable {i : Nat} (hi : i < howmany) :
    ∃ s, Reachable (program howmany) (fun _ _ => True) (initial howmany) s ∧
      ParkedIn i (view s) := by
  have hlost := round_lost hi (turns (i + i))
  have hn : i + 1 + i = 2 * i + 1 := by omega
  rw [turns_append_ping, hn] at hlost
  exact ⟨_, reachable_run hlost (reachable_roundStart hi.le), rfl, rfl, rfl, rfl⟩

/-- What the program can have printed when it stops: the complete game and the
farewells in any order, or the game up to the `ping` of any round. -/
theorem outcomes_iff (howmany : Nat) (printed : List Line) :
    (∃ s, Reachable (program howmany) (fun _ _ => True) (initial howmany) s ∧
        Stuck (program howmany) s ∧ s.printed = printed) ↔
      printed = turns (2 * howmany) ++ [.pingBye, .pongBye] ∨
        printed = turns (2 * howmany) ++ [.pongBye, .pingBye] ∨
        ∃ i < howmany, printed = turns (2 * i + 1) := by
  constructor
  · intro h
    obtain ⟨s, hs, hstuck, rfl⟩ := h
    rcases complete_or_parked_of_stuck hs hstuck with ⟨_, _, _, hfull | hfull⟩ | ⟨i, hi, hparked⟩
    · exact Or.inl hfull
    · exact Or.inr (Or.inl hfull)
    · exact Or.inr (Or.inr ⟨i, hi, hparked.2.2.2⟩)
  · have hcomplete : ∀ byes : List Line, byes = [.pingBye, .pongBye] ∨ byes = [.pongBye, .pingBye] →
        ∃ s, Reachable (program howmany) (fun _ _ => True) (initial howmany) s ∧
          Stuck (program howmany) s ∧ s.printed = turns (2 * howmany) ++ byes := by
      intro byes hbyes
      obtain ⟨s, hs, hview⟩ := complete_reachable hbyes
      obtain ⟨hmain, hping, hpong, hprinted⟩ := View.mk.inj hview
      have hcomplete : Complete howmany (view s) := by
        refine ⟨hmain, hping, hpong, ?_⟩
        rcases hbyes with rfl | rfl
        · exact Or.inl hprinted
        · exact Or.inr hprinted
      exact ⟨s, hs, stuck_of_complete hcomplete, hprinted⟩
    intro h
    rcases h with rfl | rfl | ⟨i, hi, rfl⟩
    · exact hcomplete _ (Or.inl rfl)
    · exact hcomplete _ (Or.inr rfl)
    · obtain ⟨s, hs, hparked⟩ := parked_reachable hi
      exact ⟨s, hs, stuck_of_parked hparked, hparked.2.2.2⟩

/-! ## The first store of `pthread_join` -/

/-- What the program has printed when `main` has joined `pong`, and the answer of `pong` is
stored: the complete game and the farewell of `pong`, with that of `ping` before it, behind
it or not yet. -/
theorem stored_iff (howmany : Nat) (printed : List Line) :
    (∃ s, Reachable (program howmany) (fun _ _ => True) (initial howmany) s ∧
        (view s).main = .ready (.join 1) ∧ s.printed = printed) ↔
      printed = turns (2 * howmany) ++ [.pongBye] ∨
        printed = turns (2 * howmany) ++ [.pingBye, .pongBye] ∨
        printed = turns (2 * howmany) ++ [.pongBye, .pingBye] := by
  constructor
  · intro h
    obtain ⟨s, hs, hmain, rfl⟩ := h
    have hstarted := started_of_reachable hs
    rw [hmain] at hstarted
    have hpong := eq_finished_of_pongPhase hstarted.2
    have hturns := turns_of_reachable hs
    obtain ⟨byes, hperm, hprinted⟩ := hturns.played
    have hn : pings howmany (view s).ping + pongs howmany (view s).pong = 2 * howmany :=
      all_played hturns (Or.inr hpong)
    rw [hn] at hprinted
    rw [hpong] at hperm
    have hview : s.printed = turns (2 * howmany) ++ byes := hprinted
    rw [hview]
    by_cases hping : (view s).ping = .finished
    · rw [hping] at hperm
      rcases List.perm_pair.mp hperm with rfl | rfl
      · exact Or.inr (Or.inl rfl)
      · exact Or.inr (Or.inr rfl)
    · have hbyes : farewells (view s).ping .finished = [.pongBye] := by
        unfold farewells
        cases hp : (view s).ping <;> simp_all
      rw [hbyes] at hperm
      exact Or.inl (by rw [List.perm_singleton.mp hperm])
  · have hstart := reachable_byes howmany
    have hreach : ∀ schedule byes,
        (run (program howmany) (game (.ready .bye) (.ready .bye) (turns (2 * howmany)))
          schedule).map (fun s => (s.status .main, s.printed)) =
            some (.ready (MainPoint.join 1), turns (2 * howmany) ++ byes) →
        ∃ s, Reachable (program howmany) (fun _ _ => True) (initial howmany) s ∧
          (view s).main = .ready (.join 1) ∧ s.printed = turns (2 * howmany) ++ byes := by
      intro schedule byes hrun
      obtain ⟨s, hrun, hobserved⟩ := Option.map_eq_some_iff.mp hrun
      obtain ⟨hmain, hprinted⟩ := Prod.mk.inj hobserved
      exact ⟨s, reachable_run hrun hstart, hmain, hprinted⟩
    intro h
    rcases h with rfl | rfl | rfl
    · exact hreach [(.pong, .pong), (.main, .main)] _ rfl
    · refine hreach [(.ping, .ping), (.pong, .pong), (.main, .main)] _ ?_
      rw [List.append_cons (turns (2 * howmany))]
      rfl
    · refine hreach [(.pong, .pong), (.ping, .ping), (.main, .main)] _ ?_
      rw [List.append_cons (turns (2 * howmany))]
      rfl

end PtsTools.PingPong
