import PtsTools.PingPong.Alternation

/-!
# The lost signal

No thread checks anything before it waits, so a signal that comes too early is
gone.  The handshake of `main` is safe: it creates each thread with `sync_mutex`
in hand.  The game is not.  `ping` can take `gmutex` before `pong` has come to
its wait, and then its signal is lost and both wait for ever.

`Started` is the handshake, and `Answered` says that `ping` waits only when the
answer of `pong` is on its way.  The second one holds as long as `ping` signals
only while `pong` waits.  `not_deadlocked` says what that gives, and `deadlock_free_iff`
that nothing less is enough: with one round or more a deadlock can be reached.
-/

namespace PtsTools.PingPong

open PtsTools.Lib.Pthread

variable {howmany : Nat} {guard : PState → Thread → Prop} {s : PState}

/-! ## The handshake -/

/-- How far a thread is, as `main` sees it. -/
inductive Phase
  | absent
  | starting
  | running
  | finished
  deriving DecidableEq, Repr

/-- The phase of `ping`.  It runs once it has signalled `main`. -/
def pingPhase : Status PingPoint → Phase
  | .absent => .absent
  | .ready .lockSync | .ready .signalSync => .starting
  | .finished => .finished
  | _ => .running

/-- The phase of `pong`. -/
def pongPhase : Status PongPoint → Phase
  | .absent => .absent
  | .ready .lockSync | .ready .sleepSync | .ready .signalSync => .starting
  | .finished => .finished
  | _ => .running

/-- A thread has signalled `main`. -/
def Phase.Signalled (phase : Phase) : Prop := phase = .running ∨ phase = .finished

theorem not_signalled_starting : ¬ Phase.Signalled .starting := by
  unfold Phase.Signalled
  decide

/-- The phases of the two threads, by the point of `main`. -/
def Started (main : Status MainPoint) (ping pong : Phase) : Prop :=
  match main with
  | .ready (.lock 0) | .ready (.create 0) => ping = .absent ∧ pong = .absent
  | .ready (.wait 0) | .waiting (.wait 0) => ping = .absent ∧ pong = .starting
  | .woken (.wait 0) | .ready (.unlock 0) | .ready (.lock 1) | .ready (.create 1) =>
    ping = .absent ∧ pong.Signalled
  | .ready (.wait 1) | .waiting (.wait 1) => ping = .starting ∧ pong.Signalled
  | .woken (.wait 1) | .ready (.unlock 1) | .ready (.join 0) => ping.Signalled ∧ pong.Signalled
  | .ready (.join 1) => ping.Signalled ∧ pong = .finished
  | .finished => ping = .finished ∧ pong = .finished
  | _ => False

/-- A thread that runs can finish at any point of `main`. -/
theorem Started.pingFinishes {main : Status MainPoint} {pong : Phase}
    (h : Started main .running pong) : Started main .finished pong := by
  unfold Started at h ⊢
  split at h <;> simp_all [Phase.Signalled]

theorem Started.pongFinishes {main : Status MainPoint} {ping : Phase}
    (h : Started main ping .running) : Started main ping .finished := by
  unfold Started at h ⊢
  split at h <;> simp_all [Phase.Signalled]

/-- While a thread is starting, `main` waits for it or is about to. -/
theorem Started.pingStarting {main : Status MainPoint} {pong : Phase}
    (h : Started main .starting pong) : main = .ready (.wait 1) ∨ main = .waiting (.wait 1) := by
  unfold Started at h
  split at h <;> simp_all [Phase.Signalled]

theorem Started.pongStarting {main : Status MainPoint} {ping : Phase}
    (h : Started main ping .starting) : main = .ready (.wait 0) ∨ main = .waiting (.wait 0) := by
  unfold Started at h
  split at h <;> simp_all [Phase.Signalled]

theorem pingPhase_loop (i : Nat) : pingPhase (.ready (.loop howmany i)) = .running := by
  unfold PingPoint.loop
  split_ifs <;> rfl

theorem pongPhase_loop (i : Nat) : pongPhase (.ready (.loop howmany i)) = .running := by
  unfold PongPoint.loop
  split_ifs <;> rfl

/-- Every move keeps the handshake.  While `main` is about to wait it holds
`sync_mutex`, so neither thread signals then. -/
theorem Started.next {v v' : View} {t : Thread}
    (h : Started v.main (pingPhase v.ping) (pongPhase v.pong))
    (hex : ∀ i, v.main = .ready (.wait i) →
      v.ping ≠ .ready .signalSync ∧ v.pong ≠ .ready .signalSync)
    (hn : Next howmany v t v') : Started v'.main (pingPhase v'.ping) (pongPhase v'.pong) := by
  obtain ⟨main, ping, pong, printed⟩ := v
  cases hn with
  | @mainLock i h' | @mainWait i h' | @mainRegain i h' =>
    obtain rfl : main = _ := h'
    match i with
    | 0 => exact h
    | 1 => exact h
  | mainUnlockPong h' | mainUnlockPing h' =>
    obtain rfl : main = _ := h'
    exact h
  | createPong h' hp =>
    obtain rfl : main = _ := h'
    exact ⟨h.1, rfl⟩
  | createPing h' hp =>
    obtain rfl : main = _ := h'
    exact ⟨rfl, h.2⟩
  | joinPong h' hp =>
    obtain rfl : main = _ := h'
    exact ⟨h.1, congrArg pongPhase hp⟩
  | joinPing h' hp =>
    obtain rfl : main = _ := h'
    exact ⟨congrArg pingPhase hp, h.2⟩
  | pingLockSync h' | pingLock h' | pingPrint h' | pingLoses h' | pingWait h' | pingRegain h'
  | pingUnlock h' =>
    obtain rfl : ping = _ := h'
    exact h
  | pingWakesPong h' hp =>
    obtain rfl : ping = _ := h'
    obtain rfl : pong = _ := hp
    exact h
  | @pingWakesMain i h' hp =>
    obtain rfl : ping = _ := h'
    obtain rfl : main = _ := hp
    match i with
    | 0 => exact absurd (show Phase.starting = .absent from h.1) (by decide)
    | 1 => exact ⟨Or.inl rfl, h.2⟩
  | pingLosesSync h' hp =>
    obtain rfl : ping = _ := h'
    rcases h.pingStarting with hmain | hmain
    · exact absurd rfl (hex 1 hmain).1
    · exact absurd hmain (hp 1)
  | pingUnlockSync h' | pingSleep h' =>
    obtain rfl : ping = _ := h'
    show Started main (pingPhase (.ready (.loop howmany _))) _
    rw [pingPhase_loop]
    exact h
  | pingBye h' =>
    obtain rfl : ping = _ := h'
    exact h.pingFinishes
  | pongLockSync h' | pongSleepSync h' | pongLock h' | pongWait h' | pongRegain h' | pongPrint h'
  | pongLoses h' =>
    obtain rfl : pong = _ := h'
    exact h
  | pongWakesPing h' hp =>
    obtain rfl : pong = _ := h'
    obtain rfl : ping = _ := hp
    exact h
  | @pongWakesMain i h' hp =>
    obtain rfl : pong = _ := h'
    obtain rfl : main = _ := hp
    match i with
    | 0 => exact ⟨h.1, Or.inl rfl⟩
    | 1 => exact absurd (show Phase.Signalled .starting from h.2) not_signalled_starting
  | pongLosesSync h' hp =>
    obtain rfl : pong = _ := h'
    rcases h.pongStarting with hmain | hmain
    · exact absurd rfl (hex 0 hmain).2
    · exact absurd hmain (hp 0)
  | pongUnlockSync h' | pongUnlock h' =>
    obtain rfl : pong = _ := h'
    show Started main _ (pongPhase (.ready (.loop howmany _)))
    rw [pongPhase_loop]
    exact h
  | pongBye h' =>
    obtain rfl : pong = _ := h'
    exact h.pongFinishes

/-- Neither thread signals `main` before `main` waits. -/
theorem not_wait_and_signalSync (h : Reachable (program howmany) guard (initial howmany) s)
    (i : Fin 2) (hmain : (view s).main = .ready (.wait i)) :
    (view s).ping ≠ .ready .signalSync ∧ (view s).pong ≠ .ready .signalSync := by
  have howned := owned_of_reachable (singleLock howmany) h
  have hm : s.held holds .main = some .syncMutex := held_eq hmain
  constructor
  · intro hping
    have hp : s.held holds .ping = some .syncMutex := held_eq hping
    exact absurd (howned.exclusive hm hp) (by decide)
  · intro hpong
    have hp : s.held holds .pong = some .syncMutex := held_eq hpong
    exact absurd (howned.exclusive hm hp) (by decide)

/-- The handshake holds in every reachable state. -/
theorem started_of_reachable (h : Reachable (program howmany) guard (initial howmany) s) :
    Started (view s).main (pingPhase (view s).ping) (pongPhase (view s).pong) := by
  refine h.invariant
    (I := fun s => Started (view s).main (pingPhase (view s).ping) (pongPhase (view s).pong)) ?_ ?_
  · exact ⟨rfl, rfl⟩
  · intro s s' t hs ih _ hm
    exact ih.next (not_wait_and_signalSync hs) (next_of_move hm)

/-! ## The answer on its way -/

/-- `ping` waits, or is about to, only when the answer of `pong` is on its way. -/
def Answered (ping : Status PingPoint) (called answering : Bool) : Prop :=
  match ping with
  | .ready (.wait _) => called = true
  | .waiting (.wait _) => called = true ∨ answering = true
  | _ => True

theorem answered_loop (i : Nat) (called answering : Bool) :
    Answered (.ready (.loop howmany i)) called answering := by
  unfold PingPoint.loop
  split_ifs <;> trivial

/-- The condition: when `ping` signals, `pong` waits. -/
def PongWaits (s : PState) (t : Thread) : Prop :=
  t = .ping → ∀ i, (view s).ping = .ready (.signal i) → ∃ j, (view s).pong = .waiting (.wait j)

/-- A move of `ping` that meets the condition keeps the answer on its way, and so
does every move of the others. -/
theorem Answered.next {v v' : View} {t : Thread}
    (h : Answered v.ping (called v.pong) (answering v.pong))
    (hguard : t = .ping → ∀ i, v.ping = .ready (.signal i) → ∃ j, v.pong = .waiting (.wait j))
    (hex : ∀ i j, v.ping = .ready (.wait i) → v.pong ≠ .ready (.print j))
    (hn : Next howmany v t v') : Answered v'.ping (called v'.pong) (answering v'.pong) := by
  obtain ⟨main, ping, pong, printed⟩ := v
  cases hn with
  | mainLock | mainWait | mainRegain | mainUnlockPong | mainUnlockPing | joinPong | joinPing =>
    exact h
  | createPong h' hp =>
    obtain rfl : pong = _ := hp
    exact h
  | createPing | pingLockSync | pingWakesMain | pingLosesSync | pingLock | pingPrint | pingRegain
  | pingUnlock | pingBye | pongWakesPing => trivial
  | pingUnlockSync | pingSleep => exact answered_loop _ _ _
  | pingWakesPong => rfl
  | @pingLoses i h' hp =>
    obtain ⟨j, hj⟩ := hguard rfl i h'
    exact absurd hj (hp j)
  | pingWait h' =>
    obtain rfl : ping = _ := h'
    exact Or.inl h
  | pongLockSync h' | pongSleepSync h' | pongWakesMain h' | pongLosesSync h' | pongLock h'
  | pongWait h' | pongRegain h' | pongBye h' =>
    obtain rfl : pong = _ := h'
    exact h
  | pongUnlockSync h' | pongUnlock h' =>
    obtain rfl : pong = _ := h'
    show Answered ping (called (.ready (.loop howmany _))) (answering (.ready (.loop howmany _)))
    rw [called_loop, answering_loop]
    exact h
  | @pongPrint i h' =>
    obtain rfl : pong = _ := h'
    show Answered ping false true
    unfold Answered
    split
    · exact absurd rfl (hex _ i rfl)
    · exact Or.inr rfl
    · trivial
  | pongLoses h' hp =>
    obtain rfl : pong = _ := h'
    have hsignal : Answered ping false true := h
    show Answered ping false false
    unfold Answered at hsignal ⊢
    split at hsignal
    · exact hsignal
    · exact absurd rfl (hp _)
    · trivial

/-- As long as `ping` signals only while `pong` waits, the answer is on its way
whenever `ping` waits. -/
theorem answered_of_reachable (h : Reachable (program howmany) PongWaits (initial howmany) s) :
    Answered (view s).ping (called (view s).pong) (answering (view s).pong) := by
  refine h.invariant
    (I := fun s => Answered (view s).ping (called (view s).pong) (answering (view s).pong)) ?_ ?_
  · trivial
  · intro s s' t hs ih hg hm
    exact ih.next hg (not_wait_and_print hs) (next_of_move hm)

/-! ## No deadlock -/

theorem eq_absent_of_pingPhase {status : Status PingPoint} (h : pingPhase status = .absent) :
    status = .absent := by
  unfold pingPhase at h
  split at h <;> simp_all

theorem eq_absent_of_pongPhase {status : Status PongPoint} (h : pongPhase status = .absent) :
    status = .absent := by
  unfold pongPhase at h
  split at h <;> simp_all

/-- No thread is created twice. -/
theorem absent_of_create (h : Reachable (program howmany) guard (initial howmany) s)
    (t u : Thread) (p : Point t) (hs : s.status t = .ready p)
    (hop : (program howmany).op p = .create u) : s.status u = .absent := by
  have hstarted := started_of_reachable h
  cases t <;> cases p <;> try cases hop
  rename_i i
  have hmain : (view s).main = .ready (.create i) := hs
  rw [hmain] at hstarted
  match i with
  | 0 => exact eq_absent_of_pongPhase hstarted.2
  | 1 => exact eq_absent_of_pingPhase hstarted.1

/-- Where no thread can move, `ping` is inside `wait` if it has started and not
finished. -/
theorem ping_of_blocked (h : Reachable (program howmany) guard (initial howmany) s)
    (hblocked : Blocked (program howmany) s .ping) :
    (view s).ping = .absent ∨ (view s).ping = .finished ∨
      ∃ i, (view s).ping = .waiting (.wait i) := by
  cases hblocked with
  | absent hs => exact Or.inl hs
  | finished hs => exact Or.inr (Or.inl hs)
  | @waiting p hs =>
    obtain ⟨c, m, hop⟩ := parked_of_reachable h .ping p (Or.inl hs)
    cases p <;> cases hop
    exact Or.inr (Or.inr ⟨_, hs⟩)
  | @join p u hs hop hu => cases p <;> cases hop

/-- The same for `pong`. -/
theorem pong_of_blocked (h : Reachable (program howmany) guard (initial howmany) s)
    (hblocked : Blocked (program howmany) s .pong) :
    (view s).pong = .absent ∨ (view s).pong = .finished ∨
      ∃ i, (view s).pong = .waiting (.wait i) := by
  cases hblocked with
  | absent hs => exact Or.inl hs
  | finished hs => exact Or.inr (Or.inl hs)
  | @waiting p hs =>
    obtain ⟨c, m, hop⟩ := parked_of_reachable h .pong p (Or.inl hs)
    cases p <;> cases hop
    exact Or.inr (Or.inr ⟨_, hs⟩)
  | @join p u hs hop hu => cases p <;> cases hop

/-- `ping` does not wait for ever: the answer would come from a thread that can
move. -/
theorem ping_finished {ping : Status PingPoint} {pong : Status PongPoint}
    (hanswered : Answered ping (called pong) (answering pong))
    (hping : ping = .absent ∨ ping = .finished ∨ ∃ i, ping = .waiting (.wait i))
    (hpong : pong = .absent ∨ pong = .finished ∨ ∃ i, pong = .waiting (.wait i))
    (hsig : (pingPhase ping).Signalled) : ping = .finished := by
  rcases hping with rfl | rfl | ⟨i, rfl⟩
  · exact absurd hsig (by unfold Phase.Signalled; decide)
  · rfl
  · have hnone : called pong = false ∧ answering pong = false := by
      rcases hpong with rfl | rfl | ⟨j, rfl⟩ <;> exact ⟨rfl, rfl⟩
    unfold Answered at hanswered
    rw [hnone.1, hnone.2] at hanswered
    exact absurd hanswered (by simp)

/-- And `pong` does not wait when `ping` has finished: all lines are printed. -/
theorem pong_finished {v : View} (hturns : Turns howmany v) (hping : v.ping = .finished)
    (hpong : v.pong = .absent ∨ v.pong = .finished ∨ ∃ i, v.pong = .waiting (.wait i))
    (hsig : (pongPhase v.pong).Signalled) : v.pong = .finished := by
  rcases hpong with hpong | hpong | ⟨i, hpong⟩
  · rw [hpong] at hsig
    exact absurd hsig (by unfold Phase.Signalled; decide)
  · exact hpong
  · have hhand := hturns.hand
    have hrange := hturns.pongInRange
    rw [hping, hpong] at hhand
    rw [hpong] at hrange
    have heq : howmany = i := hhand.1
    have hlt : i < howmany := hrange
    omega

/-- As long as `ping` signals only while `pong` waits, no deadlock is reached. -/
theorem not_deadlocked (h : Reachable (program howmany) PongWaits (initial howmany) s) :
    ¬ Deadlocked (program howmany) s := by
  intro hdead
  rcases hdead with ⟨⟨t, hne, hnf⟩, hstuck⟩
  have hblocked := blocked_of_stuck (singleLock howmany) h (absent_of_create h) hstuck
  have hping := ping_of_blocked h (hblocked .ping)
  have hpong := pong_of_blocked h (hblocked .pong)
  have hstarted := started_of_reachable h
  -- Once the handshake is over, neither of the two threads can be left.
  have hdone : (pingPhase (view s).ping).Signalled → (pongPhase (view s).pong).Signalled →
      (view s).ping = .finished ∧ (view s).pong = .finished := by
    intro hp hq
    have hfinished := ping_finished (answered_of_reachable h) hping hpong hp
    exact ⟨hfinished, pong_finished (turns_of_reachable h) hfinished hpong hq⟩
  cases hblocked .main with
  | absent hs =>
    have hmain : (view s).main = .absent := hs
    rw [hmain] at hstarted
    exact hstarted
  | finished hs =>
    have hmain : (view s).main = .finished := hs
    rw [hmain] at hstarted
    have hboth := hdone (Or.inr hstarted.1) (Or.inr hstarted.2)
    cases t with
    | main => exact hnf hs
    | ping => exact hnf hboth.1
    | pong => exact hnf hboth.2
  | @waiting p hs =>
    obtain ⟨c, m, hop⟩ := parked_of_reachable h .main p (Or.inl hs)
    cases p <;> cases hop
    rename_i i
    have hmain : (view s).main = .waiting (.wait i) := hs
    rw [hmain] at hstarted
    -- The thread that `main` waits for is on its way to the signal.
    match i with
    | 0 =>
      have hphase := hstarted.2
      rcases hpong with hq | hq | ⟨j, hq⟩ <;> · simp [hq, pongPhase] at hphase
    | 1 =>
      have hphase := hstarted.1
      rcases hping with hp | hp | ⟨j, hp⟩ <;> · simp [hp, pingPhase] at hphase
  | @join p u hs hop hu =>
    cases p <;> cases hop
    rename_i i
    have hmain : (view s).main = .ready (.join i) := hs
    rw [hmain] at hstarted
    match i with
    | 0 => exact hu (hdone hstarted.1 hstarted.2).2
    | 1 => exact hu (hdone hstarted.1 (Or.inr hstarted.2)).1

/-! ## The deadlock -/

/-- A schedule on which `ping` signals before `pong` waits. -/
def lostSignal : List (Thread × Thread) :=
  List.replicate 3 (.main, .main) ++ List.replicate 4 (.pong, .main) ++
  List.replicate 5 (.main, .main) ++ List.replicate 7 (.ping, .main) ++
  List.replicate 2 (.pong, .pong) ++ List.replicate 2 (.main, .main)

/-- Where that schedule ends: `main` joins `pong`, and both threads wait. -/
def bothWait (s : PState) : Bool :=
  (view s).main = .ready .joinPong ∧ (view s).ping = .waiting (.wait 0) ∧
    (view s).pong = .waiting (.wait 0)

/-- When both threads wait, nobody can move. -/
theorem deadlocked_of_bothWait (h : bothWait s = true) : Deadlocked (program howmany) s := by
  obtain ⟨hmain, hping, hpong⟩ := of_decide_eq_true h
  unfold MainPoint.joinPong at hmain
  refine ⟨⟨.main, ?_, ?_⟩, ?_⟩
  · show (view s).main ≠ .absent
    simp [hmain]
  · show (view s).main ≠ .finished
    simp [hmain]
  · intro t s' hm
    have hn := next_of_move hm
    generalize view s' = v' at hn
    cases hn <;> simp_all

/-- With one round or more, a deadlock can be reached. -/
theorem deadlock_reachable (n : Nat) :
    ∃ s, Reachable (program (n + 1)) (fun _ _ => True) (initial (n + 1)) s ∧
      Deadlocked (program (n + 1)) s := by
  have hrun : (run (program (n + 1)) (initial (n + 1)) lostSignal).any bothWait = true := by
    rfl
  obtain ⟨s, hs, hboth⟩ := exists_reachable_of_run _ _ _ hrun
  exact ⟨s, hs, deadlocked_of_bothWait hboth⟩

/-- A run in which `ping` signals only while `pong` waits never ends in a deadlock.
Without that condition only the program with no round is safe. -/
theorem deadlock_free_iff (howmany : Nat) :
    (∀ s, Reachable (program howmany) PongWaits (initial howmany) s →
        ¬ Deadlocked (program howmany) s) ∧
      ((∀ s, Reachable (program howmany) (fun _ _ => True) (initial howmany) s →
          ¬ Deadlocked (program howmany) s) ↔ howmany = 0) := by
  refine ⟨fun s hs => not_deadlocked hs, ?_⟩
  constructor
  · intro hfree
    cases howmany with
    | zero => rfl
    | succ n =>
      obtain ⟨s, hs, hdead⟩ := deadlock_reachable n
      exact absurd hdead (hfree s hs)
  · intro heq s hs
    subst heq
    -- Without a round `ping` never signals in the game.
    refine not_deadlocked (hs.mono fun s t hs' _ _ i hi => ?_)
    have hrange := (turns_of_reachable hs').pingInRange
    rw [hi] at hrange
    exact absurd hrange (Nat.not_lt_zero i)

/-- The program as it stands can stop with both threads waiting. -/
theorem deadlock_howmany :
    ¬ ∀ s, Reachable (program 10) (fun _ _ => True) (initial 10) s →
      ¬ Deadlocked (program 10) s := by
  intro hfree
  obtain ⟨s, hs, hdead⟩ := deadlock_reachable 9
  exact hfree s hs hdead

end PtsTools.PingPong
