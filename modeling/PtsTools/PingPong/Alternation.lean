import PtsTools.PingPong.Model

/-!
# The two threads take turns

Whatever the order of the moves, the lines `i : ping` and `i : pong` alternate
and no index is left out or comes twice.  This holds in states that are
deadlocked as well: a signal that is lost stops the game, and never makes a
thread play out of turn.

The invariant counts the lines that each thread has printed, which its program
point says, and ties the difference to the points of the two threads: `Hand`.
-/

namespace PtsTools.PingPong

open PtsTools.Lib.Pthread

/-! ## The lines of the game -/

/-- The lines in the order of the game, the first `n` of them. -/
def turns (n : Nat) : List Line :=
  (List.range n).map fun k => if k % 2 = 0 then .ping (k / 2) else .pong (k / 2)

theorem turns_append_ping (q : Nat) : turns (q + q) ++ [.ping q] = turns (q + 1 + q) := by
  have hn : q + 1 + q = q + q + 1 := by omega
  have heven : (q + q) % 2 = 0 := by omega
  have hhalf : (q + q) / 2 = q := by omega
  rw [hn, turns, turns, List.range_succ, List.map_append, List.map_singleton, if_pos heven, hhalf]

theorem turns_append_pong (q : Nat) : turns (q + 1 + q) ++ [.pong q] = turns (q + 1 + (q + 1)) := by
  have hn : q + 1 + (q + 1) = q + 1 + q + 1 := by omega
  have hodd : ¬ (q + 1 + q) % 2 = 0 := by omega
  have hhalf : (q + 1 + q) / 2 = q := by omega
  rw [hn, turns, turns, List.range_succ, List.map_append, List.map_singleton, if_neg hodd, hhalf]

/-! ## What the statuses say -/

variable {howmany : Nat}

/-- The number of lines that `ping` has printed. -/
def pings (howmany : Nat) : Status PingPoint → Nat
  | .absent => 0
  | .finished => howmany
  | .ready p | .waiting p | .woken p =>
    match p with
    | .lockSync | .signalSync | .unlockSync => 0
    | .lock i | .print i => i
    | .signal i | .wait i | .unlock i | .sleep i => i + 1
    | .bye => howmany

/-- The number of lines that `pong` has printed. -/
def pongs (howmany : Nat) : Status PongPoint → Nat
  | .absent => 0
  | .finished => howmany
  | .ready p | .waiting p | .woken p =>
    match p with
    | .lockSync | .sleepSync | .signalSync | .unlockSync => 0
    | .lock i | .wait i | .print i => i
    | .signal i | .unlock i => i + 1
    | .bye => howmany

/-- The counter of `ping` is in range. -/
def PingInRange (howmany : Nat) : Status PingPoint → Prop
  | .absent | .finished => True
  | .ready p | .waiting p | .woken p =>
    match p with
    | .lockSync | .signalSync | .unlockSync | .bye => True
    | .lock i | .print i | .signal i | .wait i | .unlock i | .sleep i => i < howmany

/-- The counter of `pong` is in range. -/
def PongInRange (howmany : Nat) : Status PongPoint → Prop
  | .absent | .finished => True
  | .ready p | .waiting p | .woken p =>
    match p with
    | .lockSync | .sleepSync | .signalSync | .unlockSync | .bye => True
    | .lock i | .wait i | .print i | .signal i | .unlock i => i < howmany

/-- `pong` has got the signal and has not printed its line yet. -/
def called : Status PongPoint → Bool
  | .woken _ | .ready (.print _) => true
  | _ => false

/-- `pong` has printed its line and has not signalled yet. -/
def answering : Status PongPoint → Bool
  | .ready (.signal _) => true
  | _ => false

/-- Whose turn it is, for `p` lines of `ping` and `q` lines of `pong`.  Only while
`ping` is at its signal or its wait it is one line ahead, and only then `pong`
can have been called. -/
def Hand (ping : Status PingPoint) (called answering : Bool) (p q : Nat) : Prop :=
  match ping with
  | .ready (.signal _) => p = q + 1 ∧ called = false ∧ answering = false
  | .ready (.wait _) => p = q + 1 ∧ answering = false
  | .waiting (.wait _) => if answering then p = q else p = q + 1
  | _ => p = q ∧ called = false ∧ answering = false

/-- The lines that the threads have left with. -/
def farewells (ping : Status PingPoint) (pong : Status PongPoint) : List Line :=
  (match ping with
    | .finished => [.pingBye]
    | _ => []) ++
  (match pong with
    | .finished => [.pongBye]
    | _ => [])

/-- The printed lines: those of the game in their order, then the farewells in
any order. -/
def Played (printed : List Line) (n : Nat) (byes : List Line) : Prop :=
  ∃ last, last.Perm byes ∧ printed = turns n ++ last

/-- The invariant of the game. -/
structure Turns (howmany : Nat) (v : View) : Prop where
  pingInRange : PingInRange howmany v.ping
  pongInRange : PongInRange howmany v.pong
  played : Played v.printed (pings howmany v.ping + pongs howmany v.pong)
    (farewells v.ping v.pong)
  hand : Hand v.ping (called v.pong) (answering v.pong) (pings howmany v.ping)
    (pongs howmany v.pong)

/-- One more line of the game, before any farewell. -/
theorem Played.turn {printed : List Line} {n n' : Nat} {line : Line} {byes : List Line}
    (h : Played printed n byes) (hbyes : byes = []) (hline : turns n ++ [line] = turns n') :
    Played (printed ++ [line]) n' byes := by
  obtain ⟨last, hperm, rfl⟩ := h
  subst hbyes
  obtain rfl : last = [] := hperm.eq_nil
  exact ⟨[], .nil, by rw [List.append_nil, hline, List.append_nil]⟩

/-- One more farewell. -/
theorem Played.bye {printed : List Line} {n : Nat} {line : Line} {byes byes' : List Line}
    (h : Played printed n byes) (hbyes : (byes ++ [line]).Perm byes') :
    Played (printed ++ [line]) n byes' := by
  obtain ⟨last, hperm, rfl⟩ := h
  exact ⟨last ++ [line], (hperm.append_right [line]).trans hbyes, List.append_assoc _ _ _⟩

theorem farewells_eq_nil {ping : Status PingPoint} {pong : Status PongPoint}
    (hping : ping ≠ .finished) (hpong : pong ≠ .finished) : farewells ping pong = [] := by
  unfold farewells
  cases ping <;> cases pong <;> simp_all

/-- No thread prints more lines than there are rounds. -/
theorem pings_le {status : Status PingPoint} (h : PingInRange howmany status) :
    pings howmany status ≤ howmany := by
  cases status with
  | absent => exact Nat.zero_le howmany
  | finished => exact Nat.le_refl howmany
  | ready p | waiting p | woken p =>
    cases p <;> simp only [PingInRange, pings] at h ⊢ <;> omega

theorem pongs_le {status : Status PongPoint} (h : PongInRange howmany status) :
    pongs howmany status ≤ howmany := by
  cases status with
  | absent => exact Nat.zero_le howmany
  | finished => exact Nat.le_refl howmany
  | ready p | waiting p | woken p =>
    cases p <;> simp only [PongInRange, pongs] at h ⊢ <;> omega

/-! ## The heads of the loops -/

theorem pingInRange_loop (i : Nat) :
    PingInRange howmany (.ready (.loop howmany i)) := by
  unfold PingPoint.loop
  split_ifs with hi
  · exact hi
  · trivial

theorem pings_loop {i : Nat} (hi : i ≤ howmany) :
    pings howmany (.ready (.loop howmany i)) = i := by
  unfold PingPoint.loop
  split_ifs with hlt
  · rfl
  · show howmany = i
    omega

theorem hand_loop (i : Nat) (called answering : Bool) (p q : Nat) :
    Hand (.ready (.loop howmany i)) called answering p q ↔
      p = q ∧ called = false ∧ answering = false := by
  unfold PingPoint.loop
  split_ifs <;> rfl

theorem pongInRange_loop (i : Nat) :
    PongInRange howmany (.ready (.loop howmany i)) := by
  unfold PongPoint.loop
  split_ifs with hi
  · exact hi
  · trivial

theorem pongs_loop {i : Nat} (hi : i ≤ howmany) :
    pongs howmany (.ready (.loop howmany i)) = i := by
  unfold PongPoint.loop
  split_ifs with hlt
  · rfl
  · show howmany = i
    omega

theorem called_loop (i : Nat) : called (.ready (.loop howmany i)) = false := by
  unfold PongPoint.loop
  split_ifs <;> rfl

theorem answering_loop (i : Nat) : answering (.ready (.loop howmany i)) = false := by
  unfold PongPoint.loop
  split_ifs <;> rfl

/-! ## The invariant -/

/-- Once `pong` has been called, `ping` waits or is about to. -/
theorem wait_of_called {ping : Status PingPoint} {answering : Bool} {p q : Nat}
    (h : Hand ping true answering p q) :
    ∃ i, ping = .ready (.wait i) ∨ ping = .waiting (.wait i) := by
  unfold Hand at h
  split at h
  · exact absurd h.2.1 (by simp)
  · exact ⟨_, Or.inl rfl⟩
  · exact ⟨_, Or.inr rfl⟩
  · exact absurd h.2.1 (by simp)

/-- When `pong` has printed its line, `ping` is waiting for the answer. -/
theorem waiting_of_answering {ping : Status PingPoint} {called : Bool} {p q : Nat}
    (h : Hand ping called true p q) : (∃ i, ping = .waiting (.wait i)) ∧ p = q := by
  unfold Hand at h
  split at h
  · exact absurd h.2.2 (by simp)
  · exact absurd h.2 (by simp)
  · exact ⟨⟨_, rfl⟩, h⟩
  · exact absurd h.2.2 (by simp)

/-- `ping` comes to the head of its loop with the lines that its counter says, and
without a turn to answer. -/
theorem Turns.pingLoop {main : Status MainPoint} {p : PingPoint} {pong : Status PongPoint}
    {printed : List Line} {i : Nat} (h : Turns howmany (⟨main, .ready p, pong, printed⟩ : View))
    (hi : i ≤ howmany) (hpings : pings howmany (.ready p) = i)
    (hhand : i = pongs howmany pong ∧ called pong = false ∧ answering pong = false) :
    Turns howmany (⟨main, .ready (.loop howmany i), pong, printed⟩ : View) := by
  obtain ⟨_, hpong, hplayed, _⟩ := h
  refine ⟨pingInRange_loop i, hpong, ?_, ?_⟩
  · show Played printed _ _
    rw [pings_loop hi, ← hpings]
    exact hplayed
  · rw [hand_loop, pings_loop hi]
    exact hhand

/-- So does `pong`, from a point where it is not called. -/
theorem Turns.pongLoop {main : Status MainPoint} {ping : Status PingPoint} {q : PongPoint}
    {printed : List Line} {i : Nat} (h : Turns howmany (⟨main, ping, .ready q, printed⟩ : View))
    (hi : i ≤ howmany) (hpongs : pongs howmany (.ready q) = i)
    (hhand : Hand ping false false (pings howmany ping) i) :
    Turns howmany (⟨main, ping, .ready (.loop howmany i), printed⟩ : View) := by
  obtain ⟨hping, _, hplayed, _⟩ := h
  refine ⟨hping, pongInRange_loop i, ?_, ?_⟩
  · show Played printed _ _
    rw [pongs_loop hi, ← hpongs]
    exact hplayed
  · show Hand ping _ _ _ _
    rw [called_loop, answering_loop, pongs_loop hi]
    exact hhand

/-- Every move keeps the invariant.  The threads hold `gmutex` in turn, so `pong`
does not print while `ping` is about to wait. -/
theorem Turns.next {v v' : View} {t : Thread} (h : Turns howmany v)
    (hex : ∀ i j, v.ping = .ready (.wait i) → v.pong ≠ .ready (.print j))
    (hn : Next howmany v t v') : Turns howmany v' := by
  obtain ⟨main, ping, pong, printed⟩ := v
  have hturns := h
  obtain ⟨hping, hpong, hplayed, hhand⟩ := h
  cases hn with
  | mainLock | mainWait | mainRegain | mainUnlockPong | mainUnlockPing | joinPong | joinPing =>
    exact ⟨hping, hpong, hplayed, hhand⟩
  | createPong h hp =>
    obtain rfl : pong = _ := hp
    exact ⟨hping, hpong, hplayed, hhand⟩
  | createPing h hp =>
    obtain rfl : ping = _ := hp
    exact ⟨hping, hpong, hplayed, hhand⟩
  | pingLockSync h | pingWakesMain h | pingLosesSync h | pingLock h | pingRegain h
  | pingUnlock h =>
    obtain rfl : ping = _ := h
    exact ⟨hping, hpong, hplayed, hhand⟩
  | pingUnlockSync h =>
    obtain rfl : ping = _ := h
    exact hturns.pingLoop (Nat.zero_le howmany) rfl hhand
  | @pingPrint i h =>
    obtain rfl : ping = _ := h
    obtain ⟨heq, hcalled, hanswering⟩ := hhand
    have hi : pongs howmany pong = i := heq.symm
    have hrange : i < howmany := hping
    have hnone : farewells (.ready (.print i)) pong = [] := by
      apply farewells_eq_nil (by simp)
      intro heq
      subst heq
      have hall : howmany = i := hi
      omega
    refine ⟨hping, hpong, ?_, ?_⟩
    · apply hplayed.turn hnone
      show turns (i + pongs howmany pong) ++ [Line.ping i] = turns (i + 1 + pongs howmany pong)
      rw [hi]
      exact turns_append_ping i
    · exact ⟨congrArg (· + 1) heq, hcalled, hanswering⟩
  | pingWakesPong h hp =>
    obtain rfl : ping = _ := h
    obtain rfl : pong = _ := hp
    exact ⟨hping, hpong, hplayed, hhand.1, rfl⟩
  | pingLoses h hp =>
    obtain rfl : ping = _ := h
    exact ⟨hping, hpong, hplayed, hhand.1, hhand.2.2⟩
  | pingWait h =>
    obtain rfl : ping = _ := h
    refine ⟨hping, hpong, hplayed, ?_⟩
    show if answering pong then _ else _
    rw [hhand.2]
    exact hhand.1
  | @pingSleep i h =>
    obtain rfl : ping = _ := h
    have hi : i + 1 ≤ howmany := hping
    exact hturns.pingLoop hi rfl hhand
  | pingBye h =>
    obtain rfl : ping = _ := h
    exact ⟨hping, hpong, hplayed.bye List.perm_append_comm, hhand⟩
  | pongLockSync h | pongSleepSync h | pongWakesMain h | pongLosesSync h | pongLock h | pongWait h
  | pongRegain h =>
    obtain rfl : pong = _ := h
    exact ⟨hping, hpong, hplayed, hhand⟩
  | pongUnlockSync h =>
    obtain rfl : pong = _ := h
    exact hturns.pongLoop (Nat.zero_le howmany) rfl hhand
  | @pongPrint i h =>
    obtain rfl : pong = _ := h
    obtain ⟨j, hwait | hwait⟩ := wait_of_called hhand
    · exact absurd rfl (hex j i hwait)
    · obtain rfl : ping = _ := hwait
      have hj : j + 1 = i + 1 := hhand
      refine ⟨hping, hpong, hplayed.turn rfl ?_, hj⟩
      show turns (j + 1 + i) ++ [Line.pong i] = turns (j + 1 + (i + 1))
      rw [hj]
      exact turns_append_pong i
  | pongWakesPing h hp =>
    obtain rfl : pong = _ := h
    obtain rfl : ping = _ := hp
    exact ⟨hping, hpong, hplayed, hhand, rfl, rfl⟩
  | pongLoses h hp =>
    obtain rfl : pong = _ := h
    obtain ⟨⟨j, hj⟩, _⟩ := waiting_of_answering hhand
    exact absurd hj (hp j)
  | @pongUnlock i h =>
    obtain rfl : pong = _ := h
    have hi : i + 1 ≤ howmany := hpong
    exact hturns.pongLoop hi rfl hhand
  | pongBye h =>
    obtain rfl : pong = _ := h
    refine ⟨hping, hpong, hplayed.bye ?_, hhand⟩
    unfold farewells
    rw [List.append_nil]

variable {guard : PState → Thread → Prop} {s : PState}

/-- `ping` and `pong` are never inside their `gmutex` sections together. -/
theorem not_wait_and_print (h : Reachable (program howmany) guard (initial howmany) s) (i j : Nat)
    (hping : (view s).ping = .ready (.wait i)) : (view s).pong ≠ .ready (.print j) := by
  intro hpong
  have howned := owned_of_reachable (singleLock howmany) h
  have hp : s.held holds .ping = some .gmutex := held_eq hping
  have hq : s.held holds .pong = some .gmutex := held_eq hpong
  exact absurd (howned.exclusive hp hq) (by decide)

/-- The invariant holds in every reachable state. -/
theorem turns_of_reachable (h : Reachable (program howmany) guard (initial howmany) s) :
    Turns howmany (view s) := by
  apply h.invariant (I := fun s => Turns howmany (view s))
  · exact ⟨trivial, trivial, ⟨[], .nil, rfl⟩, rfl, rfl, rfl⟩
  · intro s s' t hs ih _ hm
    exact ih.next (not_wait_and_print hs) (next_of_move hm)

/-- `ping` is at most one line ahead. -/
theorem eq_or_succ_of_hand {ping : Status PingPoint} {called answering : Bool} {p q : Nat}
    (h : Hand ping called answering p q) : p = q ∨ p = q + 1 := by
  unfold Hand at h
  split at h
  · exact Or.inr h.1
  · exact Or.inr h.1
  · split_ifs at h
    · exact Or.inl h
    · exact Or.inr h
  · exact Or.inl h.1

/-- Once a thread has left, all lines of the game are printed. -/
theorem all_played {main : Status MainPoint} {ping : Status PingPoint}
    {pong : Status PongPoint} {printed : List Line}
    (h : Turns howmany (⟨main, ping, pong, printed⟩ : View))
    (hleft : ping = .finished ∨ pong = .finished) :
    pings howmany ping + pongs howmany pong = 2 * howmany := by
  obtain ⟨hping, hpong, _, hhand⟩ := h
  have hp : pings howmany ping ≤ howmany := pings_le hping
  rcases hleft with rfl | rfl
  · have heq : howmany = pongs howmany pong := hhand.1
    show howmany + pongs howmany pong = 2 * howmany
    omega
  · have heq : pings howmany ping = howmany ∨ pings howmany ping = howmany + 1 :=
      eq_or_succ_of_hand hhand
    show pings howmany ping + howmany = 2 * howmany
    omega

theorem farewells_nodup (ping : Status PingPoint) (pong : Status PongPoint) :
    (farewells ping pong).Nodup := by
  unfold farewells
  cases ping <;> cases pong <;> simp

theorem mem_farewells {ping : Status PingPoint} {pong : Status PongPoint} {line : Line}
    (h : line ∈ farewells ping pong) : line = .pingBye ∨ line = .pongBye := by
  unfold farewells at h
  cases ping <;> cases pong <;> simp_all

/-- In every reachable state, deadlocked or not, the printed lines are the first
lines of the game in their order, and a farewell of a thread can follow only when
all of them have been printed. -/
theorem printed_alternates (howmany : Nat) (s : PState)
    (h : Reachable (program howmany) (fun _ _ => True) (initial howmany) s) :
    ∃ n byes, s.printed.map Line.text = (turns n).map Line.text ++ byes.map Line.text ∧
      n ≤ 2 * howmany ∧ byes.Nodup ∧ (∀ line ∈ byes, line = .pingBye ∨ line = .pongBye) ∧
      (byes ≠ [] → n = 2 * howmany) := by
  have hturns := turns_of_reachable h
  obtain ⟨byes, hperm, hprinted⟩ := hturns.played
  have hp := pings_le hturns.pingInRange
  have hq := pongs_le hturns.pongInRange
  have hn : s.printed = turns (pings howmany (view s).ping + pongs howmany (view s).pong) ++ byes :=
    hprinted
  refine ⟨_, byes, by rw [hn, List.map_append], by omega, ?_, ?_, ?_⟩
  · exact hperm.nodup_iff.mpr (farewells_nodup _ _)
  · exact fun line hline => mem_farewells (hperm.mem_iff.mp hline)
  · intro hne
    refine all_played hturns ?_
    by_contra hno
    rw [not_or] at hno
    rw [farewells_eq_nil hno.1 hno.2] at hperm
    exact hne hperm.eq_nil

/-- A schedule on which both threads play one round to its end. -/
def oneRound : List (Thread × Thread) :=
  List.replicate 3 (.main, .main) ++ List.replicate 3 (.pong, .main) ++
  List.replicate 3 (.pong, .pong) ++ List.replicate 5 (.main, .main) ++
  List.replicate 5 (.ping, .main) ++ List.replicate 2 (.ping, .pong) ++
  List.replicate 5 (.pong, .ping)

/-- After one round `pong` has said goodbye. -/
theorem printed_alternates_oneRound :
    ∃ s : PState, s.printed = [.ping 0, .pong 0, .pongBye] ∧
      ∃ n byes, s.printed.map Line.text = (turns n).map Line.text ++ byes.map Line.text ∧
        n ≤ 2 * 1 ∧ byes.Nodup ∧ (∀ line ∈ byes, line = .pingBye ∨ line = .pongBye) ∧
        (byes ≠ [] → n = 2 * 1) := by
  obtain ⟨s, hs, hprinted⟩ := exists_reachable_of_run (program 1) (initial 1) oneRound
    (p := fun s => s.printed = [.ping 0, .pong 0, .pongBye]) (by decide +kernel)
  exact ⟨s, of_decide_eq_true hprinted, printed_alternates 1 s hs⟩

/-- The farewells are printed lines too, so not all printed lines are lines of the
game. -/
theorem printed_farewell :
    ∃ s, Reachable (program 1) (fun _ _ => True) (initial 1) s ∧
      ¬ ∃ n, s.printed.map Line.text = (turns n).map Line.text := by
  obtain ⟨s, hs, hprinted⟩ := exists_reachable_of_run (program 1) (initial 1) oneRound
    (p := fun s => s.printed = [.ping 0, .pong 0, .pongBye]) (by decide +kernel)
  refine ⟨s, hs, ?_⟩
  intro hprinted
  rcases hprinted with ⟨n, hn⟩
  rw [of_decide_eq_true hprinted] at hn
  have hlen : 3 = n := by
    have := congrArg List.length hn
    simpa [turns] using this
  subst hlen
  exact absurd hn (by decide +kernel)

end PtsTools.PingPong
