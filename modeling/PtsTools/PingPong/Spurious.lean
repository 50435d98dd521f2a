import PtsTools.Lib.PthreadSpurious
import PtsTools.PingPong.Outcomes

/-!
# The game with wakeups that nobody asked for

The threads test nothing behind `pthread_cond_wait`, and the wait may come back without a
signal.  Then they do not take turns: `merged_iff` says that the lines of the
two threads can come in any order, if only those of each thread come in its own.

But the game does not stop any more.  A signal that is lost keeps a thread only until it
wakes up by itself, so every run ends with all lines printed: `spurious_ends`.  As before,
the stores of `pthread_join` do no harm.
-/

namespace PtsTools.PingPong

open PtsTools.Lib.Pthread

variable {howmany : Nat} {s : PState}

/-- The states of the program, where the threads may wake up without a signal. -/
abbrev Wakes (howmany : Nat) (s : PState) : Prop :=
  SpuriousReachable (program howmany) (fun _ _ d => d) (initial howmany) () s ()

/-! ## The lines of each thread -/

/-- The line is one of `ping`. -/
def Line.ofPing : Line → Bool
  | .ping _ | .pingBye => true
  | .pong _ | .pongBye => false

/-- The line is one of `pong`. -/
def Line.ofPong (line : Line) : Bool := !line.ofPing

/-- The lines of `ping`. -/
def pingLines (howmany : Nat) : List Line := (List.range howmany).map .ping ++ [.pingBye]

/-- The lines of `pong`. -/
def pongLines (howmany : Nat) : List Line := (List.range howmany).map .pong ++ [.pongBye]

/-- The lines that `ping` has printed. -/
def pingSaid (howmany : Nat) : Status PingPoint → List Line
  | .finished => pingLines howmany
  | status => (List.range (pings howmany status)).map .ping

/-- The lines that `pong` has printed. -/
def pongSaid (howmany : Nat) : Status PongPoint → List Line
  | .finished => pongLines howmany
  | status => (List.range (pongs howmany status)).map .pong

theorem pingSaid_loop {i : Nat} (hi : i ≤ howmany) :
    pingSaid howmany (.ready (.loop howmany i)) = (List.range i).map .ping := by
  show (List.range (pings howmany (.ready (.loop howmany i)))).map _ = _
  rw [pings_loop hi]

theorem pongSaid_loop {i : Nat} (hi : i ≤ howmany) :
    pongSaid howmany (.ready (.loop howmany i)) = (List.range i).map .pong := by
  show (List.range (pongs howmany (.ready (.loop howmany i)))).map _ = _
  rw [pongs_loop hi]

/-- The invariant with wakeups: each thread has printed its own lines in their order. -/
structure Spoken (howmany : Nat) (v : View) : Prop where
  pingInRange : PingInRange howmany v.ping
  pongInRange : PongInRange howmany v.pong
  ping : v.printed.filter Line.ofPing = pingSaid howmany v.ping
  pong : v.printed.filter Line.ofPong = pongSaid howmany v.pong

theorem map_range_succ (f : Nat → Line) (i : Nat) :
    (List.range i).map f ++ [f i] = (List.range (i + 1)).map f := by
  rw [List.range_succ, List.map_append, List.map_singleton]

/-- Every move keeps the invariant. -/
theorem Spoken.next {v v' : View} {t : Thread} (h : Spoken howmany v)
    (hn : Next howmany v t v') : Spoken howmany v' := by
  obtain ⟨main, ping, pong, printed⟩ := v
  obtain ⟨hpingRange, hpongRange, hping, hpong⟩ := h
  cases hn with
  | mainLock | mainWait | mainRegain | mainUnlockPong | mainUnlockPing | joinPong | joinPing =>
    exact ⟨hpingRange, hpongRange, hping, hpong⟩
  | createPong h habsent =>
    obtain rfl : pong = _ := habsent
    exact ⟨hpingRange, trivial, hping, hpong⟩
  | createPing h habsent =>
    obtain rfl : ping = _ := habsent
    exact ⟨trivial, hpongRange, hping, hpong⟩
  | pingLockSync h | pingWakesMain h | pingLosesSync h | pingLock h | pingLoses h | pingWait h
  | pingRegain h | pingUnlock h =>
    obtain rfl : ping = _ := h
    exact ⟨hpingRange, hpongRange, hping, hpong⟩
  | pingWakesPong h hwaits =>
    obtain rfl : ping = _ := h
    obtain rfl : pong = _ := hwaits
    exact ⟨hpingRange, hpongRange, hping, hpong⟩
  | pingUnlockSync h =>
    obtain rfl : ping = _ := h
    exact ⟨pingInRange_loop 0, hpongRange, hping.trans (pingSaid_loop (Nat.zero_le _)).symm, hpong⟩
  | @pingSleep i h =>
    obtain rfl : ping = _ := h
    have hi : i + 1 ≤ howmany := hpingRange
    exact ⟨pingInRange_loop _, hpongRange, hping.trans (pingSaid_loop hi).symm, hpong⟩
  | @pingPrint i h =>
    obtain rfl : ping = _ := h
    refine ⟨hpingRange, hpongRange, ?_, ?_⟩
    · show (printed ++ [Line.ping i]).filter Line.ofPing = (List.range (i + 1)).map .ping
      rw [List.filter_append, ← map_range_succ]
      exact congrArg (· ++ [Line.ping i]) hping
    · rw [List.filter_append]
      exact (List.append_nil _).trans hpong
  | pingBye h =>
    obtain rfl : ping = _ := h
    refine ⟨trivial, hpongRange, ?_, ?_⟩
    · rw [List.filter_append]
      exact congrArg (· ++ [Line.pingBye]) hping
    · rw [List.filter_append]
      exact (List.append_nil _).trans hpong
  | pongLockSync h | pongSleepSync h | pongWakesMain h | pongLosesSync h | pongLock h | pongWait h
  | pongRegain h | pongLoses h =>
    obtain rfl : pong = _ := h
    exact ⟨hpingRange, hpongRange, hping, hpong⟩
  | pongWakesPing h hwaits =>
    obtain rfl : pong = _ := h
    obtain rfl : ping = _ := hwaits
    exact ⟨hpingRange, hpongRange, hping, hpong⟩
  | pongUnlockSync h =>
    obtain rfl : pong = _ := h
    exact ⟨hpingRange, pongInRange_loop 0, hping, hpong.trans (pongSaid_loop (Nat.zero_le _)).symm⟩
  | @pongUnlock i h =>
    obtain rfl : pong = _ := h
    have hi : i + 1 ≤ howmany := hpongRange
    exact ⟨hpingRange, pongInRange_loop _, hping, hpong.trans (pongSaid_loop hi).symm⟩
  | @pongPrint i h =>
    obtain rfl : pong = _ := h
    refine ⟨hpingRange, hpongRange, ?_, ?_⟩
    · rw [List.filter_append]
      exact (List.append_nil _).trans hping
    · show (printed ++ [Line.pong i]).filter Line.ofPong = (List.range (i + 1)).map .pong
      rw [List.filter_append, ← map_range_succ]
      exact congrArg (· ++ [Line.pong i]) hpong
  | pongBye h =>
    obtain rfl : pong = _ := h
    refine ⟨hpingRange, trivial, ?_, ?_⟩
    · rw [List.filter_append]
      exact (List.append_nil _).trans hping
    · rw [List.filter_append]
      exact congrArg (· ++ [Line.pongBye]) hpong

/-- So does a wakeup. -/
theorem Spoken.wakeup (h : Spoken howmany (view s)) {t : Thread} {p : Point t}
    (hs : s.status t = .waiting p) : Spoken howmany (view (s.set t (.woken p))) := by
  obtain ⟨hpingRange, hpongRange, hping, hpong⟩ := h
  cases t with
  | main => exact ⟨hpingRange, hpongRange, hping, hpong⟩
  | ping =>
    have hwaits : (view s).ping = .waiting p := hs
    rw [hwaits] at hpingRange hping
    exact ⟨hpingRange, hpongRange, hping, hpong⟩
  | pong =>
    have hwaits : (view s).pong = .waiting p := hs
    rw [hwaits] at hpongRange hpong
    exact ⟨hpingRange, hpongRange, hping, hpong⟩

theorem spoken_of_wakes (h : Wakes howmany s) : Spoken howmany (view s) := by
  apply h.invariant (I := fun s _ => Spoken howmany (view s))
  · exact ⟨trivial, trivial, rfl, rfl⟩
  · intro s s' d t _ ih hm
    cases hm with
    | move hm => exact ih.next (next_of_move hm)
    | wakeup hs => exact ih.wakeup hs

theorem prefix_range {n m : Nat} (h : n ≤ m) : List.range n <+: List.range m := by
  have htake := List.take_prefix n (List.range m)
  rwa [List.take_range, Nat.min_eq_left h] at htake

theorem prefix_pingLines {status : Status PingPoint} (h : PingInRange howmany status) :
    pingSaid howmany status <+: pingLines howmany := by
  have hle := (prefix_range (pings_le h)).map Line.ping
  have hsaid := hle.trans (List.prefix_append _ [Line.pingBye])
  cases status with
  | finished => exact List.prefix_rfl
  | _ => exact hsaid

theorem prefix_pongLines {status : Status PongPoint} (h : PongInRange howmany status) :
    pongSaid howmany status <+: pongLines howmany := by
  have hle := (prefix_range (pongs_le h)).map Line.pong
  have hsaid := hle.trans (List.prefix_append _ [Line.pongBye])
  cases status with
  | finished => exact List.prefix_rfl
  | _ => exact hsaid

/-! ## Any order can be printed -/

/-- Where `ping` goes on behind `n` lines. -/
def pingAt (howmany n : Nat) : Status PingPoint :=
  if n ≤ howmany then .ready (.loop howmany n) else .finished

/-- Where `pong` goes on behind `n` lines. -/
def pongAt (howmany n : Nat) : Status PongPoint :=
  if n ≤ howmany then .ready (.loop howmany n) else .finished

/-- The threads at the heads of their loops, behind their lines. -/
def resting (howmany n m : Nat) (printed : List Line) : PState :=
  game (pingAt howmany n) (pongAt howmany m) printed

/-- A thread at the head of its loop is in front of a lock or of its farewell. -/
theorem pingAt_cases (howmany n : Nat) :
    pingAt howmany n = .ready (.lock n) ∨ pingAt howmany n = .ready .bye ∨
      pingAt howmany n = .finished := by
  unfold pingAt PingPoint.loop
  split_ifs
  · exact Or.inl rfl
  · exact Or.inr (Or.inl rfl)
  · exact Or.inr (Or.inr rfl)

theorem pongAt_cases (howmany n : Nat) :
    pongAt howmany n = .ready (.lock n) ∨ pongAt howmany n = .ready .bye ∨
      pongAt howmany n = .finished := by
  unfold pongAt PongPoint.loop
  split_ifs
  · exact Or.inl rfl
  · exact Or.inr (Or.inl rfl)
  · exact Or.inr (Or.inr rfl)

theorem pingAt_of_lt {n : Nat} (h : n < howmany) : pingAt howmany n = .ready (.lock n) := by
  unfold pingAt PingPoint.loop
  rw [if_pos h.le, if_pos h]

theorem pongAt_of_lt {n : Nat} (h : n < howmany) : pongAt howmany n = .ready (.lock n) := by
  unfold pongAt PongPoint.loop
  rw [if_pos h.le, if_pos h]

theorem pingAt_self (howmany : Nat) : pingAt howmany howmany = .ready .bye := by
  unfold pingAt PingPoint.loop
  rw [if_pos le_rfl, if_neg (lt_irrefl howmany)]

theorem pongAt_self (howmany : Nat) : pongAt howmany howmany = .ready .bye := by
  unfold pongAt PongPoint.loop
  rw [if_pos le_rfl, if_neg (lt_irrefl howmany)]

/-- What a schedule with wakeups leads to, if that is a state of the game. -/
theorem wakes_of_run (schedule : List (Thread × Thread)) {ping : Status PingPoint}
    {pong : Status PongPoint} {printed : List Line} (hs : Wakes howmany s)
    (h : (spuriousRun (program howmany) (fun _ _ d => d) s () schedule).map
        (fun r => (view r.1, r.1.owner .syncMutex, r.1.owner .gmutex)) =
      some (view (game ping pong printed), none, none)) :
    Wakes howmany (game ping pong printed) := by
  obtain ⟨⟨s', d⟩, hs', hobserved⟩ := Option.map_eq_some_iff.mp h
  obtain ⟨hview, howners⟩ := Prod.mk.inj hobserved
  obtain ⟨hsync, hgmutex⟩ := Prod.mk.inj howners
  rw [← eq_game hview hsync hgmutex]
  exact spuriousReachable_run hs' hs

/-- A round of `ping` alone, which wakes up by itself. -/
def pingAlone : List (Thread × Thread) := List.replicate 8 (.ping, .ping)

/-- A round of `pong` alone, which wakes up by itself. -/
def pongAlone : List (Thread × Thread) := List.replicate 7 (.pong, .pong)

theorem wakes_ping {n m : Nat} {printed : List Line} (hn : n < howmany)
    (h : Wakes howmany (resting howmany n m printed)) :
    Wakes howmany (resting howmany (n + 1) m (printed ++ [.ping n])) := by
  unfold resting at h ⊢
  have hnext : pingAt howmany (n + 1) = .ready (.loop howmany (n + 1)) := if_pos hn
  rw [pingAt_of_lt hn] at h
  rw [hnext]
  rcases pongAt_cases howmany m with hpong | hpong | hpong
  all_goals
    rw [hpong] at h ⊢
    exact wakes_of_run pingAlone h rfl

theorem wakes_pong {n m : Nat} {printed : List Line} (hm : m < howmany)
    (h : Wakes howmany (resting howmany n m printed)) :
    Wakes howmany (resting howmany n (m + 1) (printed ++ [.pong m])) := by
  unfold resting at h ⊢
  have hnext : pongAt howmany (m + 1) = .ready (.loop howmany (m + 1)) := if_pos hm
  rw [pongAt_of_lt hm] at h
  rw [hnext]
  rcases pingAt_cases howmany n with hping | hping | hping
  all_goals
    rw [hping] at h ⊢
    exact wakes_of_run pongAlone h rfl

theorem wakes_pingBye {m : Nat} {printed : List Line}
    (h : Wakes howmany (resting howmany howmany m printed)) :
    Wakes howmany (resting howmany (howmany + 1) m (printed ++ [.pingBye])) := by
  unfold resting at h ⊢
  have hnext : pingAt howmany (howmany + 1) = .finished := if_neg (Nat.not_succ_le_self howmany)
  rw [pingAt_self] at h
  rw [hnext]
  exact wakes_of_run [(.ping, .ping)] h rfl

theorem wakes_pongBye {n : Nat} {printed : List Line}
    (h : Wakes howmany (resting howmany n howmany printed)) :
    Wakes howmany (resting howmany n (howmany + 1) (printed ++ [.pongBye])) := by
  unfold resting at h ⊢
  have hnext : pongAt howmany (howmany + 1) = .finished := if_neg (Nat.not_succ_le_self howmany)
  rw [pongAt_self] at h
  rw [hnext]
  exact wakes_of_run [(.pong, .pong)] h rfl

/-- The line that a thread prints next. -/
theorem next_line {lines : List Line} {f : Nat → Line} {line bye : Line}
    (h : lines ++ [line] <+: (List.range howmany).map f ++ [bye]) :
    (lines.length < howmany ∧ line = f lines.length) ∨ (lines.length = howmany ∧ line = bye) := by
  obtain ⟨rest, hrest⟩ := h
  have hline : ((List.range howmany).map f ++ [bye])[lines.length]? = some line := by
    rw [← hrest, List.append_assoc, List.getElem?_append_right (Nat.le_refl _), Nat.sub_self]
    rfl
  have hlength := congrArg List.length hrest
  simp only [List.length_append, List.length_singleton, List.length_map, List.length_range]
    at hlength
  by_cases hlt : lines.length < howmany
  · left
    rw [List.getElem?_append_left (by simpa using hlt), List.getElem?_map,
      List.getElem?_range hlt] at hline
    exact ⟨hlt, (Option.some.inj hline).symm⟩
  · right
    have heq : lines.length = howmany := by omega
    rw [heq, List.getElem?_append_right (by simp)] at hline
    simp only [List.length_map, List.length_range, Nat.sub_self] at hline
    exact ⟨heq, (Option.some.inj hline).symm⟩

/-- Any lines can have been printed in which those of each thread come in their order. -/
theorem wakes_resting {printed : List Line}
    (hping : printed.filter Line.ofPing <+: pingLines howmany)
    (hpong : printed.filter Line.ofPong <+: pongLines howmany) :
    Wakes howmany (resting howmany (printed.filter Line.ofPing).length
      (printed.filter Line.ofPong).length printed) := by
  induction printed using List.reverseRecOn with
  | nil =>
    have hstart : resting howmany 0 0 [] = roundStart howmany 0 [] := by
      unfold resting pingAt pongAt roundStart
      rw [if_pos (Nat.zero_le _), if_pos (Nat.zero_le _)]
    show Wakes howmany (resting howmany 0 0 [])
    rw [hstart]
    obtain ⟨d, hd⟩ := (reachable_run (handshake_done howmany) .refl).spurious
    exact hd
  | append_singleton printed line ih =>
    rw [List.filter_append] at hping hpong
    have hbefore := ih ((List.prefix_append _ _).trans hping) ((List.prefix_append _ _).trans hpong)
    rw [List.filter_append, List.filter_append]
    cases hline : line.ofPing with
    | true =>
      have hsaid : [line].filter Line.ofPing = [line] :=
        List.filter_eq_self.mpr (by simpa using hline)
      have hnone : [line].filter Line.ofPong = [] := by simp [Line.ofPong, hline]
      rw [hsaid] at hping ⊢
      rw [hnone, List.append_nil, List.length_append]
      rcases next_line hping with ⟨hlt, rfl⟩ | ⟨heq, rfl⟩
      · exact wakes_ping hlt hbefore
      · rw [heq] at hbefore ⊢
        exact wakes_pingBye hbefore
    | false =>
      have hnone : [line].filter Line.ofPing = [] := by simp [hline]
      have hsaid : [line].filter Line.ofPong = [line] := by simp [Line.ofPong, hline]
      rw [hsaid] at hpong ⊢
      rw [hnone, List.append_nil, List.length_append]
      rcases next_line hpong with ⟨hlt, rfl⟩ | ⟨heq, rfl⟩
      · exact wakes_pong hlt hbefore
      · rw [heq] at hbefore ⊢
        exact wakes_pongBye hbefore

/-- What the program can have printed with wakeups: the lines of each thread up to some
point, merged in any way. -/
theorem merged_iff (howmany : Nat) (printed : List Line) :
    (∃ s, Wakes howmany s ∧ s.printed = printed) ↔
      printed.filter Line.ofPing <+: pingLines howmany ∧
        printed.filter Line.ofPong <+: pongLines howmany := by
  constructor
  · intro h
    obtain ⟨s, hs, rfl⟩ := h
    have hspoken := spoken_of_wakes hs
    have hping : s.printed.filter Line.ofPing = _ := hspoken.ping
    have hpong : s.printed.filter Line.ofPong = _ := hspoken.pong
    rw [hping, hpong]
    exact ⟨prefix_pingLines hspoken.pingInRange, prefix_pongLines hspoken.pongInRange⟩
  · intro h
    exact ⟨_, wakes_resting h.1 h.2, rfl⟩

/-! ## Every run comes to its end -/

/-- How far `main` is with wakeups: it does not wait for the threads to start, but for
their ends. -/
def Begun (main : Status MainPoint) (ping : Status PingPoint) (pong : Status PongPoint) : Prop :=
  match main with
  | .absent => False
  | .finished => ping = .finished ∧ pong = .finished
  | .ready p | .waiting p | .woken p =>
    match p with
    | .lock 0 | .create 0 => ping = .absent ∧ pong = .absent
    | .lock 1 | .create 1 | .wait 0 | .unlock 0 => ping = .absent ∧ pong ≠ .absent
    | .wait 1 | .unlock 1 | .join 0 => ping ≠ .absent ∧ pong ≠ .absent
    | .join 1 => ping ≠ .absent ∧ pong = .finished

/-- `ping` goes on. -/
theorem Begun.ping {main : Status MainPoint} {ping ping' : Status PingPoint}
    {pong : Status PongPoint} (h : Begun main ping pong) (habsent : ping ≠ .absent)
    (hfinished : ping ≠ .finished) (habsent' : ping' ≠ .absent) : Begun main ping' pong := by
  cases main with
  | absent => exact h
  | finished => exact absurd h.1 hfinished
  | ready p | waiting p | woken p =>
    cases p with
    | lock i | create i =>
      match i with
      | 0 => exact absurd h.1 habsent
      | 1 => exact absurd h.1 habsent
    | wait i | unlock i =>
      match i with
      | 0 => exact absurd h.1 habsent
      | 1 => exact ⟨habsent', h.2⟩
    | join i =>
      match i with
      | 0 => exact ⟨habsent', h.2⟩
      | 1 => exact ⟨habsent', h.2⟩

/-- `pong` goes on. -/
theorem Begun.pong {main : Status MainPoint} {ping : Status PingPoint}
    {pong pong' : Status PongPoint} (h : Begun main ping pong) (habsent : pong ≠ .absent)
    (hfinished : pong ≠ .finished) (habsent' : pong' ≠ .absent) : Begun main ping pong' := by
  cases main with
  | absent => exact h
  | finished => exact absurd h.2 hfinished
  | ready p | waiting p | woken p =>
    cases p with
    | lock i | create i =>
      match i with
      | 0 => exact absurd h.2 habsent
      | 1 => exact ⟨h.1, habsent'⟩
    | wait i | unlock i =>
      match i with
      | 0 => exact ⟨h.1, habsent'⟩
      | 1 => exact ⟨h.1, habsent'⟩
    | join i =>
      match i with
      | 0 => exact ⟨h.1, habsent'⟩
      | 1 => exact absurd h.2 hfinished

/-- Every move keeps this. -/
theorem Begun.next {v v' : View} {t : Thread} (h : Begun v.main v.ping v.pong)
    (hn : Next howmany v t v') : Begun v'.main v'.ping v'.pong := by
  obtain ⟨main, ping, pong, printed⟩ := v
  cases hn with
  | @mainLock i hmain | @mainWait i hmain | @mainRegain i hmain =>
    obtain rfl : main = _ := hmain
    match i with
    | 0 => exact h
    | 1 => exact h
  | createPong hmain hpong =>
    obtain rfl : main = _ := hmain
    exact ⟨h.1, by simp⟩
  | createPing hmain hping =>
    obtain rfl : main = _ := hmain
    exact ⟨by simp, h.2⟩
  | mainUnlockPong hmain | mainUnlockPing hmain =>
    obtain rfl : main = _ := hmain
    exact h
  | joinPong hmain hpong =>
    obtain rfl : main = _ := hmain
    exact ⟨h.1, hpong⟩
  | joinPing hmain hping =>
    obtain rfl : main = _ := hmain
    exact ⟨hping, h.2⟩
  | pingLockSync hping | pingLosesSync hping | pingUnlockSync hping | pingLock hping
  | pingPrint hping | pingLoses hping | pingWait hping | pingUnlock hping | pingSleep hping
  | pingBye hping | pingRegain hping =>
    obtain rfl : ping = _ := hping
    exact h.ping (by simp) (by simp) (by simp)
  | @pingWakesMain i hping hmain =>
    obtain rfl : ping = _ := hping
    obtain rfl : main = _ := hmain
    have hwoken : Begun (.woken (.wait i)) (.ready .signalSync) pong := h
    exact hwoken.ping (by simp) (by simp) (by simp)
  | pingWakesPong hping hpong =>
    obtain rfl : ping = _ := hping
    obtain rfl : pong = _ := hpong
    exact (h.ping (by simp) (by simp) (by simp)).pong (by simp) (by simp) (by simp)
  | pongLockSync hpong | pongSleepSync hpong | pongLosesSync hpong | pongUnlockSync hpong
  | pongLock hpong | pongWait hpong | pongRegain hpong | pongPrint hpong | pongLoses hpong
  | pongUnlock hpong | pongBye hpong =>
    obtain rfl : pong = _ := hpong
    exact h.pong (by simp) (by simp) (by simp)
  | @pongWakesMain i hpong hmain =>
    obtain rfl : pong = _ := hpong
    obtain rfl : main = _ := hmain
    have hwoken : Begun (.woken (.wait i)) ping (.ready .signalSync) := h
    exact hwoken.pong (by simp) (by simp) (by simp)
  | pongWakesPing hpong hping =>
    obtain rfl : pong = _ := hpong
    obtain rfl : ping = _ := hping
    exact (h.pong (by simp) (by simp) (by simp)).ping (by simp) (by simp) (by simp)

/-- So does a wakeup. -/
theorem Begun.wakeup (h : Begun (view s).main (view s).ping (view s).pong) {t : Thread}
    {p : Point t} (hs : s.status t = .waiting p) :
    Begun (view (s.set t (.woken p))).main (view (s.set t (.woken p))).ping
      (view (s.set t (.woken p))).pong := by
  cases t with
  | main =>
    have hmain : (view s).main = .waiting p := hs
    rw [hmain] at h
    exact h
  | ping =>
    have hping : (view s).ping = .waiting p := hs
    rw [hping] at h
    exact h.ping (by simp) (by simp) (show Status.woken p ≠ .absent by simp)
  | pong =>
    have hpong : (view s).pong = .waiting p := hs
    rw [hpong] at h
    exact h.pong (by simp) (by simp) (show Status.woken p ≠ .absent by simp)

theorem begun_of_wakes (h : Wakes howmany s) :
    Begun (view s).main (view s).ping (view s).pong := by
  apply h.invariant (I := fun s _ => Begun (view s).main (view s).ping (view s).pong)
  · exact ⟨rfl, rfl⟩
  · intro s s' d t _ ih hm
    cases hm with
    | move hm => exact ih.next (next_of_move hm)
    | wakeup hs => exact ih.wakeup hs

theorem owned_of_wakes (h : Wakes howmany s) : Owned holds s :=
  h.invariant (I := fun s _ => Owned holds s) (owned_start (singleLock howmany) .main)
    fun _ _ _ _ _ ih hm => ih.spurious (singleLock howmany) hm

theorem parked_of_wakes (h : Wakes howmany s) : Parked (program howmany) s :=
  h.invariant (I := fun s _ => Parked (program howmany) s) (parked_start _ .main)
    fun _ _ _ _ _ ih hm => ih.spurious hm

/-- A thread that `main` creates was not created before. -/
theorem absent_of_wakes (h : Wakes howmany s) (t u : Thread) (p : Point t)
    (hs : s.status t = .ready p) (hop : (program howmany).op p = .create u) :
    s.status u = .absent := by
  have hbegun := begun_of_wakes h
  cases t <;> cases p <;> try cases hop
  rename_i i
  have hmain : (view s).main = .ready (.create i) := hs
  rw [hmain] at hbegun
  match i with
  | 0 => exact hbegun.2
  | 1 => exact hbegun.1

/-- All threads have returned, and each of them has printed all its lines. -/
def Returned (howmany : Nat) (v : View) : Prop :=
  v.main = .finished ∧ v.ping = .finished ∧ v.pong = .finished ∧
    v.printed.filter Line.ofPing = pingLines howmany ∧
    v.printed.filter Line.ofPong = pongLines howmany

/-- Where no thread can move or wake up, all have returned. -/
theorem returned_of_stuck (h : Wakes howmany s)
    (hstuck : SpuriouslyStuck (program howmany) s) : Returned howmany (view s) := by
  have hbegun := begun_of_wakes h
  have hspoken := spoken_of_wakes h
  have hblocked := blocked_of_spuriouslyStuck (singleLock howmany) (owned_of_wakes h)
    (parked_of_wakes h) (absent_of_wakes h) hstuck
  have hping : (view s).ping ≠ .absent → (view s).ping = .finished := by
    intro habsent
    rcases hblocked .ping with hs | hs | ⟨p, u, hs, hop, hu⟩
    · exact absurd hs habsent
    · exact hs
    · cases p <;> cases hop
  have hpong : (view s).pong ≠ .absent → (view s).pong = .finished := by
    intro habsent
    rcases hblocked .pong with hs | hs | ⟨p, u, hs, hop, hu⟩
    · exact absurd hs habsent
    · exact hs
    · cases p <;> cases hop
  have hmain : (view s).main = .finished := by
    rcases hblocked .main with hs | hs | ⟨p, u, hs, hop, hu⟩
    · have hmain : (view s).main = .absent := hs
      rw [hmain] at hbegun
      exact absurd hbegun id
    · exact hs
    · cases p <;> cases hop
      rename_i i
      have hmain : (view s).main = .ready (.join i) := hs
      rw [hmain] at hbegun
      match i with
      | 0 => exact absurd (hpong hbegun.2) hu
      | 1 => exact absurd (hping hbegun.1) hu
  rw [hmain] at hbegun
  obtain ⟨hpingEnd, hpongEnd⟩ := hbegun
  have hpingSaid := hspoken.ping
  have hpongSaid := hspoken.pong
  rw [hpingEnd] at hpingSaid
  rw [hpongEnd] at hpongSaid
  exact ⟨hmain, hpingEnd, hpongEnd, hpingSaid, hpongSaid⟩

/-- With wakeups every run of the program stops, after a number of moves and wakeups that
the number of rounds bounds, and it stops with all threads at their ends and all lines
printed. -/
theorem spurious_ends (howmany : Nat) :
    (∀ n s, SpuriousMoves (program howmany) n (initial howmany) s → n ≤ 33 * howmany + 92) ∧
      SpuriouslyEndsIn (program howmany) (fun s => Returned howmany (view s))
        (initial howmany) := by
  constructor
  · intro n s h
    have hle := (left howmany).spuriousMoves_le h
    rw [left_initial] at hle
    omega
  · exact (left howmany).spuriouslyEndsIn (I := Wakes howmany)
      (fun s s' t hs hm => hs.move hm) (fun s => returned_of_stuck) .refl

end PtsTools.PingPong
