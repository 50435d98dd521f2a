import PtsTools.Listener.Model

/-!
# Strangers cannot influence the listener

Two states of the listener agree when they differ in nothing but the variables
that hold the last datagram.  A stranger changes only those variables, so the
state behind it agrees with the state before it (`step_stranger`).  A trusted
datagram assigns every one of them before anything reads it, so from two states
that agree the loop body does the same (`step_agree`).  That is the unwinding
argument, and `run_filter` carries it through a run.

Code run by `exec` shares the module variables, and a rebinding of `Gigacitys`
would change who is a stranger.  `KeepsGlobals` rules that out, and with it that a
name gets lost.
-/

namespace PtsTools.Listener

open PtsTools.Python

variable {W : Type} {host : Host W}

/-- Code run by `exec` does not rebind or delete the variables of the listener. -/
def KeepsGlobals (host : Host W) : Prop := ∀ w g code, (host.exec w g code).2.1 = g

/-- The senders that the listener obeys, as a test on datagrams. -/
def trusted (d : Datagram) : Bool := d.ip ∈ Gigacitys

/-- The same world, the same constants and the same names lost.  The variables of the
last datagram may differ. -/
structure Agree (s t : State W) : Prop where
  world : s.world = t.world
  gigacitys : s.globals.gigacitys = t.globals.gigacitys
  ptslinux : s.globals.ptslinux = t.globals.ptslinux
  lost : s.globals.lost = t.globals.lost

/-- Two ends of the loop body that a later datagram cannot tell apart. -/
inductive AgreeStep : Step W → Step W → Prop
  | ready {s t : State W} (h : Agree s t) : AgreeStep (.ready s) (.ready t)
  | left (s t : State W) : AgreeStep (.left s) (.left t)
  | failed (e : Uncaught) (s t : State W) : AgreeStep (.failed e s) (.failed e t)

theorem Agree.refl (s : State W) : Agree s s := ⟨rfl, rfl, rfl, rfl⟩

theorem Agree.symm {s t : State W} (h : Agree s t) : Agree t s :=
  ⟨h.world.symm, h.gigacitys.symm, h.ptslinux.symm, h.lost.symm⟩

theorem Agree.trans {s t u : State W} (h : Agree s t) (h' : Agree t u) : Agree s u :=
  ⟨h.world.trans h'.world, h.gigacitys.trans h'.gigacitys, h.ptslinux.trans h'.ptslinux,
    h.lost.trans h'.lost⟩

/-- The variables of two agreeing states are the same once a datagram has been
parsed. -/
theorem Agree.parse_eq {s t : State W} (h : Agree s t) (d : Datagram) (cmd : Str) :
    s.globals.parse d cmd = t.globals.parse d cmd := by
  simp only [Globals.parse, Globals.receive, senderName, h.gigacitys, h.ptslinux, h.lost]

theorem Agree.need_eq {s t : State W} (h : Agree s t) (names : List Name) :
    t.globals.need names = s.globals.need names := by
  rw [Globals.need, Globals.need, h.lost]

theorem AgreeStep.refl (r : Step W) : AgreeStep r r := by
  cases r with
  | ready s => exact .ready (Agree.refl s)
  | left s => exact .left s s
  | failed e s => exact .failed e s s

/-- From two agreeing states the loop body takes the same actions and ends in the
same way. -/
theorem step_agree (host : Host W) {s t : State W} (h : Agree s t) (d : Datagram) :
    (step host s d).1 = (step host t d).1 ∧ AgreeStep (step host s d).2 (step host t d).2 := by
  cases hneed : s.globals.need [.sock, .print, .gigacitys] with
  | error e =>
    obtain ⟨s', hs'⟩ := step_unusable (d := d) host hneed
    obtain ⟨t', ht'⟩ := step_unusable (d := d) host ((h.need_eq _).trans hneed)
    rw [hs', ht']
    exact ⟨rfl, .failed e s' t'⟩
  | ok _ =>
    have hneed' : t.globals.need [.sock, .print, .gigacitys] = .ok () := (h.need_eq _).trans hneed
    by_cases hip : d.ip ∈ s.globals.gigacitys
    · have hip' : d.ip ∈ t.globals.gigacitys := by rwa [← h.gigacitys]
      cases hname : s.globals.need [.ptslinux] with
      | error e =>
        obtain ⟨s', hs'⟩ := step_nameless host hneed hip hname
        obtain ⟨t', ht'⟩ := step_nameless host hneed' hip' ((h.need_eq _).trans hname)
        rw [hs', ht']
        exact ⟨rfl, .failed e s' t'⟩
      | ok _ =>
        have hname' : t.globals.need [.ptslinux] = .ok () := (h.need_eq _).trans hname
        cases hdec : decode (recvfrom d) with
        | none =>
          obtain ⟨s', hs'⟩ := step_undecodable host hneed hip hname hdec
          obtain ⟨t', ht'⟩ := step_undecodable host hneed' hip' hname' hdec
          rw [hs', ht']
          exact ⟨rfl, .failed _ s' t'⟩
        | some cmd =>
          -- Every variable has been assigned, so the two states are the same by now.
          have hsender : senderName s.globals d.ip = senderName t.globals d.ip := by
            rw [senderName, senderName, h.ptslinux]
          have heq : step host s d = step host t d := by
            rw [step_trusted hneed hip hname hdec, step_trusted hneed' hip' hname' hdec,
              h.parse_eq, hsender, h.world]
          rw [heq]
          exact ⟨rfl, AgreeStep.refl _⟩
    · have hip' : d.ip ∉ t.globals.gigacitys := by rwa [← h.gigacitys]
      rw [step_stranger hneed hip, step_stranger hneed' hip']
      exact ⟨rfl, .ready ⟨h.world, h.gigacitys, h.ptslinux, h.lost⟩⟩

/-- A command changes no variable but `cmd`, as long as `exec` rebinds nothing. -/
theorem obey_globals (hkeep : KeepsGlobals host) {s s' : State W} {ip cmd : Str}
    (h : (obey host s ip cmd).2 = .ready s') :
    ∃ text, s'.globals = s.globals.withCmd text := by
  unfold obey at h
  split at h
  · exact absurd h (by simp)
  · split at h
    · exact absurd h (by simp)
    · exact absurd h (by simp)
    · unfold startProgram at h
      dsimp only at h
      split at h
      · exact absurd h (by simp)
      · split at h
        · exact absurd h (by simp)
        · rw [← Step.ready.inj h]
          exact ⟨_, rfl⟩
    · unfold runCode at h
      dsimp only at h
      split at h
      · exact absurd h (by simp)
      · dsimp only at h
        split at h
        · exact absurd h (by simp)
        · rw [← Step.ready.inj h]
          exact ⟨_, hkeep _ _ _⟩

/-- The loop body keeps the constants, as long as `exec` rebinds nothing. -/
theorem step_keeps_constants (hkeep : KeepsGlobals host) {s s' : State W} (hs : s.HasConstants)
    {d : Datagram} (h : (step host s d).2 = .ready s') : s'.HasConstants := by
  have hneed := need_of_lost hs.lost
  by_cases hip : d.ip ∈ s.globals.gigacitys
  · cases hdec : decode (recvfrom d) with
    | none =>
      obtain ⟨t, ht⟩ := step_undecodable host (hneed _) hip (hneed _) hdec
      rw [ht] at h
      exact absurd h (by simp)
    | some cmd =>
      rw [step_trusted (hneed _) hip (hneed _) hdec] at h
      obtain ⟨text, hg⟩ := obey_globals hkeep h
      exact ⟨by rw [hg]; exact hs.gigacitys, by rw [hg]; exact hs.ptslinux,
        by rw [hg]; exact hs.lost⟩
  · rw [step_stranger (hneed _) hip] at h
    rw [← Step.ready.inj h]
    exact ⟨hs.gigacitys, hs.ptslinux, hs.lost⟩

/-! ## Runs -/

/-- Two runs with the same actions in the same order that stand in the same way,
with the same trusted datagrams unread. -/
structure SameRun (r r' : Run W) : Prop where
  actions : r.actions = r'.actions
  status : r.status = r'.status
  unread : r.unread.filter trusted = r'.unread.filter trusted

/-- A run does the same as the run from an agreeing state on the trusted
datagrams alone. -/
theorem run_filter (hkeep : KeepsGlobals host) {s t : State W} (h : Agree s t)
    (hs : s.HasConstants) (ds : List Datagram) :
    SameRun (run host s ds) (run host t (ds.filter trusted)) := by
  induction ds generalizing s t with
  | nil => exact ⟨rfl, rfl, rfl⟩
  | cons d ds ih =>
    by_cases hd : trusted d
    · obtain ⟨hacts, hend⟩ := step_agree host h d
      rw [List.filter_cons_of_pos hd]
      simp only [run]
      rcases hstep : step host s d with ⟨acts, r⟩
      rcases hstep' : step host t d with ⟨acts', r'⟩
      rw [hstep, hstep'] at hacts hend
      obtain rfl : acts = acts' := hacts
      cases hend with
      | ready hagree =>
        have hsame := ih hagree (step_keeps_constants hkeep hs (by rw [hstep]))
        exact ⟨by simp only [hsame.actions], hsame.status, hsame.unread⟩
      | left s' t' => exact ⟨rfl, rfl, by simp⟩
      | failed e s' t' => exact ⟨rfl, rfl, by simp⟩
    · have hip : d.ip ∉ s.globals.gigacitys := by
        rw [hs.gigacitys]
        simpa [trusted] using hd
      rw [List.filter_cons_of_neg hd]
      simp only [run, step_stranger (need_of_lost hs.lost _) hip, List.nil_append]
      exact ih ⟨h.world, h.gigacitys, h.ptslinux, h.lost⟩ ⟨hs.gigacitys, hs.ptslinux, hs.lost⟩

/-- Two sequences of datagrams that are equal without the strangers make the
listener do the same. -/
theorem strangers_cannot_influence (host : Host W) (hkeep : KeepsGlobals host) (w : W)
    {ds ds' : List Datagram} (h : ds.filter trusted = ds'.filter trusted) :
    SameRun (run host (start w) ds) (run host (start w) ds') := by
  have hl := run_filter hkeep (Agree.refl (start w)) (hasConstants_start w) ds
  have hr := run_filter hkeep (Agree.refl (start w)) (hasConstants_start w) ds'
  rw [h] at hl
  exact ⟨hl.actions.trans hr.actions.symm, hl.status.trans hr.status.symm,
    hl.unread.trans hr.unread.symm⟩

/-- A stranger in front of `byebye` makes no difference. -/
theorem strangers_cannot_influence_byebye :
    SameRun
      (run quietHost (start ())
        [⟨"10.0.0.1".toList, 40000, encode "calc.exe".toList⟩,
          ⟨"192.168.217.53".toList, 40001, encode "byebye".toList⟩])
      (run quietHost (start ())
        [⟨"192.168.217.53".toList, 40001, encode "byebye".toList⟩]) :=
  strangers_cannot_influence quietHost (fun _ _ _ => rfl) () (by decide)

end PtsTools.Listener
