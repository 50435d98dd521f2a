import PtsTools.Listener.Model

/-!
# When the listener survives

The loop has no handler around its body.  One datagram ends the service when
decoding raises, when the token list is empty, when the program cannot be started,
and when the handler of the `exec` call raises itself.  Code run by `exec` can also
end it by what it leaves behind: the loop still prints `cmd`, and it looks up the
names that it uses in every round.  `Servable` is the condition on a datagram under
which none of these happens, and `dies_iff` says that nothing else can end the loop.

The second half is about whole runs.  `run_stopped_iff` says when a run stops,
and `survives_iff` carries the condition through every run.
-/

namespace PtsTools.Listener

open PtsTools.Python
open PtsTools.Lib.Replace (replaceAll)

variable {W : Type}

/-- The code that the Python branch gives to `exec`. -/
def pythonCode (ip cmd : Str) : Str := (replaceAll "/home/".toList (share ip) cmd).drop 7

/-- An exception that can be printed and whose `args` are a value that
`format(_, "d")` takes and one that `format(_, "")` takes. -/
def PyException.Handled (inst : PyException) : Prop :=
  inst.str ≠ none ∧ ∃ m1 m2, inst.args = [m1, m2] ∧ m1.formatD ≠ none ∧ m2.format ≠ none

/-- Code ended so that the loop gets behind the `exec` call. -/
def Outcome.Handled (g : Globals) : Outcome → Prop
  | .returned => True
  | .raised inst =>
    inst.Handled ∧ ∀ name ∈ [Name.exception, .print, .qPushButton, .app], name ∉ g.lost
  | .exited => False

/-- The variables with which the loop gets to the end of its body and into the next
round: `cmd` is there and can be printed. -/
def Globals.GoesOn (g : Globals) : Prop :=
  (∀ name ∈ [Name.print, .sock], name ∉ g.lost) ∧ ∃ cmd, g.cmd = some cmd ∧ cmd.str ≠ none

/-- Code run by `exec` ends so that the loop goes on. -/
def CleanExec (host : Host W) (s : State W) (d : Datagram) (cmd : Str) : Prop :=
  let ip := senderName s.globals d.ip
  let text := replaceAll "/home/".toList (share ip) cmd
  let r := host.exec s.world ((s.globals.parse d cmd).withCmd text) (pythonCode ip cmd)
  r.2.2.Handled r.2.1 ∧ r.2.1.GoesOn

/-- The commands that the loop body gets through: the text has a token, a program can
be started, and code ends cleanly.  No name that this needs is lost. -/
structure Obeyable (host : Host W) (s : State W) (d : Datagram) (cmd : Str) : Prop where
  names : ∀ name ∈ tokenizeNames cmd, name ∉ s.globals.lost
  visible : ∃ c ∈ cmd, c ∉ Shlex.whitespace
  popen : ∀ branch text,
    dispatch (senderName s.globals d.ip) cmd (tokenize cmd) = .ok (.popen branch text) →
      (∀ name ∈ branch.names, name ∉ s.globals.lost) ∧ host.popen s.world text ≠ none
  python : cmd.take 7 = "python ".toList →
    (∀ name ∈ [Name.exec], name ∉ s.globals.lost) ∧ CleanExec host s d cmd

/-- The datagrams that the loop body gets through: those of strangers, and those that
decode to a command which it gets through. -/
def Servable (host : Host W) (s : State W) (d : Datagram) : Prop :=
  (∀ name ∈ [Name.sock, .print, .gigacitys], name ∉ s.globals.lost) ∧
    (d.ip ∈ s.globals.gigacitys →
      (∀ name ∈ [Name.ptslinux], name ∉ s.globals.lost) ∧
        ∃ cmd, decode (recvfrom d) = some cmd ∧ Obeyable host s d cmd)

/-- The datagram that asks the listener to stop. -/
def IsByebye (s : State W) (d : Datagram) : Prop :=
  d.ip ∈ s.globals.gigacitys ∧ decode (recvfrom d) = some "byebye".toList

/-- An uncaught exception ends the loop at the datagram. -/
def Dies (host : Host W) (s : State W) (d : Datagram) : Prop :=
  ∃ e s', (step host s d).2 = .failed e s'

/-- Some datagram that the loop reads in the run asks it to stop. -/
def ReadsByebye (host : Host W) (s : State W) (ds : List Datagram) : Prop :=
  ∃ pre d post, ds = pre ++ d :: post ∧ (run host s pre).status = .waiting ∧
    IsByebye (run host s pre).state d

/-- The loop survives a run: after each datagram it waits for the next one or has
stopped by `break`, and it has stopped exactly when it has read `byebye`. -/
structure Survives (host : Host W) (s : State W) (ds : List Datagram) : Prop where
  alive : ∀ pre, pre <+: ds →
    (run host s pre).status = .waiting ∨ (run host s pre).status = .stopped
  stops_iff : ∀ pre, pre <+: ds →
    ((run host s pre).status = .stopped ↔ ReadsByebye host s pre)

/-! ## Behind the `exec` call -/

/-- The handler gets through exactly with an exception that it can show. -/
theorem handler_ok_iff (inst : PyException) :
    (∃ text, handler inst = .ok text) ↔ inst.Handled := by
  obtain ⟨str, args⟩ := inst
  unfold handler PyException.Handled
  cases str with
  | none => simp
  | some shown =>
    rcases args with _ | ⟨m1, _ | ⟨m2, _ | ⟨m3, args⟩⟩⟩
    · simp
    · simp
    · obtain ⟨str, d, format⟩ := m1
      obtain ⟨str', d', format'⟩ := m2
      cases d <;> cases format' <;> simp
    · simp

/-- Two steps that can raise get through exactly if both do. -/
theorem bind_ok_iff {α β : Type} {x : Except Uncaught α} {f : α → Except Uncaught β} {b : β} :
    (x >>= f) = .ok b ↔ ∃ a, x = .ok a ∧ f a = .ok b := by
  cases x with
  | error e => simp [bind, Except.bind]
  | ok a => simp [bind, Except.bind]

theorem need_bind_ok_iff {β : Type} {g : Globals} {names : List Name}
    {f : Unit → Except Uncaught β} {b : β} :
    (g.need names >>= f) = .ok b ↔ (∀ name ∈ names, name ∉ g.lost) ∧ f () = .ok b := by
  rw [bind_ok_iff, ← need_eq_ok_iff]
  exact ⟨fun ⟨_, h⟩ => h, fun h => ⟨(), h⟩⟩

/-- The end of the loop body is reached exactly with what it needs. -/
theorem finish_ok_iff (g : Globals) : g.finish = .ok () ↔ g.GoesOn := by
  unfold Globals.finish Globals.GoesOn
  rw [need_bind_ok_iff]
  cases hcmd : g.cmd with
  | none => simp
  | some cmd =>
    cases hstr : cmd.str with
    | none => simp [hstr]
    | some shown => simp [hstr, need_eq_ok_iff]

/-- The loop gets behind the `exec` call exactly with code that ended cleanly. -/
theorem behindExec_ok_iff (g : Globals) (outcome : Outcome) :
    g.behindExec outcome = .ok () ↔ outcome.Handled g ∧ g.GoesOn := by
  cases outcome with
  | returned => exact (finish_ok_iff g).trans (and_iff_right trivial).symm
  | exited => simp [Globals.behindExec, Outcome.Handled]
  | raised inst =>
    unfold Globals.behindExec Outcome.Handled
    have hnames : (∀ name ∈ [Name.exception, .print, .qPushButton, .app], name ∉ g.lost) ↔
        (∀ name ∈ [Name.exception, .print], name ∉ g.lost) ∧
          ∀ name ∈ [Name.qPushButton, .app], name ∉ g.lost := by
      rw [← List.forall_mem_append]
      rfl
    show _ ↔ (inst.Handled ∧ ∀ name ∈ [Name.exception, .print, .qPushButton, .app],
      name ∉ g.lost) ∧ g.GoesOn
    rw [need_bind_ok_iff, bind_ok_iff, ← handler_ok_iff, hnames]
    simp only [need_bind_ok_iff, finish_ok_iff]
    constructor
    · intro h
      obtain ⟨hfront, text, htext, hbehind, hgoes⟩ := h
      exact ⟨⟨⟨text, htext⟩, hfront, hbehind⟩, hgoes⟩
    · intro h
      obtain ⟨⟨⟨text, htext⟩, hfront, hbehind⟩, hgoes⟩ := h
      exact ⟨hfront, text, htext, hbehind, hgoes⟩

/-! ## One datagram -/

/-- A branch that starts a program ends the loop exactly if it has lost a name or the
program cannot be started. -/
theorem startProgram_failed_iff (host : Host W) (s : State W) (branch : Branch) (text : Str) :
    (∃ e s', (startProgram host s branch text).2 = .failed e s') ↔
      ¬ ((∀ name ∈ branch.names, name ∉ s.globals.lost) ∧ host.popen s.world text ≠ none) := by
  rw [← need_eq_ok_iff]
  cases hneed : s.globals.need branch.names with
  | error e =>
    have hneed' : (s.globals.withCmd text).need branch.names = .error e := hneed
    simp [startProgram, hneed']
  | ok _ =>
    rw [startProgram_eq hneed]
    cases host.popen s.world text <;> simp

/-- The branch that runs code ends the loop exactly if it has lost a name or the code
does not end cleanly. -/
theorem runCode_failed_iff (host : Host W) (s : State W) (text : Str) :
    (∃ e s', (runCode host s text).2 = .failed e s') ↔
      ¬ ((∀ name ∈ [Name.exec], name ∉ s.globals.lost) ∧
        let r := host.exec s.world (s.globals.withCmd text) (text.drop 7)
        r.2.2.Handled r.2.1 ∧ r.2.1.GoesOn) := by
  dsimp only
  rw [← need_eq_ok_iff, ← behindExec_ok_iff]
  cases hneed : s.globals.need [.exec] with
  | error e =>
    have hneed' : (s.globals.withCmd text).need [.exec] = .error e := hneed
    simp [runCode, hneed']
  | ok _ =>
    rw [runCode_eq hneed]
    dsimp only
    cases Globals.behindExec _ _ <;> simp

/-- Only a `python` command goes to `exec`. -/
theorem take_ne_of_popen {ip cmd text : Str} {branch : Branch}
    (hd : dispatch ip cmd (tokenize cmd) = .ok (.popen branch text)) :
    cmd.take 7 ≠ "python ".toList := by
  intro htake
  have hsplit : cmd = "python ".toList ++ cmd.drop 7 := by
    rw [← htake, List.take_append_drop]
  rw [hsplit, dispatch_python] at hd
  exact absurd hd (by simp)

/-- The loop does not get through a command exactly if something in its way is
missing. -/
theorem obey_failed_iff (host : Host W) (s : State W) (d : Datagram) (cmd : Str) :
    (∃ e s', (obey host { s with globals := s.globals.parse d cmd }
        (senderName s.globals d.ip) cmd).2 = .failed e s') ↔ ¬ Obeyable host s d cmd := by
  by_cases hnames : ∀ name ∈ tokenizeNames cmd, name ∉ s.globals.lost
  · have hnames' : ∀ name ∈ tokenizeNames cmd,
        name ∉ (State.mk (s.globals.parse d cmd) s.world).globals.lost := hnames
    by_cases hblank : ∀ c ∈ cmd, c ∈ Shlex.whitespace
    · obtain ⟨e, he⟩ := obey_blank host { s with globals := s.globals.parse d cmd }
        (senderName s.globals d.ip) hblank
      refine iff_of_true ⟨e, _, by rw [he]⟩ fun h => ?_
      obtain ⟨c, hc, hvisible⟩ := h.visible
      exact hvisible (hblank c hc)
    · rw [obey_of_names host hnames']
      have hne : tokenize cmd ≠ [] := fun h => hblank (tokenize_eq_nil_iff.mp h)
      push Not at hblank
      rcases dispatch_cases (senderName s.globals d.ip) cmd hne with
        ⟨branch, text, hd⟩ | ⟨hpy, hd⟩ | ⟨hb, hd⟩
      · have hpy := take_ne_of_popen hd
        rw [hd]
        refine (startProgram_failed_iff host _ branch text).trans (not_congr ?_)
        constructor
        · intro hstarts
          refine ⟨hnames, hblank, fun branch' text' hd' => ?_, fun h => absurd h hpy⟩
          rw [hd] at hd'
          simp only [Except.ok.injEq, Dispatch.popen.injEq] at hd'
          obtain ⟨rfl, rfl⟩ := hd'
          exact hstarts
        · exact fun h => h.popen branch text hd
      · rw [hd]
        refine (runCode_failed_iff host _ _).trans (not_congr ?_)
        constructor
        · intro hruns
          refine ⟨hnames, hblank, fun branch' text' hd' => ?_, fun _ => hruns⟩
          rw [hd] at hd'
          exact absurd hd' (by simp)
        · exact fun h => h.python hpy
      · rw [hd]
        have hobey : Obeyable host s d cmd := by
          refine ⟨hnames, hblank, fun branch' text' hd' => ?_, ?_⟩
          · rw [hd] at hd'
            exact absurd hd' (by simp)
          · rw [hb]
            exact fun h => absurd h (by decide)
        exact iff_of_false (by simp) (not_not.mpr hobey)
  · refine iff_of_true ?_ fun h => hnames h.names
    rw [← need_eq_ok_iff] at hnames
    have hneed : ∃ e, (State.mk (s.globals.parse d cmd) s.world).globals.need
        (tokenizeNames cmd) = .error e := by
      cases h : s.globals.need (tokenizeNames cmd) with
      | error e => exact ⟨e, h⟩
      | ok _ => exact absurd h hnames
    obtain ⟨e, he⟩ := hneed
    exact ⟨e, _, by rw [obey, he]⟩

/-- The loop leaves by `break` only from `byebye`. -/
theorem eq_byebye_of_left {host : Host W} {s s' : State W} {ip cmd : Str}
    (hleft : (obey host s ip cmd).2 = .left s') : cmd = "byebye".toList := by
  by_cases hblank : ∀ c ∈ cmd, c ∈ Shlex.whitespace
  · obtain ⟨e, he⟩ := obey_blank host s ip hblank
    rw [he] at hleft
    exact absurd hleft (by simp)
  · unfold obey at hleft
    cases hneed : s.globals.need (tokenizeNames cmd) with
    | error e =>
      rw [hneed] at hleft
      exact absurd hleft (by simp)
    | ok _ =>
      rw [hneed] at hleft
      rcases dispatch_cases ip cmd (fun h => hblank (tokenize_eq_nil_iff.mp h)) with
        ⟨branch, text, hd⟩ | ⟨_, hd⟩ | ⟨hb, _⟩
      · rw [hd] at hleft
        unfold startProgram at hleft
        dsimp only at hleft
        split at hleft
        · exact absurd hleft (by simp)
        · split at hleft <;> exact absurd hleft (by simp)
      · rw [hd] at hleft
        unfold runCode at hleft
        dsimp only at hleft
        split at hleft
        · exact absurd hleft (by simp)
        · dsimp only at hleft
          split at hleft <;> exact absurd hleft (by simp)
      · exact hb

/-- How the loop body ends at a command of a trusted sender. -/
theorem step_of_hears {host : Host W} {s : State W} {d : Datagram}
    (hnames : ∀ name ∈ [Name.sock, .print, .gigacitys], name ∉ s.globals.lost)
    (hip : d.ip ∈ s.globals.gigacitys)
    (hname : ∀ name ∈ [Name.ptslinux], name ∉ s.globals.lost) {cmd : Str}
    (hcmd : decode (recvfrom d) = some cmd) :
    (Dies host s d ↔ ¬ Obeyable host s d cmd) ∧
      ((∃ s', (step host s d).2 = .left s') ↔
        cmd = "byebye".toList ∧ Obeyable host s d cmd) := by
  rw [Dies, step_trusted (need_eq_ok_iff.mpr hnames) hip (need_eq_ok_iff.mpr hname) hcmd]
  refine ⟨obey_failed_iff host s d cmd, fun hleft => ?_, fun hbye => ?_⟩
  · obtain ⟨s', hs'⟩ := hleft
    refine ⟨eq_byebye_of_left hs', by_contra fun hno => ?_⟩
    obtain ⟨e, t, ht⟩ := (obey_failed_iff host s d cmd).mpr hno
    rw [hs'] at ht
    exact absurd ht (by simp)
  · obtain ⟨rfl, hobey⟩ := hbye
    rw [obey_of_names (s := { s with globals := s.globals.parse d "byebye".toList }) host
      hobey.names, dispatch_byebye]
    exact ⟨_, rfl⟩

/-- A datagram ends the loop where a name is lost that the loop looks up before it
reads the command. -/
theorem dies_of_lost (host : Host W) {s : State W} {d : Datagram}
    (hlost : ¬ ((∀ name ∈ [Name.sock, .print, .gigacitys], name ∉ s.globals.lost) ∧
      (d.ip ∈ s.globals.gigacitys → ∀ name ∈ [Name.ptslinux], name ∉ s.globals.lost))) :
    Dies host s d := by
  rw [← need_eq_ok_iff, ← need_eq_ok_iff] at hlost
  cases hneed : s.globals.need [.sock, .print, .gigacitys] with
  | error e =>
    obtain ⟨s', hs'⟩ := step_unusable (d := d) host hneed
    exact ⟨e, s', by rw [hs']⟩
  | ok _ =>
    have hip : d.ip ∈ s.globals.gigacitys :=
      by_contra fun hno => hlost ⟨hneed, fun h => absurd h hno⟩
    cases hname : s.globals.need [.ptslinux] with
    | error e =>
      obtain ⟨s', hs'⟩ := step_nameless host hneed hip hname
      exact ⟨e, s', by rw [hs']⟩
    | ok _ => exact absurd ⟨hneed, fun _ => hname⟩ hlost

/-- Nothing but the condition decides whether the loop dies at a datagram. -/
theorem dies_iff (host : Host W) (s : State W) (d : Datagram) :
    Dies host s d ↔ ¬ Servable host s d := by
  by_cases hlost : (∀ name ∈ [Name.sock, .print, .gigacitys], name ∉ s.globals.lost) ∧
      (d.ip ∈ s.globals.gigacitys → ∀ name ∈ [Name.ptslinux], name ∉ s.globals.lost)
  · obtain ⟨hnames, hname⟩ := hlost
    by_cases hip : d.ip ∈ s.globals.gigacitys
    · cases hcmd : decode (recvfrom d) with
      | none =>
        obtain ⟨s', hs'⟩ := step_undecodable host (need_eq_ok_iff.mpr hnames) hip
          (need_eq_ok_iff.mpr (hname hip)) hcmd
        refine iff_of_true ⟨_, s', by rw [hs']⟩ fun h => ?_
        obtain ⟨_, cmd, hsome, _⟩ := h.2 hip
        rw [hcmd] at hsome
        exact absurd hsome (by simp)
      | some cmd =>
        rw [(step_of_hears hnames hip (hname hip) hcmd).1]
        refine not_congr ⟨fun h => ⟨hnames, fun _ => ⟨hname hip, cmd, hcmd, h⟩⟩, fun h => ?_⟩
        obtain ⟨_, cmd', hsome, hobey⟩ := h.2 hip
        rw [hcmd] at hsome
        obtain rfl := Option.some_inj.mp hsome
        exact hobey
    · refine iff_of_false ?_ (not_not.mpr ⟨hnames, fun h => absurd h hip⟩)
      rw [Dies, step_stranger (need_eq_ok_iff.mpr hnames) hip]
      simp
  · exact iff_of_true (dies_of_lost host hlost) fun h => hlost ⟨h.1, fun hip => (h.2 hip).1⟩

/-- The loop leaves by `break` exactly at a `byebye` that it can serve. -/
theorem left_iff (host : Host W) (s : State W) (d : Datagram) :
    (∃ s', (step host s d).2 = .left s') ↔ IsByebye s d ∧ Servable host s d := by
  by_cases hserv : Servable host s d
  · by_cases hip : d.ip ∈ s.globals.gigacitys
    · obtain ⟨hname, cmd, hcmd, hobey⟩ := hserv.2 hip
      rw [(step_of_hears hserv.1 hip hname hcmd).2, IsByebye, hcmd, Option.some_inj]
      exact ⟨fun h => ⟨⟨hip, h.1⟩, hserv⟩, fun h => ⟨h.1.2, hobey⟩⟩
    · rw [step_stranger (need_eq_ok_iff.mpr hserv.1) hip]
      exact iff_of_false (by simp) fun h => hip h.1.1
  · refine iff_of_false (fun hleft => ?_) fun h => hserv h.2
    obtain ⟨s', hs'⟩ := hleft
    obtain ⟨e, t, ht⟩ := (dies_iff host s d).mpr hserv
    rw [hs'] at ht
    exact absurd ht (by simp)

/-! ## Every run -/

/-- A run that no longer waits reads nothing more. -/
theorem run_append_of_not_waiting {host : Host W} {s : State W} {ds : List Datagram}
    (h : (run host s ds).status ≠ .waiting) (ds' : List Datagram) :
    (run host s (ds ++ ds')).status = (run host s ds).status := by
  induction ds generalizing s with
  | nil => exact absurd rfl h
  | cons d ds ih =>
    rw [List.cons_append]
    simp only [run] at h ⊢
    rcases hstep : step host s d with ⟨acts, r⟩
    cases r with
    | ready s' =>
      rw [hstep] at h
      exact ih h
    | left s' => rfl
    | failed e s' => rfl

/-- A run that waits goes on from the state that it has reached. -/
theorem run_append_of_waiting {host : Host W} {s : State W} {ds : List Datagram}
    (h : (run host s ds).status = .waiting) (ds' : List Datagram) :
    (run host s (ds ++ ds')).status = (run host (run host s ds).state ds').status := by
  induction ds generalizing s with
  | nil => rfl
  | cons d ds ih =>
    rw [List.cons_append]
    simp only [run] at h ⊢
    rcases hstep : step host s d with ⟨acts, r⟩
    rw [hstep] at h
    cases r with
    | ready s' => exact ih h
    | left s' => exact absurd h (by simp)
    | failed e s' => exact absurd h (by simp)

/-- How a run of one datagram stands. -/
theorem run_singleton_status (host : Host W) (s : State W) (d : Datagram) :
    ((run host s [d]).status = .waiting ∧ ¬ Dies host s d ∧ ¬ IsByebye s d) ∨
      ((run host s [d]).status = .stopped ∧ ¬ Dies host s d ∧ IsByebye s d) ∨
      ((∃ e, (run host s [d]).status = .failed d e) ∧ Dies host s d) := by
  have hleft := left_iff host s d
  rw [← not_not (a := Servable host s d), ← dies_iff, Dies] at hleft
  rw [Dies]
  simp only [run]
  rcases hstep : step host s d with ⟨acts, r⟩
  rw [hstep] at hleft
  cases r with
  | ready s' =>
    simp only [reduceCtorEq, exists_false, not_false_eq_true, and_true, false_iff] at hleft
    simpa using hleft
  | left s' => simpa using hleft
  | failed e s' => simp

/-- The loop reads `byebye` in a run exactly if it did so before the last datagram, or
waits for this one and this is `byebye`. -/
theorem readsByebye_concat_iff (host : Host W) (s : State W) (ds : List Datagram) (d : Datagram) :
    ReadsByebye host s (ds ++ [d]) ↔ ReadsByebye host s ds ∨
      ((run host s ds).status = .waiting ∧ IsByebye (run host s ds).state d) := by
  constructor
  · intro hreads
    rcases hreads with ⟨pre, d', post, h, hwait, hbye⟩
    rcases List.eq_nil_or_concat post with rfl | ⟨post', b, rfl⟩
    · obtain ⟨rfl, hd⟩ := List.append_inj' h rfl
      rw [List.singleton_inj] at hd
      subst hd
      exact Or.inr ⟨hwait, hbye⟩
    · rw [List.concat_eq_append, ← List.cons_append, ← List.append_assoc] at h
      obtain ⟨rfl, _⟩ := List.append_inj' h rfl
      exact Or.inl ⟨pre, d', post', rfl, hwait, hbye⟩
  · intro hreads
    rcases hreads with ⟨pre, d', post, rfl, hwait, hbye⟩ | ⟨hwait, hbye⟩
    · exact ⟨pre, d', post ++ [d], by simp, hwait, hbye⟩
    · exact ⟨ds, d, [], rfl, hwait, hbye⟩

/-- A loop that no exception has ended stops exactly when it has read `byebye`. -/
theorem run_stopped_iff {host : Host W} {s : State W} {ds : List Datagram}
    (halive : (run host s ds).status = .waiting ∨ (run host s ds).status = .stopped) :
    (run host s ds).status = .stopped ↔ ReadsByebye host s ds := by
  induction ds using List.reverseRecOn with
  | nil =>
    apply iff_of_false (by simp [run])
    intro hreads
    rcases hreads with ⟨pre, d, post, h, _⟩
    simp at h
  | append_singleton ds d ih =>
    rw [readsByebye_concat_iff]
    by_cases hwait : (run host s ds).status = .waiting
    · rw [run_append_of_waiting hwait] at halive ⊢
      rw [← ih (Or.inl hwait), hwait]
      rcases run_singleton_status host (run host s ds).state d with
        ⟨hst, _, hbye⟩ | ⟨hst, _, hbye⟩ | ⟨⟨e, hst⟩, _⟩
      · simp [hst, hbye]
      · simp [hst, hbye]
      · simp [hst] at halive
    · rw [run_append_of_not_waiting hwait] at halive ⊢
      rw [← ih halive]
      simp [hwait]

/-- The loop survives a run exactly when it can serve every datagram that it
reads in it. -/
theorem survives_iff (host : Host W) (s : State W) (ds : List Datagram) :
    Survives host s ds ↔
      ∀ pre d post, ds = pre ++ d :: post → (run host s pre).status = .waiting →
        Servable host (run host s pre).state d := by
  constructor
  · intro h pre d post hds hwait
    by_contra hserv
    have hdies := (dies_iff host _ d).mpr hserv
    have hpre : pre ++ [d] <+: ds := ⟨post, by rw [hds]; simp⟩
    have halive := h.alive (pre ++ [d]) hpre
    rw [run_append_of_waiting hwait] at halive
    rcases run_singleton_status host (run host s pre).state d with
      ⟨_, hno, _⟩ | ⟨_, hno, _⟩ | ⟨⟨e, hst⟩, _⟩
    · exact hno hdies
    · exact hno hdies
    · rw [hst] at halive
      simp at halive
  · intro h
    have halive : ∀ pre, pre <+: ds →
        (run host s pre).status = .waiting ∨ (run host s pre).status = .stopped := by
      intro pre hpre
      induction pre using List.reverseRecOn with
      | nil => exact Or.inl rfl
      | append_singleton pre d ih =>
        obtain ⟨post, hds⟩ := hpre
        rw [List.append_assoc, List.singleton_append] at hds
        rcases ih ⟨d :: post, hds⟩ with hwait | hstop
        · have hserv := h pre d post hds.symm hwait
          rw [run_append_of_waiting hwait]
          rcases run_singleton_status host (run host s pre).state d with
            ⟨hst, _⟩ | ⟨hst, _⟩ | ⟨_, hdies⟩
          · exact Or.inl hst
          · exact Or.inr hst
          · exact absurd hserv ((dies_iff host _ d).mp hdies)
        · rw [run_append_of_not_waiting (by rw [hstop]; simp), hstop]
          exact Or.inr rfl
    exact ⟨halive, fun pre hpre => run_stopped_iff (halive pre hpre)⟩

/-- An empty datagram from a trusted address ends the listener, whatever the code
run by `exec` would do. -/
theorem not_survives_empty_datagram :
    ¬ Survives quietHost (start ()) [⟨"192.168.217.53".toList, 6821, []⟩] := by
  intro h
  have hdies : Dies quietHost (start ()) ⟨"192.168.217.53".toList, 6821, []⟩ := by
    rw [dies_iff]
    intro hserv
    obtain ⟨_, cmd, hcmd, hobey⟩ := hserv.2 List.mem_cons_self
    obtain rfl : [] = cmd := Option.some.inj ((decode_encode []).symm.trans hcmd)
    obtain ⟨c, hc, -⟩ := hobey.visible
    exact absurd hc List.not_mem_nil
  have halive := h.alive _ List.prefix_rfl
  rcases run_singleton_status quietHost (start ()) ⟨"192.168.217.53".toList, 6821, []⟩ with
    ⟨_, hno, _⟩ | ⟨_, hno, _⟩ | ⟨⟨e, hst⟩, _⟩
  · exact hno hdies
  · exact hno hdies
  · rw [hst] at halive
    simp at halive

end PtsTools.Listener
