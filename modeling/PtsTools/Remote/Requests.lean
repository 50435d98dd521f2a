import PtsTools.Remote.Model

/-!
# What the clients make the listener do

The listener cannot tell a datagram of a client from a forged one, nor a datagram
that it gets for the first time from one that it has got before.  `runs_iff` says that
this is all that can go wrong: whatever the network does, the listener does what it
does in a run of its loop over some requests, and it can do that for any requests, in
any order and any number.

So the possible commands are exactly the ones that the requests ask for, and they can
come in any sequence: `actions_iff`.
-/

namespace PtsTools.Remote

open PtsTools.Python PtsTools.Clients PtsTools.Listener PtsTools.Wire
open PtsTools.Lib.Network (Protocol Net Reachable Keeps)

variable {ι W : Type} {w : World ι W} {host : Host W} {d : Datagram}

/-! ## Reading datagrams one by one -/

/-- The listener reads a datagram if it still waits for one. -/
def Service.read (host : Host W) (x : Service W) (d : Datagram) : Service W :=
  if x.status = .waiting then x.next host d else x

/-- The listener reads some datagrams. -/
def Service.reads (host : Host W) (x : Service W) (ds : List Datagram) : Service W :=
  ds.foldl (Service.read host) x

/-- The listener before the first datagram. -/
def Service.fresh (w : W) : Service W := ⟨[], .waiting, start w⟩

theorem Service.read_of_waiting {x : Service W} (h : x.status = .waiting) :
    x.read host d = x.next host d := if_pos h

theorem Service.reads_of_not_waiting {x : Service W} (h : x.status ≠ .waiting)
    (ds : List Datagram) : x.reads host ds = x := by
  induction ds with
  | nil => rfl
  | cons d ds ih =>
    show (x.read host d).reads host ds = x
    rw [read, if_neg h]
    exact ih

theorem Service.reads_append_singleton {x : Service W} {ds : List Datagram}
    (h : (x.reads host ds).status = .waiting) (d : Datagram) :
    x.reads host (ds ++ [d]) = (x.reads host ds).next host d := by
  unfold reads at h ⊢
  rw [List.foldl_append]
  exact read_of_waiting h

/-- Reading one by one is the loop. -/
theorem Service.reads_eq_run {x : Service W} (h : x.status = .waiting) (ds : List Datagram) :
    x.reads host ds =
      ⟨x.actions ++ (run host x.state ds).actions, (run host x.state ds).status,
        (run host x.state ds).state⟩ := by
  induction ds generalizing x with
  | nil =>
    obtain ⟨actions, status, state⟩ := x
    obtain rfl : status = .waiting := h
    simp [reads, run]
  | cons d ds ih =>
    show (x.read host d).reads host ds = _
    rw [read_of_waiting h]
    simp only [run, next]
    rcases step host x.state d with ⟨acts, r⟩
    cases r with
    | ready s => rw [ih rfl, List.append_assoc]
    | left s => exact reads_of_not_waiting (by simp) ds
    | failed e s => exact reads_of_not_waiting (by simp) ds

/-- What the listener has done and how it stands after some datagrams. -/
theorem Service.fresh_reads (host : Host W) (w : W) (ds : List Datagram) :
    ((fresh w).reads host ds).actions = (run host (start w) ds).actions ∧
      ((fresh w).reads host ds).status = (run host (start w) ds).status := by
  rw [reads_eq_run rfl]
  exact ⟨List.nil_append _, rfl⟩

/-! ## Commands -/

/-- What the requests ask for goes well: every program can be started, and all code
returns or raises an exception that the handler can show. -/
structure World.Clean (w : World ι W) : Prop where
  popen : ∀ d branch text, w.Request d → .popen branch text ∈ answer d →
    ∀ world, w.host.popen world text ≠ none
  exec : ∀ d code, w.Request d → .exec code ∈ answer d →
    ∀ world g, (w.host.exec world g code).2.2 = .returned ∨
      ∃ inst, (w.host.exec world g code).2.2 = .raised inst ∧ inst.Handled

/-- What the listener does for a datagram does not depend on what it has done. -/
theorem step_answer (host : Host W) {s : State W} (hs : s.HasConstants) (hip : d.ip ∈ Gigacitys) :
    (step host s d).1 = answer d := by
  unfold answer
  cases hdec : decode (recvfrom d) with
  | none =>
    have hmem : d.ip ∈ s.globals.gigacitys := by rwa [hs.gigacitys]
    obtain ⟨s', hs'⟩ := step_undecodable host (need_of_lost hs.lost _) hmem
      (need_of_lost hs.lost _) hdec
    rw [hs']
  | some cmd =>
    rw [step_obey hs hip hdec,
      obey_actions (s := { s with globals := s.globals.parse d cmd }) hs.lost]
    dsimp only
    cases dispatch d.ip cmd (tokenize cmd) with
    | error e => rfl
    | ok a => cases a <;> rfl

/-- Code that ends well leaves the listener ready, as long as it rebinds nothing. -/
theorem runCode_ready (hkeep : KeepsGlobals host) {s : State W} (hlost : s.globals.lost = [])
    {text : Str} (hends : ∀ g, (host.exec s.world g (text.drop 7)).2.2 = .returned ∨
      ∃ inst, (host.exec s.world g (text.drop 7)).2.2 = .raised inst ∧ inst.Handled) :
    ∃ s', runCode host s text = ([.exec (text.drop 7)], .ready s') := by
  let g := s.globals.withCmd text
  have hg : (host.exec s.world g (text.drop 7)).2.1 = g := hkeep _ _ _
  have hnames : ∀ names : List Name, ∀ name ∈ names, name ∉ g.lost := by
    intro names name _
    rw [show g.lost = [] from hlost]
    exact List.not_mem_nil
  have hbehind : (host.exec s.world g (text.drop 7)).2.1.behindExec
      (host.exec s.world g (text.drop 7)).2.2 = .ok () := by
    rw [behindExec_ok_iff, hg]
    refine ⟨?_, hnames _, .ofStr text, rfl, by simp [PyObj.ofStr]⟩
    rcases hends g with hreturned | ⟨inst, hraised, hinst⟩
    · rw [hreturned]
      trivial
    · rw [hraised]
      exact ⟨hinst, hnames _⟩
  rw [runCode_eq (need_of_lost hlost _)]
  dsimp only
  rw [hbehind]
  exact ⟨_, rfl⟩

/-- A program that can be started leaves the listener ready. -/
theorem startProgram_ready {s : State W} (hlost : s.globals.lost = []) {branch : Branch}
    {text : Str} (hstarts : host.popen s.world text ≠ none) :
    ∃ s', startProgram host s branch text = ([.popen branch text], .ready s') := by
  rw [startProgram_eq (need_of_lost hlost _)]
  cases hpopen : host.popen s.world text with
  | none => exact absurd hpopen hstarts
  | some world => exact ⟨_, rfl⟩

/-- A datagram that asks for a command leaves the listener ready for the next one. -/
theorem ready_of_answer (hkeep : KeepsGlobals w.host) (hclean : w.Clean) {s : State W} {a : Action}
    (hs : s.HasConstants) (hd : w.Request d) (ha : a ∈ answer d) :
    ∃ s', step w.host s d = ([a], .ready s') := by
  obtain ⟨cmd, hdec⟩ : ∃ cmd, decode (recvfrom d) = some cmd := by
    cases hdec : decode (recvfrom d) with
    | none => simp [answer, hdec] at ha
    | some cmd => exact ⟨cmd, rfl⟩
  let t : State W := { s with globals := s.globals.parse d cmd }
  have hlost : t.globals.lost = [] := hs.lost
  have hobey := obey_of_names w.host
    (need_eq_ok_iff.mp (need_of_lost hlost (tokenizeNames cmd))) d.ip
  rw [step_obey hs hd.trusted hdec, hobey]
  have hrequest := ha
  simp only [answer, hdec] at hrequest
  cases hdisp : dispatch d.ip cmd (tokenize cmd) with
  | error e => simp [hdisp] at hrequest
  | ok b =>
    rw [hdisp] at hrequest
    cases b with
    | leave => exact absurd hrequest List.not_mem_nil
    | popen branch text =>
      obtain rfl := List.mem_singleton.mp hrequest
      exact startProgram_ready hlost (hclean.popen d branch text hd ha s.world)
    | exec text =>
      obtain rfl := List.mem_singleton.mp hrequest
      exact runCode_ready hkeep hlost (hclean.exec d _ hd ha s.world)

/-- Every action in a run was asked for. -/
theorem answer_of_mem_run (hkeep : KeepsGlobals host) {s : State W} {a : Action}
    {ds : List Datagram} (hs : s.HasConstants) (hds : ∀ d ∈ ds, d.ip ∈ Gigacitys)
    (ha : a ∈ (run host s ds).actions) : ∃ d ∈ ds, a ∈ answer d := by
  induction ds generalizing s with
  | nil => exact absurd ha List.not_mem_nil
  | cons d ds ih =>
    have hip := hds d List.mem_cons_self
    have hanswer := step_answer host hs hip
    simp only [run] at ha
    rcases hstep : step host s d with ⟨acts, r⟩
    rw [hstep] at ha hanswer
    obtain rfl : acts = answer d := hanswer
    have hhere : a ∈ answer d → ∃ d' ∈ d :: ds, a ∈ answer d' := fun h =>
      ⟨d, List.mem_cons_self, h⟩
    cases r with
    | left s' => exact hhere ha
    | failed e s' => exact hhere ha
    | ready s' =>
      rcases List.mem_append.mp ha with ha | ha
      · exact hhere ha
      · have hs' := step_keeps_constants hkeep hs (by rw [hstep])
        obtain ⟨d', hd', ha'⟩ := ih hs' (fun d' hd' => hds d' (List.mem_cons_of_mem _ hd')) ha
        exact ⟨d', List.mem_cons_of_mem _ hd', ha'⟩

/-- Whatever can be asked for can be asked for in any sequence. -/
theorem run_of_answers (hkeep : KeepsGlobals w.host) (hclean : w.Clean) {s : State W}
    {acts : List Action} (hs : s.HasConstants)
    (hacts : ∀ a ∈ acts, ∃ d, w.Request d ∧ a ∈ answer d) :
    ∃ ds, (∀ d ∈ ds, w.Request d) ∧ (run w.host s ds).actions = acts := by
  induction acts generalizing s with
  | nil => exact ⟨[], fun d hd => absurd hd List.not_mem_nil, rfl⟩
  | cons a acts ih =>
    obtain ⟨d, hd, ha⟩ := hacts a List.mem_cons_self
    obtain ⟨s', hstep⟩ := ready_of_answer hkeep hclean hs hd ha
    have hs' := step_keeps_constants hkeep hs (by rw [hstep])
    obtain ⟨ds, hds, hrun⟩ := ih hs' fun a' ha' => hacts a' (List.mem_cons_of_mem _ ha')
    refine ⟨d :: ds, ?_, ?_⟩
    · intro d' hd'
      rcases List.mem_cons.mp hd' with rfl | hd'
      · exact hd
      · exact hds d' hd'
    · simp only [run, hstep, hrun, List.singleton_append]

/-! ## No more than the requests -/

/-- A program has done nothing but run over datagrams that somebody sent to it. -/
def Ran (w : World ι W) : (n : Node ι) → Standing W n → Prop
  | .listener, x =>
    ∃ ds, (∀ d ∈ ds, w.Asks d ∨ w.Forges d) ∧ x = (Service.fresh w.init).reads w.host ds
  | .client _, _ => True

/-- A datagram to the listener comes from a client or from another host. -/
def Comes (w : World ι W) (p : Packet) : Prop :=
  p.dst = w.listener → w.Asks (received p) ∨ w.Forges (received p)

theorem ran_keeps (w : World ι W) : Keeps w.protocol (Ran w) (Comes w) where
  init n := by
    cases n with
    | listener => exact ⟨[], fun d hd => absurd hd List.not_mem_nil, rfl⟩
    | client i => trivial
  act n x x' out hx hact := by
    cases n with
    | listener => exact hact.elim
    | client i =>
      refine ⟨trivial, ?_⟩
      intro p hp hdst
      cases hact with
      | stays h => exact absurd hp List.not_mem_nil
      | oserror h => exact absurd hp List.not_mem_nil
      | @sent ip payload h hfits =>
        rw [List.mem_singleton.mp hp] at hdst ⊢
        have hip : ip = w.ip := congrArg Addr.ip hdst
        rw [hip] at h
        exact Or.inl ⟨i, payload, h, hfits, rfl⟩
  receive n x p x' out hx hp hdst hreceive := by
    cases n with
    | client i => exact hreceive.elim
    | listener =>
      cases hreceive with
      | round hwait =>
        obtain ⟨ds, hds, rfl⟩ := hx
        refine ⟨⟨ds ++ [received p], ?_, ?_⟩, fun p hp => absurd hp List.not_mem_nil⟩
        · intro d hd
          rcases List.mem_append.mp hd with hd | hd
          · exact hds d hd
          · rw [List.mem_singleton.mp hd]
            exact hp hdst
        · exact (Service.reads_append_singleton hwait _).symm
  others p hp hdst := Or.inr ⟨p, hp, hdst, rfl⟩

/-! ## Any requests -/

variable [DecidableEq ι] {net : Net (Node ι) (Standing W) Addr Bytes}

/-- A datagram is on its way to the listener. -/
def OnItsWay (w : World ι W) (net : Net (Node ι) (Standing W) Addr Bytes) (d : Datagram) : Prop :=
  ∃ p ∈ net.sent, p.dst = w.listener ∧ received p = d

/-- The listener has read nothing, and every client that has run has sent its
datagram. -/
structure Posted (w : World ι W) (net : Net (Node ι) (Standing W) Addr Bytes) : Prop where
  listener : net.node .listener = Service.fresh w.init
  client : ∀ i, net.node (.client i) = Process.start ∨
    ∀ payload, w.sent i = .sendto w.ip payload → ⟨w.source i, w.listener, payload⟩ ∈ net.sent

/-- All requests can be on their way at once. -/
theorem posted_reachable {ds : List Datagram} (hds : ∀ d ∈ ds, w.Request d) :
    ∃ net, Reachable w.protocol net ∧ Posted w net ∧ ∀ d ∈ ds, OnItsWay w net d := by
  induction ds with
  | nil =>
    exact ⟨_, .start, ⟨rfl, fun i => Or.inl rfl⟩, fun d hd => absurd hd List.not_mem_nil⟩
  | cons d ds ih =>
    obtain ⟨net, hnet, hposted, hway⟩ := ih fun d' hd' => hds d' (List.mem_cons_of_mem _ hd')
    have hlater : ∀ {net' : Net (Node ι) (Standing W) Addr Bytes}, net.sent ⊆ net'.sent →
        OnItsWay w net' d → ∀ d' ∈ d :: ds, OnItsWay w net' d' := by
      intro net' hsub hd d' hd'
      rcases List.mem_cons.mp hd' with rfl | hd'
      · exact hd
      · obtain ⟨p, hp, hdst⟩ := hway d' hd'
        exact ⟨p, hsub hp, hdst⟩
    rcases (hds d List.mem_cons_self).comes with ⟨i, payload, hsent, hfits, rfl⟩ | hforges
    · rcases hposted.client i with hstart | hmem
      · have hact : w.protocol.act (.client i) (net.node (.client i)) (.done (w.sent i))
            [⟨w.source i, w.listener, payload⟩] := by
          rw [hstart]
          exact ClientAct.sent hsent hfits
        refine ⟨_, hnet.act hact, ⟨?_, ?_⟩, hlater (List.subset_append_left _ _) ?_⟩
        · rw [Net.next_node_of_ne net (by simp)]
          exact hposted.listener
        · intro j
          by_cases hj : j = i
          · rw [hj]
            refine Or.inr fun payload' hsent' => List.mem_append_right _ ?_
            rw [hsent] at hsent'
            rw [(Sent.sendto.inj hsent').2]
            exact List.mem_cons_self
          · rw [Net.next_node_of_ne net (by simpa using hj)]
            refine (hposted.client j).imp_right fun h payload' hsent' => ?_
            exact List.mem_append_left _ (h payload' hsent')
        · exact ⟨_, List.mem_append_right _ List.mem_cons_self, rfl, rfl⟩
      · exact ⟨net, hnet, hposted, hlater (List.Subset.refl _) ⟨_, hmem payload hsent, rfl, rfl⟩⟩
    · obtain ⟨p, hp, hdst, rfl⟩ := hforges
      refine ⟨_, hnet.others hp, ⟨hposted.listener, ?_⟩, hlater (List.subset_append_left _ _) ?_⟩
      · intro j
        refine (hposted.client j).imp_right fun h payload' hsent' => ?_
        exact List.mem_append_left _ (h payload' hsent')
      · exact ⟨p, List.mem_append_right _ List.mem_cons_self, hdst, rfl⟩

/-- What is on its way can be read, in any order. -/
theorem read_reachable {ds : List Datagram} (hnet : Reachable w.protocol net)
    (hds : ∀ d ∈ ds, OnItsWay w net d) :
    ∃ net', Reachable w.protocol net' ∧
      net'.node .listener = Service.reads w.host (net.node .listener) ds := by
  induction ds generalizing net with
  | nil => exact ⟨net, hnet, rfl⟩
  | cons d ds ih =>
    have hrest : ∀ d' ∈ ds, OnItsWay w net d' := fun d' hd' => hds d' (List.mem_cons_of_mem _ hd')
    let x : Service W := net.node .listener
    show ∃ net', Reachable w.protocol net' ∧
      net'.node .listener = Service.reads w.host (x.read w.host d) ds
    by_cases hwait : x.status = .waiting
    · obtain ⟨p, hp, hdst, rfl⟩ := hds d List.mem_cons_self
      have hread : Reachable w.protocol (net.next .listener (x.next w.host (received p)) []) :=
        Reachable.receive hnet hp hdst (ListenerReceive.round hwait)
      obtain ⟨net', hnet', hlistener⟩ := ih hread fun d' hd' => by
        obtain ⟨p', hp', hdst'⟩ := hrest d' hd'
        exact ⟨p', List.mem_append_left _ hp', hdst'⟩
      refine ⟨net', hnet', hlistener.trans ?_⟩
      rw [Net.next_node_self, Service.read_of_waiting hwait]
    · rw [Service.read, if_neg hwait]
      exact ih hnet hrest

/-- What the listener has done in the network it does in a run over some requests. -/
theorem runs_of_reachable (hkeep : KeepsGlobals w.host) (hnet : Reachable w.protocol net) :
    ∃ ds, (∀ d ∈ ds, w.Request d) ∧
      Service.actions (net.node .listener) = (run w.host (start w.init) ds).actions ∧
      Service.status (net.node .listener) = (run w.host (start w.init) ds).status := by
  obtain ⟨ds, hds, hlistener⟩ := (hnet.invariant (ran_keeps w)).1 .listener
  obtain ⟨hactions, hstatus⟩ := Service.fresh_reads w.host w.init ds
  have hfilter := run_filter hkeep (Agree.refl (start w.init)) (hasConstants_start _) ds
  refine ⟨ds.filter trusted, ?_, ?_, ?_⟩
  · intro d hd
    obtain ⟨hd, htrusted⟩ := List.mem_filter.mp hd
    exact ⟨of_decide_eq_true htrusted, hds d hd⟩
  · rw [hlistener, hactions, hfilter.actions]
  · rw [hlistener, hstatus, hfilter.status]

/-- What it does in a run over some requests it can do in the network. -/
theorem reachable_of_runs {ds : List Datagram} (hds : ∀ d ∈ ds, w.Request d) :
    ∃ net, Reachable w.protocol net ∧
      Service.actions (net.node .listener) = (run w.host (start w.init) ds).actions ∧
      Service.status (net.node .listener) = (run w.host (start w.init) ds).status := by
  obtain ⟨net, hnet, hposted, hway⟩ := posted_reachable hds
  obtain ⟨net', hnet', hlistener⟩ := read_reachable hnet hway
  rw [hposted.listener] at hlistener
  obtain ⟨hactions, hstatus⟩ := Service.fresh_reads w.host w.init ds
  exact ⟨net', hnet', by rw [hlistener, hactions], by rw [hlistener, hstatus]⟩

/-- A run of `eee.py` on a machine that the listener obeys. -/
def oneClient : World Unit Unit where
  host := quietHost
  init := ()
  ip := "192.168.217.53".toList
  client _ := .eee
  env _ := session "/home/tsp".toList
  argv _ := ["eee".toList, "calc.exe".toList]
  source _ := ⟨"192.168.217.158".toList, 40000⟩
  others _ := False

/-- The datagram of that run. -/
def calcRequest : Datagram := ⟨"192.168.217.158".toList, 40000, encode "calc.exe".toList⟩

theorem oneClient_request : oneClient.Request calcRequest :=
  ⟨by decide, Or.inl ⟨(), _, eee_single _, by decide, rfl⟩⟩

theorem answer_calcRequest : answer calcRequest = [.popen .exe "calc.exe".toList] := by
  decide

/-- What the listener can have done in the network, and how it can stand: what it does
in a run of its loop over some requests, and over any requests. -/
theorem runs_iff (hkeep : KeepsGlobals w.host) (acts : List Action) (status : Status) :
    (∃ net, Reachable w.protocol net ∧ Service.actions (net.node .listener) = acts ∧
        Service.status (net.node .listener) = status) ↔
      ∃ ds, (∀ d ∈ ds, w.Request d) ∧ (run w.host (start w.init) ds).actions = acts ∧
        (run w.host (start w.init) ds).status = status := by
  constructor
  · intro h
    obtain ⟨net, hnet, rfl, rfl⟩ := h
    obtain ⟨ds, hds, hactions, hstatus⟩ := runs_of_reachable hkeep hnet
    exact ⟨ds, hds, hactions.symm, hstatus.symm⟩
  · intro h
    obtain ⟨ds, hds, rfl, rfl⟩ := h
    exact reachable_of_runs hds

/-- The one datagram of the client can make the listener start the program twice. -/
theorem runs_oneClient : ∃ net, Reachable oneClient.protocol net ∧
    Service.actions (net.node .listener) =
      [.popen .exe "calc.exe".toList, .popen .exe "calc.exe".toList] ∧
    Service.status (net.node .listener) = .waiting :=
  (runs_iff (fun _ _ _ => rfl) _ _).mpr
    ⟨[calcRequest, calcRequest], by simpa using oneClient_request, by decide, by decide⟩

/-- The sequences of commands that the listener can have run in the network: every
sequence of commands that the requests ask for, and no other. -/
theorem actions_iff (hkeep : KeepsGlobals w.host) (hclean : w.Clean) (acts : List Action) :
    (∃ net, Reachable w.protocol net ∧ Service.actions (net.node .listener) = acts) ↔
      ∀ a ∈ acts, ∃ d, w.Request d ∧ a ∈ answer d := by
  constructor
  · intro h a ha
    obtain ⟨net, hnet, hacts⟩ := h
    obtain ⟨x, hx, hrun⟩ := runs_of_reachable hkeep hnet
    obtain ⟨hactions, _⟩ := hrun
    rw [← hacts, hactions] at ha
    obtain ⟨d, hd, had⟩ := answer_of_mem_run hkeep (hasConstants_start _)
      (fun d hd => (hx d hd).trusted) ha
    exact ⟨d, hx d hd, had⟩
  · intro h
    obtain ⟨ds, hds, hrun⟩ := run_of_answers hkeep hclean (hasConstants_start _) h
    obtain ⟨net, hnet, hactions, _⟩ := reachable_of_runs hds
    exact ⟨net, hnet, by rw [hactions, hrun]⟩

/-- Nothing ends this. -/
theorem actions_oneClient : ∃ net, Reachable oneClient.protocol net ∧
    Service.actions (net.node .listener) =
      List.replicate 100 (.popen .exe "calc.exe".toList) := by
  refine (actions_iff (fun _ _ _ => rfl) ⟨fun _ _ _ _ _ _ => by simp [oneClient, quietHost],
    fun _ _ _ _ _ _ => Or.inl rfl⟩ _).mpr ?_
  intro a ha
  rw [List.eq_of_mem_replicate ha]
  exact ⟨calcRequest, oneClient_request, by rw [answer_calcRequest]; exact List.mem_cons_self⟩

end PtsTools.Remote
