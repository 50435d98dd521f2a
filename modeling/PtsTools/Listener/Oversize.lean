import PtsTools.Listener.Strangers

/-!
# Datagrams that do not fit into the buffer

The listener runs on Windows, where `recvfrom` does not cut a datagram that is longer than
the buffer but raises an `OSError` for it.  The call stands in front of the test of the
address and outside of the `try`, so the error ends the loop, whoever sent the datagram.

`windows_runs_iff` says that a stranger can do this at any time, and that he can do
nothing else.
-/

namespace PtsTools.Listener

open PtsTools.Python

variable {W : Type} {host : Host W} {s t : State W} {d : Datagram} {ds : List Datagram}

/-! ## The loop on Windows -/

/-- The datagram fits into the buffer. -/
def fits (d : Datagram) : Bool := d.data.length ≤ 1024

/-- What the loop has done, and how it stands if the `OSError` did not end it. -/
structure WindowsRun where
  actions : List Action
  status : Option Status
  deriving DecidableEq, Repr

/-- A run behind some actions. -/
def WindowsRun.behind (acts : List Action) (r : WindowsRun) : WindowsRun :=
  { r with actions := acts ++ r.actions }

/-- The loop over the datagrams that arrive, with a socket of Windows. -/
def windowsRun (host : Host W) : State W → List Datagram → WindowsRun
  | _, [] => ⟨[], some .waiting⟩
  | s, d :: ds =>
    if fits d then
      match step host s d with
      | (acts, .ready s') => (windowsRun host s' ds).behind acts
      | (acts, .left _) => ⟨acts, some .stopped⟩
      | (acts, .failed e _) => ⟨acts, some (.failed d e)⟩
    else ⟨[], none⟩

theorem windowsRun_oversize (h : fits d = false) : windowsRun host s (d :: ds) = ⟨[], none⟩ := by
  rw [windowsRun, h]
  rfl

theorem windowsRun_ready (h : fits d = true) {acts : List Action} {s' : State W}
    (hstep : step host s d = (acts, .ready s')) :
    windowsRun host s (d :: ds) = (windowsRun host s' ds).behind acts := by
  rw [windowsRun, if_pos h, hstep]

theorem windowsRun_left (h : fits d = true) {acts : List Action} {s' : State W}
    (hstep : step host s d = (acts, .left s')) :
    windowsRun host s (d :: ds) = ⟨acts, some .stopped⟩ := by
  rw [windowsRun, if_pos h, hstep]

theorem windowsRun_failed (h : fits d = true) {acts : List Action} {e : Uncaught} {s' : State W}
    (hstep : step host s d = (acts, .failed e s')) :
    windowsRun host s (d :: ds) = ⟨acts, some (.failed d e)⟩ := by
  rw [windowsRun, if_pos h, hstep]

/-- Datagrams that fit are read as by any other socket, and the loop goes on behind
them. -/
theorem windowsRun_append {pre : List Datagram} (hfits : ∀ d ∈ pre, fits d = true)
    (hwait : (run host s pre).status = .waiting) (post : List Datagram) :
    windowsRun host s (pre ++ post) =
      (windowsRun host (run host s pre).state post).behind (run host s pre).actions := by
  induction pre generalizing s with
  | nil => rfl
  | cons d pre ih =>
    have hd := hfits d List.mem_cons_self
    have hpre : ∀ d' ∈ pre, fits d' = true := fun d' hd' => hfits d' (List.mem_cons_of_mem d hd')
    simp only [run] at hwait ⊢
    rcases hstep : step host s d with ⟨acts, r⟩
    rw [hstep] at hwait
    cases r with
    | ready s' =>
      rw [List.cons_append, windowsRun_ready hd hstep, ih hpre hwait]
      unfold WindowsRun.behind
      rw [List.append_assoc]
    | left s' => exact absurd hwait (by simp)
    | failed e s' => exact absurd hwait (by simp)

/-! ## What strangers can do -/

/-- The loop is ended by the `OSError` while it waits behind some of the datagrams. -/
def Cut (host : Host W) (s : State W) (ds : List Datagram) (r : WindowsRun) : Prop :=
  ∃ pre, pre <+: ds ∧ (∀ d ∈ pre, fits d = true) ∧ (run host s pre).status = .waiting ∧
    r = ⟨(run host s pre).actions, none⟩

/-- One more datagram in front. -/
theorem Cut.cons (hd : fits d = true) {acts : List Action} {s' : State W} {r : WindowsRun}
    (hstep : step host s d = (acts, .ready s')) (h : Cut host s' ds r) :
    Cut host s (d :: ds) (r.behind acts) := by
  obtain ⟨pre, hpre, hfits, hwait, rfl⟩ := h
  refine ⟨d :: pre, (List.prefix_cons_inj d).mpr hpre, ?_, ?_, ?_⟩
  · intro d' hd'
    rcases List.mem_cons.mp hd' with rfl | hd'
    · exact hd
    · exact hfits d' hd'
  · simp only [run, hstep]
    exact hwait
  · simp only [run, hstep]
    rfl

/-- A run is that of the trusted datagrams alone, or it is cut. -/
theorem windowsRun_filter (hkeep : KeepsGlobals host) (h : Agree s t)
    (hs : s.HasConstants) (ds : List Datagram) :
    windowsRun host s ds = windowsRun host t (ds.filter trusted) ∨
      Cut host t (ds.filter trusted) (windowsRun host s ds) := by
  induction ds generalizing s t with
  | nil => exact Or.inl rfl
  | cons d ds ih =>
    cases hfits : fits d with
    | false =>
      rw [windowsRun_oversize hfits]
      by_cases hd : trusted d
      · rw [List.filter_cons_of_pos hd, windowsRun_oversize hfits]
        exact Or.inl rfl
      · exact Or.inr ⟨[], List.nil_prefix, fun d hd => absurd hd List.not_mem_nil, rfl, rfl⟩
    | true =>
      by_cases hd : trusted d
      · rw [List.filter_cons_of_pos hd]
        obtain ⟨hacts, hend⟩ := step_agree host h d
        rcases hstep : step host s d with ⟨acts, r⟩
        rcases hstep' : step host t d with ⟨acts', r'⟩
        rw [hstep, hstep'] at hacts hend
        obtain rfl : acts = acts' := hacts
        cases hend with
        | ready hagree =>
          rw [windowsRun_ready hfits hstep, windowsRun_ready hfits hstep']
          rcases ih hagree (step_keeps_constants hkeep hs (by rw [hstep])) with heq | hcut
          · exact Or.inl (congrArg _ heq)
          · exact Or.inr (hcut.cons hfits hstep')
        | left s' t' =>
          rw [windowsRun_left hfits hstep, windowsRun_left hfits hstep']
          exact Or.inl rfl
        | failed e s' t' =>
          rw [windowsRun_failed hfits hstep, windowsRun_failed hfits hstep']
          exact Or.inl rfl
      · have hip : d.ip ∉ s.globals.gigacitys := by
          rw [hs.gigacitys]
          simpa [trusted] using hd
        rw [List.filter_cons_of_neg hd,
          windowsRun_ready hfits (step_stranger (need_of_lost hs.lost _) hip)]
        exact ih ⟨h.world, h.gigacitys, h.ptslinux, h.lost⟩ ⟨hs.gigacitys, hs.ptslinux, hs.lost⟩

/-- A datagram of a stranger that does not fit. -/
def oversize : Datagram := ⟨"10.0.0.1".toList, 40000, List.replicate 1025 0⟩

theorem not_fits_oversize : fits oversize = false := by
  unfold fits oversize
  rw [List.length_replicate]
  rfl

/-- What the listener can do, for given datagrams from the machines that it obeys and any
others in between: what it does for these datagrams alone, or the same up to some point
where it waits, and then it ends. -/
theorem windows_runs_iff (hkeep : KeepsGlobals host) (w : W) {ds : List Datagram}
    (hds : ∀ d ∈ ds, trusted d = true) (r : WindowsRun) :
    (∃ all, all.filter trusted = ds ∧ windowsRun host (start w) all = r) ↔
      r = windowsRun host (start w) ds ∨ Cut host (start w) ds r := by
  have hfilter : ds.filter trusted = ds := List.filter_eq_self.mpr hds
  constructor
  · intro h
    obtain ⟨all, hall, rfl⟩ := h
    have hrun := windowsRun_filter hkeep (Agree.refl (start w)) (hasConstants_start w) all
    rwa [hall] at hrun
  · intro h
    rcases h with rfl | ⟨pre, ⟨post, rfl⟩, hfits, hwait, rfl⟩
    · exact ⟨ds, hfilter, rfl⟩
    · refine ⟨pre ++ oversize :: post, ?_, ?_⟩
      · rw [List.filter_append] at hfilter ⊢
        exact hfilter
      · rw [windowsRun_append hfits hwait, windowsRun_oversize not_fits_oversize]
        exact congrArg (fun acts => WindowsRun.mk acts none) (List.append_nil _)

/-- The service can be ended behind its first command. -/
theorem windows_runs_calc :
    ∃ all, all.filter trusted =
        [⟨"192.168.217.53".toList, 40000, encode "calc.exe".toList⟩,
          ⟨"192.168.217.53".toList, 40001, encode "notepad.exe".toList⟩] ∧
      windowsRun quietHost (start ()) all = ⟨[.popen .exe "calc.exe".toList], none⟩ :=
  (windows_runs_iff (fun _ _ _ => rfl) () (by decide) _).mpr
    (Or.inr ⟨[⟨"192.168.217.53".toList, 40000, encode "calc.exe".toList⟩], by decide, by decide,
      by decide, by decide⟩)

end PtsTools.Listener
