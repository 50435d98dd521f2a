import Mathlib.Logic.Function.Basic
import PtsTools.Project.Switch

/-!
# Several terminals

Every terminal has a login shell with its own variables, and all of them share the files.
`config_prj` writes the files and loads them in its own shell.  Another shell keeps what
it had, and at its next `sbldenv` it takes the model out of the file, but runs the script
in the directory of its own last switch.

`Plan` is the abstract view: what the files stand for, and for every terminal the project
and model of its directory, the model of its SoC id, and whether it is on the PC project.
`run_planned` says that the terminals go along with it, whatever is typed into which of
them.  `typed_switched_iff` reads off when a switch comes out right, and
`typed_sbldenv_iff` when `sbldenv` runs the script that the files stand for.
-/

namespace PtsTools.Project

/-! ## Terminals -/

section

variable {ι : Type}

/-- The files, and the shells of the terminals that were logged in. -/
structure Terminals (ι : Type) where
  files : Files
  shells : ι → Option Shell

/-- What is typed into a terminal: a login, with the SoC id it inherits, or a command. -/
inductive Typed (ι : Type)
  | login (i : ι) (socid : Text)
  | call (i : ι) (c : Call)

/-- The shell of a terminal, with the files as they are. -/
def Terminals.shell (w : Terminals ι) (i : ι) : Option Shell :=
  (w.shells i).map fun sh => { sh with files := w.files }

/-- Before anybody logged in. -/
def Terminals.boot (files : Files) : Terminals ι := { files := files, shells := fun _ => none }

variable [DecidableEq ι]

/-- A shell behind a command: the files that it wrote are those of all terminals. -/
def Terminals.set (w : Terminals ι) (i : ι) (sh : Shell) : Terminals ι :=
  { files := sh.files, shells := Function.update w.shells i (some sh) }

/-- One login or command. -/
def Terminals.typed (env : Env) (w : Terminals ι) : Typed ι → Terminals ι
  | .login i socid => w.set i (login env w.files socid)
  | .call i c =>
    match w.shell i with
    | none => w
    | some sh => w.set i (call env sh c).1

/-- The terminals behind a history. -/
def Terminals.run (env : Env) (w : Terminals ι) (history : List (Typed ι)) : Terminals ι :=
  history.foldl (Terminals.typed env) w

/-! ## The abstract view -/

/-- What a terminal stands for. -/
structure Seat where
  /-- the project of the directory -/
  dirPrj : Text
  /-- the model of the SoC in the name of the directory -/
  dirModel : Text
  /-- the model of the SoC id -/
  model : Text
  onPc : Bool
  deriving DecidableEq, Repr

/-- What the files stand for, and the terminals. -/
structure Plan (ι : Type) where
  prj : Text
  model : Text
  onPc : Bool
  seats : ι → Option Seat

/-- The model whose SoC a terminal takes at a switch. -/
def Seat.taken (s : Seat) (model : Text) : Text := if s.onPc then s.model else model

/-- What a command in a terminal stands for. -/
def Plan.call (p : Plan ι) (i : ι) (s : Seat) : Call → Plan ι
  | .configPrj prj (some m) =>
    { prj := prj.text, model := m.text, onPc := false
      seats := Function.update p.seats i (some ⟨prj.text, s.taken m.text, m.text, false⟩) }
  | .configPrj prj none =>
    if prj.text = wrns then
      { p with
        prj := wrns, onPc := true
        seats := Function.update p.seats i
          (some ⟨wrns, s.taken p.model, s.taken p.model, true⟩) }
    else p
  | .sbldenv =>
    { p with
      seats := Function.update p.seats i
        (some { s with model := if p.onPc then s.model else p.model, onPc := p.onPc }) }

/-- What a login or a command stands for. -/
def Plan.next (p : Plan ι) : Typed ι → Plan ι
  | .login i _ =>
    { p with seats := Function.update p.seats i (some ⟨p.prj, p.model, p.model, false⟩) }
  | .call i c =>
    match p.seats i with
    | none => p
    | some s => p.call i s c

/-- The plan behind a history. -/
def planAfter (files : Files) (history : List (Typed ι)) : Plan ι :=
  history.foldl Plan.next
    { prj := files.myprj, model := files.hiModel, onPc := files.hiConf = pc
      seats := fun _ => none }

end

/-! ## Files and seats -/

section

variable {env : Env} {soc : Text → Text} {Model : Text → Prop} {sh : Shell} {s : Seat}

/-- The files stand for a project and a model, or the PC project. -/
structure Files.StandFor (Model : Text → Prop) (files : Files) (prj model : Text) (onPc : Bool) :
    Prop where
  model_mem : Model model
  myprj_eq : files.myprj = prj
  hiModel_eq : files.hiModel = model
  hiConf_eq : files.hiConf = if onPc then pc else modelId model

/-- The shell of a terminal goes along with its seat, whatever the files are. -/
structure Seat.Fits (env : Env) (soc : Text → Text) (sh : Shell) (s : Seat) : Prop where
  hiconf_eq : sh.hiconf = pc ↔ s.onPc = true
  socid_eq : sh.whbsBuildSocid = soc s.model
  bld_eq : sh.myprjBld = env.dvrtop s.dirPrj (soc s.dirModel)

/-- The SoC id that a switch takes is that of the model that the seat takes. -/
theorem Seat.Fits.sprjenvSocid_eq (hcontract : Contract env soc Model) (h : s.Fits env soc sh)
    {files : Files} (hmodel : Model files.hiModel) :
    sprjenvSocid env { sh with files := files } = soc (s.taken files.hiModel) := by
  unfold sprjenvSocid Seat.taken
  by_cases hpc : sh.hiconf = pc
  · rw [if_pos hpc, if_pos (h.hiconf_eq.mp hpc)]
    exact h.socid_eq
  · have honPc : s.onPc ≠ true := fun honPc => hpc (h.hiconf_eq.mpr honPc)
    rw [if_neg hpc, if_neg honPc]
    exact hcontract.setConsoleSocid_eq _ hmodel _

/-- A login shell sits in the directory of the files. -/
theorem login_fits (hcontract : Contract env soc Model) {files : Files} {prj model : Text}
    {onPc : Bool} (hfiles : files.StandFor Model prj model onPc) (socid : Text) :
    (⟨prj, model, model, false⟩ : Seat).Fits env soc (login env files socid) := by
  have hnil : ([] : Text) ≠ pc := by decide
  have hhiconf : (login env files socid).hiconf = [] := (sprjenv_frame env _).2
  have hsocid : sprjenvSocid env ⟨files, files.myprj, [], socid, [], []⟩ = soc model := by
    unfold sprjenvSocid
    rw [if_neg hnil]
    show env.setConsoleSocid files.hiModel socid = _
    rw [hfiles.hiModel_eq]
    exact hcontract.setConsoleSocid_eq _ hfiles.model_mem _
  refine ⟨?_, ?_, ?_⟩
  · rw [hhiconf]
    simp [hnil]
  · exact (sprjenv_socid env _).trans hsocid
  · have hbld := sprjenv_myprjBld env ⟨files, files.myprj, [], socid, [], []⟩
    rw [hsocid] at hbld
    rw [← hfiles.myprj_eq]
    exact hbld

/-- A switch to a model moves the seat of its terminal. -/
theorem configPrj_model_fits (hcontract : Contract env soc Model) (h : s.Fits env soc sh)
    (prj : Word) {m : Word} (hm : Model m.text) (hid : modelId m.text ≠ pc) :
    (⟨prj.text, s.taken m.text, m.text, false⟩ : Seat).Fits env soc
        (configPrj env sh prj (some m)).1 ∧
      (configPrj env sh prj (some m)).1.files.StandFor Model prj.text m.text false := by
  have hshell : (configPrj env sh prj (some m)).1 =
      (loadPrj env { sh with files := modelFiles prj m }).1 := rfl
  have hframe := loadPrj_frame env { sh with files := modelFiles prj m }
  have hbld := loadPrj_myprjBld env { sh with files := modelFiles prj m }
  have hsocid := loadPrj_socid env { sh with files := modelFiles prj m }
  have htaken := h.sprjenvSocid_eq hcontract (show Model (modelFiles prj m).hiModel from hm)
  rw [htaken] at hbld hsocid
  rw [if_neg (by exact hid)] at hsocid
  rw [hshell]
  refine ⟨⟨?_, ?_, hbld⟩, ?_⟩
  · rw [hframe.2]
    simp [modelFiles, hid]
  · rw [hsocid]
    exact hcontract.edvrEnv_eq m.text hm _ _
  · rw [hframe.1]
    exact ⟨hm, rfl, rfl, rfl⟩

/-- So does a switch to the PC project. -/
theorem configPrj_wrns_fits (hcontract : Contract env soc Model) (h : s.Fits env soc sh)
    {files : Files} {prj model : Text} {onPc : Bool}
    (hfiles : files.StandFor Model prj model onPc) :
    (⟨wrns, s.taken model, s.taken model, true⟩ : Seat).Fits env soc
        (loadPrj env { sh with files := { files with myprj := wrns, hiConf := pc } }).1 ∧
      (loadPrj env { sh with files := { files with myprj := wrns, hiConf := pc } }).1.files.StandFor
        Model wrns model true := by
  have hframe := loadPrj_frame env { sh with files := { files with myprj := wrns, hiConf := pc } }
  have hbld := loadPrj_myprjBld env { sh with files := { files with myprj := wrns, hiConf := pc } }
  have hsocid := loadPrj_socid env { sh with files := { files with myprj := wrns, hiConf := pc } }
  have hmodel : Model files.hiModel := by
    rw [hfiles.hiModel_eq]
    exact hfiles.model_mem
  have htaken := h.sprjenvSocid_eq hcontract
    (show Model { files with myprj := wrns, hiConf := pc }.hiModel from hmodel)
  rw [htaken] at hbld hsocid
  rw [if_pos rfl] at hsocid
  rw [← hfiles.hiModel_eq]
  refine ⟨⟨?_, hsocid, hbld⟩, ?_⟩
  · rw [hframe.2]
    simp
  · rw [hframe.1]
    exact ⟨hmodel, rfl, rfl, rfl⟩

/-- `sbldenv` takes the model out of the files and stays in its directory. -/
theorem sbldenv_fits (hcontract : Contract env soc Model) (hpc : ∀ m, Model m → modelId m ≠ pc)
    (h : s.Fits env soc sh) {prj model : Text} {onPc : Bool}
    (hfiles : sh.files.StandFor Model prj model onPc) :
    ({ s with model := if onPc then s.model else model, onPc := onPc } : Seat).Fits env soc
        (sbldenv env sh).1 ∧
      (sbldenv env sh).1.files.StandFor Model prj model onPc := by
  obtain ⟨hkept, hbld, hhiconf⟩ := sbldenv_frame env sh
  have hid := hpc model hfiles.model_mem
  have hsocid := sbldenv_socid env sh
  rw [hfiles.hiConf_eq] at hhiconf hsocid
  refine ⟨⟨?_, ?_, ?_⟩, ?_⟩
  · rw [hhiconf]
    cases onPc <;> simp [hid]
  · rw [hsocid]
    cases onPc with
    | true => exact h.socid_eq
    | false =>
      show (if modelId model = pc then _ else env.edvrEnv _ (modelId model) _ _) = _
      rw [if_neg hid]
      exact hcontract.edvrEnv_eq model hfiles.model_mem _ _
  · rw [hbld]
    exact h.bld_eq
  · rw [hkept]
    exact hfiles

end

/-! ## All terminals go along -/

section

variable {ι : Type} {env : Env} {soc : Text → Text} {Model : Text → Prop}

/-- The terminals stand for a plan: the files do, and the shell of every terminal fits
its seat. -/
structure Terminals.StandFor (env : Env) (soc : Text → Text) (Model : Text → Prop)
    (w : Terminals ι) (p : Plan ι) : Prop where
  files : w.files.StandFor Model p.prj p.model p.onPc
  seats : ∀ i, Option.Rel (Seat.Fits env soc) (w.shells i) (p.seats i)

/-- The commands of a history name models. -/
def Typed.NamesModel (Model : Text → Prop) : Typed ι → Prop
  | .login _ _ => True
  | .call _ c => c.NamesModel Model

/-- A terminal that was logged in has a shell that fits its seat and sees the files. -/
theorem Terminals.StandFor.shell {w : Terminals ι} {p : Plan ι}
    (h : w.StandFor env soc Model p) (i : ι) :
    (w.shell i = none ∧ p.seats i = none) ∨
      ∃ sh s, w.shell i = some sh ∧ p.seats i = some s ∧ s.Fits env soc sh ∧
        sh.files.StandFor Model p.prj p.model p.onPc := by
  unfold Terminals.shell
  have hseat := h.seats i
  generalize w.shells i = shell at hseat
  generalize p.seats i = seat at hseat
  cases hseat with
  | none => exact .inl ⟨rfl, rfl⟩
  | some hfits =>
    exact .inr ⟨_, _, rfl, rfl, ⟨hfits.hiconf_eq, hfits.socid_eq, hfits.bld_eq⟩, h.files⟩

variable [DecidableEq ι]

/-- Another shell in one terminal, and all the others as they were. -/
theorem rel_update {w : Terminals ι} {p : Plan ι}
    (h : ∀ i, Option.Rel (Seat.Fits env soc) (w.shells i) (p.seats i)) (i : ι) {sh : Shell}
    {s : Seat} (hfits : s.Fits env soc sh) (j : ι) :
    Option.Rel (Seat.Fits env soc) (Function.update w.shells i (some sh) j)
      (Function.update p.seats i (some s) j) := by
  by_cases hj : j = i
  · subst hj
    rw [Function.update_self, Function.update_self]
    exact .some hfits
  · rw [Function.update_of_ne hj, Function.update_of_ne hj]
    exact h j

/-- A command in one terminal goes along with its plan. -/
theorem call_planned (hcontract : Contract env soc Model) (hpc : ∀ m, Model m → modelId m ≠ pc)
    {w : Terminals ι} {p : Plan ι} (h : w.StandFor env soc Model p) {i : ι} {sh : Shell} {s : Seat}
    (hseat : p.seats i = some s) (hfits : s.Fits env soc sh)
    (hfiles : sh.files.StandFor Model p.prj p.model p.onPc) {c : Call} (hc : c.NamesModel Model) :
    (w.set i (call env sh c).1).StandFor env soc Model (p.call i s c) := by
  cases c with
  | configPrj prj model =>
    cases model with
    | some m =>
      obtain ⟨hfits', hfiles'⟩ := configPrj_model_fits hcontract hfits prj hc (hpc m.text hc)
      exact ⟨hfiles', rel_update h.seats i hfits'⟩
    | none =>
      show (w.set i (configPrj env sh prj none).1).StandFor env soc Model
        (if prj.text = wrns then _ else _)
      unfold configPrj
      by_cases hprj : prj.text = wrns
      · rw [if_pos hprj, if_pos hprj]
        obtain ⟨hfits', hfiles'⟩ := configPrj_wrns_fits hcontract hfits hfiles
        exact ⟨hfiles', rel_update h.seats i hfits'⟩
      · -- the command only asks for a model
        rw [if_neg hprj, if_neg hprj]
        refine ⟨hfiles, fun j => ?_⟩
        have hrel := rel_update h.seats i hfits j
        rwa [← hseat, Function.update_eq_self] at hrel
  | sbldenv =>
    obtain ⟨hfits', hfiles'⟩ := sbldenv_fits hcontract hpc hfits hfiles
    exact ⟨hfiles', rel_update h.seats i hfits'⟩

/-- One login or command goes along. -/
theorem typed_planned (hcontract : Contract env soc Model) (hpc : ∀ m, Model m → modelId m ≠ pc)
    {w : Terminals ι} {p : Plan ι} (h : w.StandFor env soc Model p) {t : Typed ι}
    (ht : t.NamesModel Model) : (w.typed env t).StandFor env soc Model (p.next t) := by
  cases t with
  | login i socid =>
    have hfiles : (login env w.files socid).files = w.files := (sprjenv_frame env _).1
    refine ⟨?_, rel_update h.seats i (login_fits hcontract h.files socid)⟩
    show (login env w.files socid).files.StandFor Model p.prj p.model p.onPc
    rw [hfiles]
    exact h.files
  | call i c =>
    unfold Terminals.typed Plan.next
    dsimp only
    rcases h.shell i with ⟨hshell, hseat⟩ | ⟨sh, s, hshell, hseat, hfits, hfiles⟩
    · rw [hshell, hseat]
      exact h
    · rw [hshell, hseat]
      exact call_planned hcontract hpc h hseat hfits hfiles ht

/-- Before anybody logged in, the files stand for what was written into them. -/
theorem boot_planned {files : Files} (hmodel : Model files.hiModel)
    (hconf : files.hiConf = pc ∨ files.hiConf = modelId files.hiModel) :
    (Terminals.boot files : Terminals ι).StandFor env soc Model (planAfter files []) := by
  refine ⟨⟨hmodel, rfl, rfl, ?_⟩, fun _ => .none⟩
  show files.hiConf = if decide (files.hiConf = pc) = true then pc else modelId files.hiModel
  by_cases h : files.hiConf = pc
  · rw [if_pos (decide_eq_true h)]
    exact h
  · rw [if_neg (by simpa using h)]
    exact hconf.resolve_left h

/-- The terminals go along with the plan, whatever is typed into which of them. -/
theorem run_planned (hcontract : Contract env soc Model) (hpc : ∀ m, Model m → modelId m ≠ pc)
    {w : Terminals ι} {p : Plan ι} (h : w.StandFor env soc Model p) {history : List (Typed ι)}
    (hhistory : ∀ t ∈ history, t.NamesModel Model) :
    (w.run env history).StandFor env soc Model (history.foldl Plan.next p) := by
  induction history generalizing w p with
  | nil => exact h
  | cons t history ih =>
    have hstep := typed_planned hcontract hpc h (hhistory t List.mem_cons_self)
    exact ih hstep fun t' ht' => hhistory t' (List.mem_cons_of_mem t ht')

/-! ## What comes of it -/

/-- A shell on a seat, with any files: a switch from it comes out right exactly if it is
not on the PC project with the SoC of another model. -/
theorem Seat.Fits.switched_iff (hcontract : Contract env soc Model)
    (hpc : ∀ m, Model m → modelId m ≠ pc) {sh : Shell} {s : Seat} (h : s.Fits env soc sh)
    (prj : Word) {m : Word} (hm : Model m.text) :
    Switched env soc prj m (configPrj env sh prj (some m)) ↔
      (s.onPc = true → soc s.model = soc m.text) := by
  rw [Project.switched_iff hcontract sh prj hm, and_iff_right (hpc _ hm), h.hiconf_eq, h.socid_eq]

/-- Behind any history of any terminals, a switch in one of them comes out right exactly
if that terminal is not on the PC project, or the last model that it loaded has the SoC of
the new one.  The switches of the other terminals do not matter but for an `sbldenv` of
this one. -/
theorem typed_switched_iff (hcontract : Contract env soc Model)
    (hpc : ∀ m, Model m → modelId m ≠ pc) {files : Files} (hmodel : Model files.hiModel)
    (hconf : files.hiConf = pc ∨ files.hiConf = modelId files.hiModel) {history : List (Typed ι)}
    (hhistory : ∀ t ∈ history, t.NamesModel Model) {i : ι} {sh : Shell}
    (hshell : ((Terminals.boot files).run env history).shell i = some sh) (prj : Word) {m : Word}
    (hm : Model m.text) :
    ∃ s, (planAfter files history).seats i = some s ∧
      (Switched env soc prj m (configPrj env sh prj (some m)) ↔
        (s.onPc = true → soc s.model = soc m.text)) := by
  have h := run_planned hcontract hpc (boot_planned hmodel hconf) hhistory
  rcases h.shell i with ⟨hnone, -⟩ | ⟨sh', s, hsome, hseat, hfits, -⟩
  · cases hshell.symm.trans hnone
  · cases hshell.symm.trans hsome
    exact ⟨s, hseat, hfits.switched_iff hcontract hpc prj hm⟩

/-- Two terminals: the second one goes to the PC project, and the first one reads the files
again. -/
def twoTerminals : List (Typed Bool) :=
  [.login false [], .login true [], .call true (.configPrj wrnsWord none), .call false .sbldenv]

theorem twoTerminals_named :
    ∀ t ∈ twoTerminals, t.NamesModel fun m => m = shn808.text ∨ m = uhn1600.text := by
  simp [twoTerminals, Typed.NamesModel, Call.NamesModel]

/-- The first terminal never asked for the PC project, and its next switch goes wrong. -/
theorem typed_switched_twoTerminals :
    ∃ sh, ((Terminals.boot trunkFiles).run twoModels twoTerminals).shell false = some sh ∧
      ¬ Switched twoModels twoSocs trunk uhn1600 (configPrj twoModels sh trunk (some uhn1600)) := by
  obtain ⟨sh, hsh⟩ : ∃ sh,
      ((Terminals.boot trunkFiles).run twoModels twoTerminals).shell false = some sh := ⟨_, rfl⟩
  obtain ⟨s, hseat, hiff⟩ := typed_switched_iff twoModels_contract twoModels_ne_pc
    (Or.inl rfl) (Or.inr rfl) twoTerminals_named hsh trunk (m := uhn1600) (Or.inr rfl)
  refine ⟨sh, hsh, fun hswitched => ?_⟩
  have hs : s = ⟨"trunk".toList, shn808.text, shn808.text, true⟩ :=
    Option.some.inj (hseat.symm.trans (by decide +kernel))
  subst hs
  exact absurd (hiff.mp hswitched rfl) (by decide)

/-- Behind any history, `sbldenv` in a terminal sources the script that the files stand for,
and no other, exactly if they are on the PC project or the terminal sits in the directory
of their project and of the SoC of their model. -/
theorem typed_sbldenv_iff (hcontract : Contract env soc Model)
    (hpc : ∀ m, Model m → modelId m ≠ pc) {files : Files} (hmodel : Model files.hiModel)
    (hconf : files.hiConf = pc ∨ files.hiConf = modelId files.hiModel) {history : List (Typed ι)}
    (hhistory : ∀ t ∈ history, t.NamesModel Model) {i : ι} {sh : Shell}
    (hshell : ((Terminals.boot files).run env history).shell i = some sh) :
    ∃ s, (planAfter files history).seats i = some s ∧
      (sourcedDirs (sbldenv env sh).2 =
          (if (planAfter files history).onPc then []
            else [env.dvrtop (planAfter files history).prj (soc (planAfter files history).model)]) ↔
        (planAfter files history).onPc = true ∨
          s.dirPrj ++ soc s.dirModel =
            (planAfter files history).prj ++ soc (planAfter files history).model) := by
  have h := run_planned hcontract hpc (boot_planned hmodel hconf) hhistory
  rcases h.shell i with ⟨hnone, -⟩ | ⟨sh', s, hsome, hseat, hfits, hfiles⟩
  · cases hshell.symm.trans hnone
  · cases hshell.symm.trans hsome
    refine ⟨s, hseat, ?_⟩
    change sh.files.StandFor Model (planAfter files history).prj (planAfter files history).model
      (planAfter files history).onPc at hfiles
    rw [sbldenv_sourcedDirs, hfiles.hiConf_eq, hfits.bld_eq]
    cases (planAfter files history).onPc with
    | true => simp
    | false =>
      have hid := hpc _ hfiles.model_mem
      simp [hid, Env.dvrtop]

/-- Two terminals: the second one switches to the other model. -/
def switchedElsewhere : List (Typed Bool) :=
  [.login false [], .login true [], .call true (.configPrj trunk (some uhn1600))]

theorem switchedElsewhere_named :
    ∀ t ∈ switchedElsewhere, t.NamesModel fun m => m = shn808.text ∨ m = uhn1600.text := by
  simp [switchedElsewhere, Typed.NamesModel, Call.NamesModel]

/-- `sbldenv` in the first terminal runs the script of the old directory. -/
theorem typed_sbldenv_twoTerminals :
    ∃ sh, ((Terminals.boot trunkFiles).run twoModels switchedElsewhere).shell false = some sh ∧
      sourcedDirs (sbldenv twoModels sh).2 ≠
        [twoModels.dvrtop trunk.text (twoSocs uhn1600.text)] := by
  obtain ⟨sh, hsh⟩ :
      ∃ sh, ((Terminals.boot trunkFiles).run twoModels switchedElsewhere).shell false = some sh :=
    ⟨_, rfl⟩
  obtain ⟨s, hseat, hiff⟩ := typed_sbldenv_iff twoModels_contract twoModels_ne_pc
    (Or.inl rfl) (Or.inr rfl) switchedElsewhere_named hsh
  refine ⟨sh, hsh, fun hsourced => ?_⟩
  have hs : s = ⟨"trunk".toList, shn808.text, shn808.text, false⟩ :=
    Option.some.inj (hseat.symm.trans (by decide +kernel))
  subst hs
  exact absurd (hiff.mp hsourced) (by decide +kernel)

end

end PtsTools.Project
