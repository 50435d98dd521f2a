import Mathlib.Data.List.Basic
import PtsTools.Project.Model

/-!
# Switching projects

`config_prj prj model` is meant to end in the directory of the project and the SoC
of the model, and to source the script there: `Switched`.  `sprjenv` takes the SoC
from the model only if `Hiconf` is not `PC`, and `Hiconf` is set by the `sbldenv`
of an earlier command.  So the directory depends on what came before.
`switched_iff` says for one command when it comes out right, and `switch_iff` for
all the commands of a shell.

`Asked` is the abstract view of a shell: the model that was asked for last, and
whether the files and the shell are on the PC project.  `run_refines` says that
the shell goes along with it, and `switched_iff_asked` reads the condition off the
commands alone: a switch goes wrong behind the PC project, if the model has
another SoC than the last one.
-/

namespace PtsTools.Project

/-! ## What is expected -/

/-- What the generated files promise for the models: both of them set the SoC id of
the model. -/
structure Contract (env : Env) (soc : Text → Text) (Model : Text → Prop) : Prop where
  setConsoleSocid_eq : ∀ m, Model m → ∀ before, env.setConsoleSocid m before = soc m
  edvrEnv_eq : ∀ m, Model m → ∀ dir before,
    env.edvrEnv dir (modelId m) env.hiVer before = soc m

/-- The directories whose script was sourced. -/
def sourcedDirs (out : List Event) : List Text :=
  out.filterMap fun
    | .sourceEnv dir _ _ => some dir
    | _ => none

/-- A switch ends in the directory of the project and the SoC, and the script there
is the one that was sourced. -/
def Switched (env : Env) (soc : Text → Text) (prj m : Word) (after : Shell × List Event) : Prop :=
  after.1.myprjBld = env.dvrtop prj.text (soc m.text) ∧
    sourcedDirs after.2 = [env.dvrtop prj.text (soc m.text)]

/-! ## The commands -/

/-- The SoC id that `sprjenv` takes: the one of the model, unless `Hiconf` is `PC`. -/
def sprjenvSocid (env : Env) (sh : Shell) : Text :=
  if sh.hiconf = pc then sh.whbsBuildSocid
  else env.setConsoleSocid sh.files.hiModel sh.whbsBuildSocid

/-- The SoC id behind `sprjenv`. -/
theorem sprjenv_socid (env : Env) (sh : Shell) :
    (sprjenv env sh).1.whbsBuildSocid = sprjenvSocid env sh := by
  unfold sprjenv sprjenvSocid hiprjAliases
  dsimp only
  split_ifs <;> rfl

/-- The directory that `sprjenv` sets. -/
theorem sprjenv_myprjBld (env : Env) (sh : Shell) :
    (sprjenv env sh).1.myprjBld = env.dvrtop sh.myprj (sprjenvSocid env sh) := by
  unfold sprjenv sprjenvSocid hiprjAliases
  dsimp only
  split_ifs <;> rfl

/-- `sprjenv` leaves the rest alone. -/
theorem sprjenv_frame (env : Env) (sh : Shell) :
    (sprjenv env sh).1.files = sh.files ∧ (sprjenv env sh).1.hiconf = sh.hiconf := by
  unfold sprjenv hiprjAliases
  dsimp only
  split_ifs <;> exact ⟨rfl, rfl⟩

theorem sprjenv_sourcedDirs (env : Env) (sh : Shell) : sourcedDirs (sprjenv env sh).2 = [] := by
  unfold sprjenv hiprjAliases
  dsimp only
  split_ifs <;> rfl

/-- The SoC id behind `sbldenv`. -/
theorem sbldenv_socid (env : Env) (sh : Shell) :
    (sbldenv env sh).1.whbsBuildSocid =
      if sh.files.hiConf = pc then sh.whbsBuildSocid
      else env.edvrEnv sh.myprjBld sh.files.hiConf env.hiVer sh.whbsBuildSocid := by
  unfold sbldenv hiprjAliases
  dsimp only
  split_ifs <;> rfl

/-- `sbldenv` sets `Hiconf` from the file and leaves the rest alone. -/
theorem sbldenv_frame (env : Env) (sh : Shell) :
    (sbldenv env sh).1.files = sh.files ∧ (sbldenv env sh).1.myprjBld = sh.myprjBld ∧
      (sbldenv env sh).1.hiconf = sh.files.hiConf := by
  unfold sbldenv hiprjAliases
  dsimp only
  split_ifs <;> exact ⟨rfl, rfl, rfl⟩

theorem sbldenv_sourcedDirs (env : Env) (sh : Shell) :
    sourcedDirs (sbldenv env sh).2 = if sh.files.hiConf = pc then [] else [sh.myprjBld] := by
  unfold sbldenv hiprjAliases
  dsimp only
  split_ifs <;> rfl

theorem checkSocid_sourcedDirs (env : Env) (sh : Shell) :
    sourcedDirs (checkSocid env sh) = [] := by
  unfold checkSocid
  split_ifs <;> rfl

theorem sourcedDirs_append (out out' : List Event) :
    sourcedDirs (out ++ out') = sourcedDirs out ++ sourcedDirs out' :=
  List.filterMap_append

/-- The shell between `sprjenv` and `sbldenv` in `config_prj`. -/
def sprjShell (env : Env) (sh : Shell) : Shell :=
  (sprjenv env { sh with myprj := sh.files.myprj }).1

theorem sprjShell_files (env : Env) (sh : Shell) : (sprjShell env sh).files = sh.files :=
  (sprjenv_frame env _).1

theorem sprjShell_socid (env : Env) (sh : Shell) :
    (sprjShell env sh).whbsBuildSocid = sprjenvSocid env sh :=
  sprjenv_socid env _

theorem sprjShell_myprjBld (env : Env) (sh : Shell) :
    (sprjShell env sh).myprjBld = env.dvrtop sh.files.myprj (sprjenvSocid env sh) :=
  sprjenv_myprjBld env _

/-- The end of `config_prj` leaves the shell as `sbldenv` does. -/
theorem loadPrj_shell (env : Env) (sh : Shell) :
    (loadPrj env sh).1 = (sbldenv env (sprjShell env sh)).1 := rfl

/-- The directory that `config_prj` ends in. -/
theorem loadPrj_myprjBld (env : Env) (sh : Shell) :
    (loadPrj env sh).1.myprjBld = env.dvrtop sh.files.myprj (sprjenvSocid env sh) := by
  rw [loadPrj_shell, (sbldenv_frame env _).2.1, sprjShell_myprjBld]

/-- The script that `config_prj` sources is the one in that directory. -/
theorem loadPrj_sourcedDirs (env : Env) (sh : Shell) :
    sourcedDirs (loadPrj env sh).2 =
      if sh.files.hiConf = pc then []
      else [env.dvrtop sh.files.myprj (sprjenvSocid env sh)] := by
  have hout : (loadPrj env sh).2 = (sprjenv env { sh with myprj := sh.files.myprj }).2 ++
      (sbldenv env (sprjShell env sh)).2 ++ checkSocid env (loadPrj env sh).1 := rfl
  rw [hout, sourcedDirs_append, sourcedDirs_append, sprjenv_sourcedDirs, sbldenv_sourcedDirs,
    checkSocid_sourcedDirs, sprjShell_files, sprjShell_myprjBld, List.nil_append, List.append_nil]

/-- What `config_prj` leaves in the files, and in `Hiconf`. -/
theorem loadPrj_frame (env : Env) (sh : Shell) :
    (loadPrj env sh).1.files = sh.files ∧ (loadPrj env sh).1.hiconf = sh.files.hiConf := by
  obtain ⟨hfiles, -, hhiconf⟩ := sbldenv_frame env (sprjShell env sh)
  rw [loadPrj_shell, hfiles, hhiconf, sprjShell_files]
  exact ⟨rfl, rfl⟩

/-- The SoC id that `config_prj` ends with. -/
theorem loadPrj_socid (env : Env) (sh : Shell) :
    (loadPrj env sh).1.whbsBuildSocid =
      if sh.files.hiConf = pc then sprjenvSocid env sh
      else env.edvrEnv (env.dvrtop sh.files.myprj (sprjenvSocid env sh)) sh.files.hiConf env.hiVer
        (sprjenvSocid env sh) := by
  rw [loadPrj_shell, sbldenv_socid, sprjShell_files, sprjShell_socid, sprjShell_myprjBld]

/-! ## One switch -/

theorem Env.dvrtop_inj (env : Env) {prj socid socid' : Text} :
    env.dvrtop prj socid = env.dvrtop prj socid' ↔ socid = socid' := by
  unfold Env.dvrtop
  exact List.append_right_inj _

/-- The files that `config_prj` writes for a model. -/
def modelFiles (prj m : Word) : Files :=
  { myprj := prj.text, hiConf := modelId m.text, hiModel := m.text }

section Switch

variable {env : Env} {soc : Text → Text} {Model : Text → Prop}

/-- A switch comes out right exactly if the model is not the PC and the shell is
not on the PC project with the SoC of another model. -/
theorem switched_iff (hcontract : Contract env soc Model) (sh : Shell) (prj : Word) {m : Word}
    (hm : Model m.text) :
    Switched env soc prj m (configPrj env sh prj (some m)) ↔
      modelId m.text ≠ pc ∧ (sh.hiconf = pc → sh.whbsBuildSocid = soc m.text) := by
  have hshell : (configPrj env sh prj (some m)).1 =
      (loadPrj env { sh with files := modelFiles prj m }).1 := rfl
  have hout : sourcedDirs (configPrj env sh prj (some m)).2 =
      sourcedDirs (loadPrj env { sh with files := modelFiles prj m }).2 := rfl
  have hsocid : sprjenvSocid env { sh with files := modelFiles prj m } = soc m.text ↔
      (sh.hiconf = pc → sh.whbsBuildSocid = soc m.text) := by
    unfold sprjenvSocid
    by_cases hpc : sh.hiconf = pc
    · simp [hpc]
    · simp [hpc, modelFiles, hcontract.setConsoleSocid_eq m.text hm]
  unfold Switched
  rw [hshell, hout, loadPrj_myprjBld, loadPrj_sourcedDirs]
  show env.dvrtop prj.text _ = _ ∧ (if modelId m.text = pc then [] else [env.dvrtop prj.text _]) = _
    ↔ _
  rw [env.dvrtop_inj, ← hsocid]
  by_cases hid : modelId m.text = pc
  · simp [hid]
  · rw [if_neg hid, List.singleton_inj, env.dvrtop_inj]
    simp [hid]

/-! ## All switches of a shell -/

/-- The models that the commands name. -/
def Call.NamesModel (Model : Text → Prop) : Call → Prop
  | .configPrj _ (some m) => Model m.text
  | _ => True

/-- Every switch of a login shell to another project than the PC project comes out
right exactly if none of them is to the model `PC`, and none starts on the PC
project with the SoC of another model. -/
theorem switch_iff (hcontract : Contract env soc Model) (files : Files) (socid : Text)
    (calls : List Call) (hcalls : ∀ c ∈ calls, c.NamesModel Model) :
    (∀ before prj m after, calls = before ++ .configPrj prj (some m) :: after → prj.text ≠ wrns →
        Switched env soc prj m
          (configPrj env (run env (login env files socid) before) prj (some m))) ↔
      ∀ before prj m after, calls = before ++ .configPrj prj (some m) :: after → prj.text ≠ wrns →
        modelId m.text ≠ pc ∧
          ((run env (login env files socid) before).hiconf = pc →
            (run env (login env files socid) before).whbsBuildSocid = soc m.text) := by
  refine forall₅_congr fun before prj m after hsplit => forall_congr' fun _ => ?_
  have hm : Model m.text := hcalls (.configPrj prj (some m)) (by rw [hsplit]; simp)
  exact switched_iff hcontract _ prj hm

end Switch

/-! ### Two models -/

/-- The branch `trunk`. -/
def trunk : Word := ⟨"trunk".toList, by decide, by decide, by decide⟩

/-- The PC project as an argument. -/
def wrnsWord : Word := ⟨wrns, by decide, by decide, by decide⟩

/-- A model with the SoC `k`. -/
def shn808 : Word := ⟨"shn808ph2v3".toList, by decide, by decide, by decide⟩

/-- A model with the SoC `l`. -/
def uhn1600 : Word := ⟨"uhn1600h2v2".toList, by decide, by decide, by decide⟩

/-- The SoC of the two models. -/
def twoSocs (m : Text) : Text := if m = uhn1600.text then ['l'] else ['k']

/-- Generated files for the two models. -/
def twoModels : Env where
  home := "/home/tsp".toList
  hiVer := "1.0".toList
  setConsoleSocid model _ := twoSocs model
  edvrEnv _ conf _ _ := if conf = modelId uhn1600.text then ['l'] else ['k']

theorem twoModels_contract :
    Contract twoModels twoSocs fun m => m = shn808.text ∨ m = uhn1600.text where
  setConsoleSocid_eq := fun _ _ _ => rfl
  edvrEnv_eq := by
    rintro m (rfl | rfl) _ _
    · show (if modelId shn808.text = modelId uhn1600.text then ['l'] else ['k']) = _
      decide +kernel
    · show (if modelId uhn1600.text = modelId uhn1600.text then ['l'] else ['k']) = _
      decide +kernel

/-- The files behind a switch to `trunk` and the first model. -/
def trunkFiles : Files := modelFiles trunk shn808

/-- From one model to another without the PC project in between, both switches come
out right. -/
theorem switch_iff_twoModels :
    Switched twoModels twoSocs trunk shn808
        (configPrj twoModels (login twoModels trunkFiles []) trunk (some shn808)) ∧
      Switched twoModels twoSocs trunk uhn1600
        (configPrj twoModels
          (run twoModels (login twoModels trunkFiles []) [.configPrj trunk (some shn808)])
          trunk (some uhn1600)) := by
  have hright := (switch_iff twoModels_contract trunkFiles []
    [.configPrj trunk (some shn808), .configPrj trunk (some uhn1600)] ?_).mpr ?_
  · exact ⟨hright [] trunk shn808 _ rfl (by decide), hright [_] trunk uhn1600 [] rfl (by decide)⟩
  · intro c hc
    rcases List.mem_pair.mp hc with rfl | rfl
    · exact .inl rfl
    · exact .inr rfl
  · intro before prj m after hsplit _
    match before, hsplit with
    | [], hsplit =>
      cases hsplit
      decide +kernel
    | [c], hsplit =>
      cases hsplit
      decide +kernel
    | c :: c' :: d :: rest, hsplit => simp at hsplit
    | [c, c'], hsplit => simp at hsplit

/-- Through the PC project to a model with another SoC: the directory is that of the
old SoC, although the files keep their contract. -/
theorem switch_stale :
    Contract twoModels twoSocs (fun m => m = shn808.text ∨ m = uhn1600.text) ∧
      ¬ Switched twoModels twoSocs trunk uhn1600
        (configPrj twoModels
          (run twoModels (login twoModels trunkFiles [])
            [.configPrj trunk (some shn808), .configPrj wrnsWord none])
          trunk (some uhn1600)) :=
  ⟨twoModels_contract, by unfold Switched; decide +kernel⟩

/-- Neither of the two models is the PC. -/
theorem twoModels_ne_pc : ∀ m, m = shn808.text ∨ m = uhn1600.text → modelId m ≠ pc := by
  rintro m (rfl | rfl)
  · decide +kernel
  · decide +kernel

section Abstract

variable {env : Env} {soc : Text → Text} {Model : Text → Prop}

/-! ## The abstract view -/

/-- What was asked for: the last model, whether `hi.conf` is on the PC project, and
whether the shell is. -/
structure Asked where
  model : Text
  filesOnPc : Bool
  shellOnPc : Bool
  deriving DecidableEq, Repr

/-- What a command asks for. -/
def Asked.next (a : Asked) : Call → Asked
  | .configPrj _ (some m) => ⟨m.text, false, false⟩
  | .configPrj prj none => if prj.text = wrns then ⟨a.model, true, true⟩ else a
  | .sbldenv => ⟨a.model, a.filesOnPc, a.filesOnPc⟩

/-- What a login shell starts from. -/
def Files.asked (files : Files) : Asked := ⟨files.hiModel, files.hiConf = pc, false⟩

/-- What was asked for after some commands. -/
def askedAfter (files : Files) (calls : List Call) : Asked := calls.foldl Asked.next files.asked

/-- A shell that goes along with what was asked for. -/
structure Refines (soc : Text → Text) (Model : Text → Prop) (sh : Shell) (a : Asked) : Prop where
  model_mem : Model a.model
  hiModel_eq : sh.files.hiModel = a.model
  hiConf_eq : sh.files.hiConf = if a.filesOnPc then pc else modelId a.model
  hiconf_eq : sh.hiconf = pc ↔ a.shellOnPc = true
  socid_eq : sh.whbsBuildSocid = soc a.model

/-- The SoC id that `sprjenv` takes for the model in the file. -/
theorem sprjenvSocid_eq (hcontract : Contract env soc Model) {sh : Shell}
    (hmodel : Model sh.files.hiModel) (hsocid : sh.whbsBuildSocid = soc sh.files.hiModel) :
    sprjenvSocid env sh = soc sh.files.hiModel := by
  unfold sprjenvSocid
  split_ifs
  · exact hsocid
  · exact hcontract.setConsoleSocid_eq _ hmodel _

/-- A login shell whose files were written for a model starts like this. -/
theorem login_refines (hcontract : Contract env soc Model) {files : Files}
    (hmodel : Model files.hiModel)
    (hconf : files.hiConf = pc ∨ files.hiConf = modelId files.hiModel) (socid : Text) :
    Refines soc Model (login env files socid) files.asked := by
  have hpc : ([] : Text) ≠ pc := by decide
  have hframe := sprjenv_frame env ⟨files, files.myprj, [], socid, [], []⟩
  have hfiles : (login env files socid).files = files := hframe.1
  have hhiconf : (login env files socid).hiconf = [] := hframe.2
  refine ⟨hmodel, by rw [hfiles]; rfl, ?_, by rw [hhiconf]; simp [Files.asked, hpc], ?_⟩
  · rw [hfiles]
    unfold Files.asked
    by_cases h : files.hiConf = pc
    · simp [h]
    · have hid := hconf.resolve_left h
      rw [hid] at h ⊢
      simp [h]
  · show (sprjenv env _).1.whbsBuildSocid = _
    rw [sprjenv_socid]
    unfold sprjenvSocid
    rw [if_neg hpc]
    exact hcontract.setConsoleSocid_eq _ hmodel _

/-- A switch to a model goes along, from any shell. -/
theorem configPrj_model_refines (hcontract : Contract env soc Model) (sh : Shell) (prj : Word)
    {m : Word} (hm : Model m.text) (hid : modelId m.text ≠ pc) :
    Refines soc Model (configPrj env sh prj (some m)).1 ⟨m.text, false, false⟩ := by
  have hshell : (configPrj env sh prj (some m)).1 =
      (loadPrj env { sh with files := modelFiles prj m }).1 := rfl
  obtain ⟨hfiles, hhiconf⟩ := loadPrj_frame env { sh with files := modelFiles prj m }
  rw [← hshell] at hfiles hhiconf
  have hsocid := loadPrj_socid env { sh with files := modelFiles prj m }
  rw [← hshell, if_neg (by exact hid)] at hsocid
  refine ⟨hm, by rw [hfiles]; rfl, by rw [hfiles]; rfl, ?_, ?_⟩
  · rw [hhiconf]
    simp [modelFiles, hid]
  · rw [hsocid]
    exact hcontract.edvrEnv_eq m.text hm _ _

/-- So does a switch to the PC project. -/
theorem configPrj_wrns_refines (hcontract : Contract env soc Model) {sh : Shell} {a : Asked}
    (h : Refines soc Model sh a) :
    Refines soc Model
      (loadPrj env { sh with files := { sh.files with myprj := wrns, hiConf := pc } }).1
      ⟨a.model, true, true⟩ := by
  obtain ⟨hfiles, hhiconf⟩ :=
    loadPrj_frame env { sh with files := { sh.files with myprj := wrns, hiConf := pc } }
  have hmodel : Model sh.files.hiModel := by rw [h.hiModel_eq]; exact h.model_mem
  have hsocid : sh.whbsBuildSocid = soc sh.files.hiModel := by rw [h.socid_eq, h.hiModel_eq]
  refine ⟨h.model_mem, by rw [hfiles]; exact h.hiModel_eq, by rw [hfiles]; rfl,
    by rw [hhiconf]; simp, ?_⟩
  rw [loadPrj_socid, if_pos rfl, sprjenvSocid_eq hcontract (by exact hmodel) (by exact hsocid)]
  exact congrArg soc h.hiModel_eq

/-- And `sbldenv`. -/
theorem sbldenv_refines (hcontract : Contract env soc Model) (hpc : ∀ m, Model m → modelId m ≠ pc)
    {sh : Shell} {a : Asked} (h : Refines soc Model sh a) :
    Refines soc Model (sbldenv env sh).1 ⟨a.model, a.filesOnPc, a.filesOnPc⟩ := by
  obtain ⟨hfiles, -, hhiconf⟩ := sbldenv_frame env sh
  have hid := hpc a.model h.model_mem
  refine ⟨h.model_mem, by rw [hfiles]; exact h.hiModel_eq, by rw [hfiles]; exact h.hiConf_eq,
    ?_, ?_⟩
  · rw [hhiconf, h.hiConf_eq]
    cases a.filesOnPc <;> simp [hid]
  · rw [sbldenv_socid, h.hiConf_eq]
    cases a.filesOnPc with
    | true => exact h.socid_eq
    | false =>
      show (if modelId a.model = pc then _ else env.edvrEnv _ (modelId a.model) _ _) = _
      rw [if_neg hid]
      exact hcontract.edvrEnv_eq a.model h.model_mem _ _

/-- Every command keeps the shell along with what was asked for. -/
theorem call_refines (hcontract : Contract env soc Model) (hpc : ∀ m, Model m → modelId m ≠ pc)
    {sh : Shell} {a : Asked} (h : Refines soc Model sh a) {c : Call} (hc : c.NamesModel Model) :
    Refines soc Model (call env sh c).1 (a.next c) := by
  cases c with
  | configPrj prj model =>
    cases model with
    | some m => exact configPrj_model_refines hcontract sh prj hc (hpc m.text hc)
    | none =>
      show Refines soc Model (configPrj env sh prj none).1
        (if prj.text = wrns then ⟨a.model, true, true⟩ else a)
      unfold configPrj
      by_cases hprj : prj.text = wrns
      · rw [if_pos hprj, if_pos hprj]
        exact configPrj_wrns_refines hcontract h
      · rw [if_neg hprj, if_neg hprj]
        exact h
  | sbldenv => exact sbldenv_refines hcontract hpc h

/-- All commands do. -/
theorem run_refines (hcontract : Contract env soc Model) (hpc : ∀ m, Model m → modelId m ≠ pc)
    {calls : List Call} (hcalls : ∀ c ∈ calls, c.NamesModel Model) {sh : Shell} {a : Asked}
    (h : Refines soc Model sh a) :
    Refines soc Model (run env sh calls) (calls.foldl Asked.next a) := by
  induction calls generalizing sh a with
  | nil => exact h
  | cons c calls ih =>
    have hstep := call_refines hcontract hpc h (hcalls c List.mem_cons_self)
    exact ih (fun c' hc' => hcalls c' (List.mem_cons_of_mem c hc')) hstep

/-- Behind any commands a switch comes out right exactly if the shell is not on the
PC project, or the last model has the same SoC. -/
theorem switched_iff_asked (hcontract : Contract env soc Model)
    (hpc : ∀ m, Model m → modelId m ≠ pc) {files : Files} (hmodel : Model files.hiModel)
    (hconf : files.hiConf = pc ∨ files.hiConf = modelId files.hiModel) (socid : Text)
    {calls : List Call} (hcalls : ∀ c ∈ calls, c.NamesModel Model) (prj : Word) {m : Word}
    (hm : Model m.text) :
    Switched env soc prj m
        (configPrj env (run env (login env files socid) calls) prj (some m)) ↔
      ((askedAfter files calls).shellOnPc = true →
        soc (askedAfter files calls).model = soc m.text) := by
  have h := run_refines hcontract hpc hcalls (login_refines hcontract hmodel hconf socid)
  rw [switched_iff hcontract _ prj hm, and_iff_right (hpc _ hm), h.hiconf_eq, h.socid_eq]
  rfl

/-- Behind the PC project a switch back to the same model comes out right. -/
theorem switched_asked_twoModels :
    Switched twoModels twoSocs trunk shn808
      (configPrj twoModels
        (run twoModels (login twoModels trunkFiles [])
          [.configPrj trunk (some shn808), .configPrj wrnsWord none])
        trunk (some shn808)) := by
  refine (switched_iff_asked twoModels_contract twoModels_ne_pc (Or.inl rfl) (Or.inr rfl) [] ?_
    trunk (Or.inl rfl)).mpr fun _ => rfl
  intro c hc
  rcases List.mem_pair.mp hc with rfl | rfl
  · exact Or.inl rfl
  · trivial

end Abstract

end PtsTools.Project
