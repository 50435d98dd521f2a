import PtsTools.Project.Switch

/-!
# A switch that is made twice

A switch can come out wrong because of what the shell did before: `switched_iff`.
The same switch once more puts that right.  Behind it nothing in the shell depends on
the past any more, whatever commands came before: `run_settled`.  The shell stays so
until the next switch to another project or model.
-/

namespace PtsTools.Project

variable {env : Env} {soc : Text → Text} {Model : Text → Prop} {prj m : Word}

/-- The shell of a project and a model. -/
def settled (env : Env) (soc : Text → Text) (prj m : Word) : Shell where
  files := modelFiles prj m
  myprj := prj.text
  hiconf := modelId m.text
  whbsBuildSocid := soc m.text
  myprjBld := env.dvrtop prj.text (soc m.text)
  myprjTop := env.home ++ "/prj/".toList ++ prj.text

/-! ## One command -/

/-- `sbldenv` sets `Myprj_top` and leaves `Myprj` alone. -/
theorem sbldenv_myprj (env : Env) (sh : Shell) :
    (sbldenv env sh).1.myprj = sh.myprj ∧
      (sbldenv env sh).1.myprjTop = env.home ++ "/prj/".toList ++ sh.myprj := by
  unfold sbldenv hiprjAliases
  dsimp only
  split_ifs <;> exact ⟨rfl, rfl⟩

theorem sprjShell_myprj (env : Env) (sh : Shell) : (sprjShell env sh).myprj = sh.files.myprj := by
  unfold sprjShell sprjenv hiprjAliases
  dsimp only
  split_ifs <;> rfl

/-- Behind a switch at most the directory is not the one of the project and the model. -/
theorem configPrj_shell (hcontract : Contract env soc Model) (hm : Model m.text)
    (hid : modelId m.text ≠ pc) (sh : Shell) :
    (configPrj env sh prj (some m)).1 =
      { settled env soc prj m with
        myprjBld :=
          env.dvrtop prj.text (sprjenvSocid env { sh with files := modelFiles prj m }) } := by
  let sh' : Shell := { sh with files := modelFiles prj m }
  have hshell : (configPrj env sh prj (some m)).1 = (loadPrj env sh').1 := rfl
  obtain ⟨hfiles, hhiconf⟩ := loadPrj_frame env sh'
  obtain ⟨hmyprj, htop⟩ := sbldenv_myprj env (sprjShell env sh')
  rw [← loadPrj_shell, sprjShell_myprj] at hmyprj htop
  have hbld := loadPrj_myprjBld env sh'
  have hsocid := loadPrj_socid env sh'
  have hconf : sh'.files.hiConf ≠ pc := hid
  rw [if_neg hconf] at hsocid
  have hsoc : (loadPrj env sh').1.whbsBuildSocid = soc m.text :=
    hsocid.trans (hcontract.edvrEnv_eq m.text hm _ _)
  rw [hshell]
  generalize (loadPrj env sh').1 = after at *
  obtain ⟨files, myprj, hiconf, socid, bld, top⟩ := after
  dsimp only at hfiles hhiconf hmyprj htop hbld hsoc
  rw [hfiles, hhiconf, hmyprj, htop, hbld, hsoc]
  rfl

/-- A switch settles a shell that is not on the PC project. -/
theorem configPrj_settles (hcontract : Contract env soc Model) (hm : Model m.text)
    (hid : modelId m.text ≠ pc) {sh : Shell} (hsh : sh.hiconf ≠ pc) :
    (configPrj env sh prj (some m)).1 = settled env soc prj m := by
  have hsocid : sprjenvSocid env { sh with files := modelFiles prj m } = soc m.text := by
    unfold sprjenvSocid
    rw [if_neg hsh]
    exact hcontract.setConsoleSocid_eq m.text hm _
  rw [configPrj_shell hcontract hm hid, hsocid]
  rfl

/-- The second switch settles every shell. -/
theorem configPrj_twice (hcontract : Contract env soc Model) (hm : Model m.text)
    (hid : modelId m.text ≠ pc) (sh : Shell) :
    (configPrj env (configPrj env sh prj (some m)).1 prj (some m)).1 = settled env soc prj m := by
  apply configPrj_settles hcontract hm hid
  rw [configPrj_shell hcontract hm hid]
  exact hid

/-! ## All commands -/

/-- The commands that switch to nothing else: the same switch, `sbldenv`, and a
`config_prj` that only asks what model. -/
def Call.Stays (prj m : Word) : Call → Prop
  | .configPrj prj' (some m') => prj' = prj ∧ m' = m
  | .configPrj prj' none => prj'.text ≠ wrns
  | .sbldenv => True

theorem call_settled (hcontract : Contract env soc Model) (hm : Model m.text)
    (hid : modelId m.text ≠ pc) {c : Call} (hc : c.Stays prj m) :
    (call env (settled env soc prj m) c).1 = settled env soc prj m := by
  cases c with
  | configPrj prj' model =>
    cases model with
    | some m' =>
      obtain ⟨rfl, rfl⟩ := hc
      exact configPrj_settles hcontract hm hid hid
    | none =>
      show (configPrj env (settled env soc prj m) prj' none).1 = _
      unfold configPrj
      rw [if_neg hc]
  | sbldenv =>
    show (sbldenv env (settled env soc prj m)).1 = _
    have hconf : (settled env soc prj m).files.hiConf ≠ pc := hid
    unfold sbldenv hiprjAliases
    dsimp only
    rw [if_neg hconf]
    have hsoc := hcontract.edvrEnv_eq m.text hm (settled env soc prj m).myprjBld
      (settled env soc prj m).whbsBuildSocid
    unfold settled modelFiles at hsoc ⊢
    dsimp only at hsoc ⊢
    rw [hsoc]

theorem run_append (env : Env) (sh : Shell) (calls calls' : List Call) :
    run env sh (calls ++ calls') = run env (run env sh calls) calls' :=
  List.foldl_append

/-- A switch that is made twice settles the shell, whatever came before, and the shell
stays so until the next switch. -/
theorem run_settled (hcontract : Contract env soc Model) (hm : Model m.text)
    (hid : modelId m.text ≠ pc) (sh : Shell) (before : List Call) {later : List Call}
    (hlater : ∀ c ∈ later, c.Stays prj m) :
    run env sh (before ++ [.configPrj prj (some m), .configPrj prj (some m)] ++ later) =
      settled env soc prj m := by
  rw [run_append, run_append]
  show run env
    (configPrj env (configPrj env (run env sh before) prj (some m)).1 prj (some m)).1 later = _
  rw [configPrj_twice hcontract hm hid]
  induction later with
  | nil => rfl
  | cons c later ih =>
    show run env (call env (settled env soc prj m) c).1 later = _
    rw [call_settled hcontract hm hid (hlater c List.mem_cons_self)]
    exact ih fun c' hc' => hlater c' (List.mem_cons_of_mem _ hc')

/-- Behind the PC project: the SoC of the other model, the second switch, and some
commands that ask for nothing else. -/
theorem run_settled_twoModels :
    run twoModels (login twoModels trunkFiles [])
        ([.configPrj trunk (some shn808), .configPrj wrnsWord none] ++
          [.configPrj trunk (some uhn1600), .configPrj trunk (some uhn1600)] ++
          [.sbldenv, .configPrj trunk none]) =
      settled twoModels twoSocs trunk uhn1600 :=
  run_settled twoModels_contract (Or.inr rfl) (by decide +kernel) _ _ fun c hc => by
    rcases List.mem_pair.mp hc with rfl | rfl
    · trivial
    · show trunk.text ≠ wrns
      decide

end PtsTools.Project
