import Mathlib.Logic.Basic

/-!
# The project commands of `hidvr.aliases.sh`

`config_prj` switches the shell to another project and model, `sprjenv` sets the
environment of the model, and `sbldenv` the build environment.  What they share
is a state that is spread over three files and the global variables of the shell.

* Three files: `~/prj/bin/myprj`, which assigns `Myprj`, and `~/etc/hi.conf` and
  `~/etc/hi.model`.  A file is the text that `cat` gives inside backquotes.
* The globals `Myprj`, `Hiconf`, `WHBS_BUILD_SOCID`, `Myprj_bld` and `Myprj_top`.
  A global that is not set is empty, which is how the tests in the script read it.

The environment files are generated and not in the repository.  An `Env` says what
they make of `WHBS_BUILD_SOCID`, and all directories exist.  The arguments of the
commands are words without a character that the shell treats in its own way.  The
globals that no later command reads and most of the output are left out.
-/

namespace PtsTools.Project

/-- A text of the shell. -/
abbrev Text := List Char

/-! ## `model_id` -/

/-- `[0-9]` -/
def digit (c : Char) : Bool := '0' ≤ c && c ≤ '9'

/-- `[a-z]` -/
def lower (c : Char) : Bool := 'a' ≤ c && c ≤ 'z'

/-- `[fp]` -/
def fOrP (c : Char) : Bool := c = 'f' || c = 'p'

/-- Character by character, the text starts with the pattern. -/
def matchHere : List (Char → Bool) → Text → Bool
  | [], _ => true
  | _ :: _, [] => false
  | p :: ps, c :: s => p c && matchHere ps s

/-- `s/\(left\)\(right\)/\1-\2/`: a hyphen goes into the leftmost match. -/
def hyphenate (left right : List (Char → Bool)) : Text → Text
  | [] => []
  | c :: s =>
    if matchHere (left ++ right) (c :: s) then
      (c :: s).take left.length ++ '-' :: (c :: s).drop left.length
    else c :: hyphenate left right s

/-- The substitutions of `model_id`, in their order. -/
def modelIdRules : List (List (Char → Bool) × List (Char → Bool)) :=
  [([digit, fOrP], [lower]),
   ([(· = '-'), (· = 'h'), digit], [lower]),
   ([(· = '-'), (· = 'u')], [lower]),
   ([(· = 'h'), digit], [(· = 'v'), digit]),
   ([(· = 'u'), (· = 'r')], [(· = 'v'), (· = '2')]),
   ([digit], [(· = 'h'), digit]),
   ([(· = 'v'), digit], [(· = 'r'), digit])]

/-- `model_id`: the hyphens, and all in upper case. -/
def modelId (code : Text) : Text :=
  (modelIdRules.foldl (fun s rule => hyphenate rule.1 rule.2 s) code).map Char.toUpper

example : modelId "shn808ph2v3".toList = "SHN808P-H2-V3".toList := by decide +kernel

example : modelId "uhd1608fuv3".toList = "UHD1608F-U-V3".toList := by decide +kernel

/-! ## The state -/

/-- A character that the shell takes as it is. -/
def plainChar (c : Char) : Bool := c.isAlphanum || c = '-' || c = '_' || c = '.'

/-- An argument: a word of plain characters that is no option. -/
structure Word where
  text : Text
  plain : text.all plainChar
  ne_nil : text ≠ []
  no_option : text.head? ≠ some '-'
  deriving DecidableEq

/-- The files. -/
structure Files where
  /-- what `~/prj/bin/myprj` assigns to `Myprj` -/
  myprj : Text
  /-- `~/etc/hi.conf` -/
  hiConf : Text
  /-- `~/etc/hi.model` -/
  hiModel : Text
  deriving DecidableEq, Repr

/-- The files and the globals of the shell. -/
structure Shell where
  files : Files
  myprj : Text
  hiconf : Text
  whbsBuildSocid : Text
  myprjBld : Text
  myprjTop : Text
  deriving DecidableEq, Repr

/-- What the generated files do, and what no command changes. -/
structure Env where
  /-- `~` -/
  home : Text
  /-- `~/etc/hi.ver` -/
  hiVer : Text
  /-- `WHBS_BUILD_SOCID` after `set_<model>_specific_env` and `set_console_socid`,
  from the model and the value before -/
  setConsoleSocid : (model before : Text) → Text
  /-- `WHBS_BUILD_SOCID` after `edvr_hddvr_hisilicon_env.sh` of a directory, from
  the directory, the two arguments and the value before -/
  edvrEnv : (dir conf ver before : Text) → Text

/-- What a command says or does besides the state. -/
inductive Event
  /-- `what model?`, with the current project and model -/
  | whatModel (myprj conf : Text)
  /-- the model that was asked for -/
  | model (model : Text)
  /-- `pc linux` -/
  | pcLinux
  /-- `. ./edvr_hddvr_hisilicon_env.sh conf ver` in a directory -/
  | sourceEnv (dir conf ver : Text)
  /-- the SoC id, where it fits the directory -/
  | socid (socid : Text)
  /-- the warning that the SoC id does not fit the directory -/
  | mismatch (myprjTop socid : Text)
  /-- the warning that there is no SoC id for the link -/
  | noSocid
  /-- `ln -sf target dir` -/
  | link (target dir : Text)
  deriving DecidableEq, Repr

/-! ## The commands -/

/-- `PC`, the model id of the PC project. -/
def pc : Text := "PC".toList

/-- `wrns`, the PC project. -/
def wrns : Text := "wrns".toList

/-- `~/prj/dvrtop/$Myprj$WHBS_BUILD_SOCID` -/
def Env.dvrtop (env : Env) (myprj socid : Text) : Text :=
  env.home ++ "/prj/dvrtop/".toList ++ myprj ++ socid

/-- `hiprj_aliases`, as far as `config_prj` reads what it sets. -/
def hiprjAliases (env : Env) (sh : Shell) : Shell :=
  { sh with myprjTop := env.home ++ "/prj/".toList ++ sh.myprj }

/-- `sprjenv`. -/
def sprjenv (env : Env) (sh : Shell) : Shell × List Event :=
  let sh := hiprjAliases env sh
  let (sh, out) :=
    if sh.hiconf = pc then (sh, [.pcLinux])
    else
      ({ sh with whbsBuildSocid := env.setConsoleSocid sh.files.hiModel sh.whbsBuildSocid }, [])
  ({ sh with myprjBld := env.dvrtop sh.myprj sh.whbsBuildSocid }, out)

/-- `sbldenv`. -/
def sbldenv (env : Env) (sh : Shell) : Shell × List Event :=
  let sh := hiprjAliases env sh
  let sh := { sh with hiconf := sh.files.hiConf }
  if sh.hiconf = pc then (sh, [.pcLinux])
  else
    ({ sh with
        whbsBuildSocid := env.edvrEnv sh.myprjBld sh.files.hiConf env.hiVer sh.whbsBuildSocid },
      [.sourceEnv sh.myprjBld sh.files.hiConf env.hiVer])

/-- The end of `config_prj`: the check of the SoC id, and the link for `trunk`. -/
def checkSocid (env : Env) (sh : Shell) : List Event :=
  (if sh.whbsBuildSocid = sh.myprjBld.getLast?.toList then [.socid sh.whbsBuildSocid]
    else [.mismatch sh.myprjTop sh.whbsBuildSocid]) ++
  (if sh.whbsBuildSocid = [] then [.noSocid]
    else if sh.myprj = "trunk".toList then
      [.link (env.dvrtop "trunk".toList sh.whbsBuildSocid ++ "/root/src/external_library".toList)
        (env.home ++ "/prj/trunk/root/src/".toList)]
    else [])

/-- `config_prj` from the line `source ~/prj/bin/myprj` on. -/
def loadPrj (env : Env) (sh : Shell) : Shell × List Event :=
  let sh := { sh with myprj := sh.files.myprj }
  let (sh, out) := sprjenv env sh
  let (sh, out') := sbldenv env sh
  (sh, out ++ out' ++ checkSocid env sh)

/-- `config_prj prj model`, or without a model. -/
def configPrj (env : Env) (sh : Shell) (prj : Word) (model : Option Word) : Shell × List Event :=
  match model with
  | some m =>
    let (sh, out) := loadPrj env
      { sh with files := { myprj := prj.text, hiConf := modelId m.text, hiModel := m.text } }
    (sh, .model m.text :: out)
  | none =>
    if prj.text = wrns then
      loadPrj env { sh with files := { sh.files with myprj := wrns, hiConf := pc } }
    else (sh, [.whatModel sh.myprj sh.files.hiConf])

/-- A login shell: the file is read for the first time, with `Hiconf` not set. -/
def login (env : Env) (files : Files) (socid : Text) : Shell :=
  (sprjenv env
    { files := files, myprj := files.myprj, hiconf := [], whbsBuildSocid := socid,
      myprjBld := [], myprjTop := [] }).1

/-- A command that is typed into the shell. -/
inductive Call
  | configPrj (prj : Word) (model : Option Word)
  | sbldenv
  deriving DecidableEq

/-- One command. -/
def call (env : Env) (sh : Shell) : Call → Shell × List Event
  | .configPrj prj model => configPrj env sh prj model
  | .sbldenv => sbldenv env sh

/-- The shell after some commands. -/
def run (env : Env) (sh : Shell) (calls : List Call) : Shell :=
  calls.foldl (fun sh c => (call env sh c).1) sh

end PtsTools.Project
