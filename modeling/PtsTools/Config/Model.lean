import PtsTools.Lib.While

/-!
# The scripts `runccc` and `linuxccc`

Both scripts start the configuration tool `config` for a device: `runccc` asks the
Windows host to run `config.exe`, and `linuxccc` runs the Linux build.  They read
the last part of the address and then the options, in a loop over the positional
parameters, and a `shift` of no parameter does nothing.

The scripts are two copies of one text.  What differs is in a `Script`.  In
`runccc` the line `Tls=-tls --runlevel0` for the TLS name of the script has no
quotes, so the shell takes it for a call of `--runlevel0`, and `Tls` stays unset.

What the scripts read from outside is an `Env`.  The values hold no character that
starts a pathname expansion, and what is printed is left out.
-/

namespace PtsTools.Config

open PtsTools.Lib.While

/-- A text of the shell. -/
abbrev Text := List Char

/-! ## The state -/

/-- What the scripts read from outside. -/
structure Env where
  /-- `~` -/
  home : Text
  /-- `Myprj` -/
  myprj : Text
  /-- `WHBS_CONSOLE_TARGETID` -/
  targetid : Text
  /-- `pwd` -/
  pwd : Text
  /-- `[ -f ]` -/
  isFile : Text → Bool

/-- The variables. -/
structure Settings where
  folder : Text
  passwd : Text
  port : Text
  releaseDir : Text
  tls : Text
  ipaddr : Text
  deriving DecidableEq, Repr

/-- The options with a value. -/
inductive Key
  | port
  | password
  | folder
  | exedir
  deriving DecidableEq, Repr

/-- The two words of an option: `-p` and `--port`. -/
def Key.word : Key → (long : Bool) → Text
  | .port, false => "-p".toList
  | .port, true => "--port".toList
  | .password, false => "-w".toList
  | .password, true => "--password".toList
  | .folder, false => "-f".toList
  | .folder, true => "--folder".toList
  | .exedir, false => "-e".toList
  | .exedir, true => "--exedir".toList

/-- `-t` and `--tls` -/
def tlsWord : (long : Bool) → Text
  | false => "-t".toList
  | true => "--tls".toList

/-- What an option with a value assigns. -/
def Key.assign (env : Env) (value : Text) (st : Settings) : Key → Settings
  | .port => { st with port := value }
  | .password => { st with passwd := value }
  | .folder => { st with folder := value }
  | .exedir => { st with releaseDir := env.pwd ++ "/".toList ++ value }

/-- What differs between the two scripts. -/
structure Script where
  /-- the name under which the script uses TLS -/
  tlsName : Text
  /-- what that name changes -/
  named : Settings → Settings
  /-- the first part of the address -/
  net : Text
  /-- the options with a value -/
  keys : List Key
  /-- the option `-t` -/
  tls : Settings → Settings
  /-- the first `Release_dir` -/
  releaseDir : Env → Text
  /-- `Configexe` -/
  configexe : Env → Settings → Text
  /-- the words in front of `$Configexe` -/
  command : List Text

/-- `~/prj/$Myprj/console/src/console/project_window/$WHBS_CONSOLE_TARGETID` -/
def Env.projectWindow (env : Env) : Text :=
  env.home ++ "/prj/".toList ++ env.myprj ++ "/console/src/console/project_window/".toList ++
    env.targetid

/-- `runccc`. -/
def runccc : Script where
  tlsName := "./tlsccc".toList
  named st := { st with port := "443".toList, passwd := "1111111qQ".toList }
  net := "192.168.111.".toList
  keys := [.port, .password, .folder, .exedir]
  tls st := { st with tls := "-tls --runlevel0".toList, port := "443".toList }
  releaseDir env := env.projectWindow ++ "/release".toList
  configexe _ st := st.releaseDir ++ "/config.exe".toList
  command := ["eee".toList]

/-- `linuxccc`.  It has no `Release_dir`. -/
def linuxccc : Script where
  tlsName := "./linuxtlsccc".toList
  named st :=
    { st with tls := "-tls".toList, port := "443".toList, passwd := "1111111qQ".toList }
  net := "192.168.217.".toList
  keys := [.port, .password, .folder]
  tls st := { st with tls := "-tls".toList }
  releaseDir _ := []
  configexe env _ := env.projectWindow ++ "/config".toList
  command := []

/-! ## The option loop -/

/-- The option with a value that a word names. -/
def Script.key? (s : Script) (w : Text) : Option Key :=
  s.keys.find? fun k => w = k.word false ∨ w = k.word true

/-- The body of the loop, on the variables and the positional parameters.  A word
that no arm of the `case` matches changes nothing. -/
def Script.body (s : Script) (env : Env) (st : Settings × List Text) : Settings × List Text :=
  match st.2 with
  | [] => st
  | key :: rest =>
    match s.key? key with
    | some k => (k.assign env (rest.getD 0 []) st.1, rest.drop 1)
    | none => if key = tlsWord false ∨ key = tlsWord true then (s.tls st.1, rest) else st

/-- `while [[ $# -gt 0 ]]` -/
def Script.loop (s : Script) (env : Env) : Loop (Settings × List Text) where
  cond st := 0 < st.2.length
  body := s.body env

/-! ## The scripts -/

/-- `[0-9]` -/
def digit (c : Char) : Bool := '0' ≤ c && c ≤ '9'

/-- The variables in front of the loop, from the name of the script and its first
argument. -/
def Script.start (s : Script) (env : Env) (arg0 arg1 : Text) : Settings :=
  let st : Settings :=
    { folder := "--path:".toList ++ arg1, passwd := "12345".toList, port := "80".toList,
      releaseDir := s.releaseDir env, tls := [], ipaddr := [] }
  let st := if arg0 = s.tlsName then s.named st else st
  if ¬ (arg1 ≠ [] ∧ arg1.all digit) then st
  else if arg1.take 1 = "0".toList then
    { st with ipaddr := "192.168.110.".toList ++ (arg1.drop 1).take 3 }
  else { st with ipaddr := s.net ++ arg1 }

/-- The words of an expansion without quotes. -/
def words (t : Text) : List Text := (t.splitOnP (· ∈ [' ', '\t', '\n'])).filter (· ≠ [])

/-- How a script ends: with the usage text, without `config`, or with a command. -/
inductive Outcome
  | usage
  | noConfig
  | ran (command : List Text)
  deriving DecidableEq, Repr

/-- The script behind the loop. -/
def Script.finish (s : Script) (env : Env) (st : Settings) : Outcome :=
  let configexe := s.configexe env st
  if env.isFile configexe then
    .ran (s.command ++ words configexe ++ words st.ipaddr ++ words st.port ++ ["admin".toList] ++
      words st.passwd ++ words st.folder ++ words st.tls)
  else .noConfig

/-- A run of a script, or `none` if the fuel of the loop runs out. -/
def Script.exec (s : Script) (env : Env) (fuel : Nat) (arg0 : Text) :
    List Text → Option Outcome
  | [] => some .usage
  | arg1 :: options =>
    ((s.loop env).run fuel (s.start env arg0 arg1, options)).map fun st => s.finish env st.1

end PtsTools.Config
