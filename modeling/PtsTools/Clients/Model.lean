import PtsTools.Python.Str

/-!
# The clients `e.py`, `ee.py` and `eee.py`

The three clients run in an SSH session on the Linux side.  Each builds one
command string and sends it as a datagram to the host that the session comes
from.  Without `SSH_CLIENT` they start the command on the spot.

`e.py` opens a file in a program that its extension picks, `ee.py` opens a
dialog of TortoiseSVN or TortoiseGit, and `eee.py` sends its arguments as they
are.  What the scripts print is left out, and so is the destination port, which
is `PORT` in all of them.
-/

namespace PtsTools.Clients

open PtsTools.Python

/-- How a client ends. -/
inductive Sent
  /-- `usage()` -/
  | usage
  /-- `subprocess.Popen(cmd)` on the client's own machine -/
  | popen (cmd : Str)
  /-- `s.sendto(payload, 0, (ip, PORT))` -/
  | sendto (ip : Str) (payload : Bytes)
  /-- an uncaught `IndexError` -/
  | indexError
  /-- an uncaught `KeyError` -/
  | keyError
  deriving DecidableEq, Repr

/-- What a client reads besides its arguments. -/
structure Env where
  /-- `SSH_CLIENT` -/
  sshClient : Option Str
  /-- `os.getcwd()` -/
  cwd : Str
  /-- `EE_Repo_type` -/
  repoType : Option Str
  deriving DecidableEq, Repr

/-- `HOST`. -/
def Env.host (env : Env) : Str := env.sshClient.getD "Not set".toList

/-- The end that the three scripts share: run the command here, or send it to
the host of the SSH session. -/
def send (env : Env) (cmd : Str) : Sent :=
  if env.host = "Not set".toList then .popen cmd
  else
    match split env.host with
    | [] => .indexError
    | ip :: _ => .sendto ip (encode cmd)

/-! ## `e.py` -/

/-- `office16`. -/
def office16 : Str := "\"C:/Program Files/Microsoft Office/root/Office16/".toList

/-- `acrobatexe`. -/
def acrobatexe : Str :=
  "\"C:/Program Files/Adobe/Acrobat DC/Acrobat/Acrobat.exe\"".toList

/-- The program that the name of the file picks when the script is called `e`. -/
def program (filename : Str) : Str :=
  if filename.rtake 3 = ".ui".toList then "\"D:/Qt4/4.8.7/bin/designer.exe\" ".toList
  else if filename.rtake 3 = ".ts".toList then "\"D:/Qt4/4.8.7/bin/linguist.exe\" ".toList
  else if filename.rtake 5 = ".docx".toList ∨ filename.rtake 4 = ".doc".toList then
    office16 ++ "WINWORD.EXE\"".toList
  else if filename.rtake 5 = ".xlsx".toList ∨ filename.rtake 4 = ".xls".toList then
    office16 ++ "EXCEL.EXE\"".toList
  else if filename.rtake 4 = ".pdf".toList then acrobatexe
  else "\"C:/Program Files/Notepad++/Notepad++.exe\"".toList

/-- The part of the command in front of the path. -/
def openWith (argv0 argv1 : Str) : Str :=
  if basename argv0 = "e".toList then program (basename argv1) ++ " ".toList
  else "notepad ".toList

/-- The path in the command, for an argument that starts with `c`. -/
def filePath (env : Env) (c : Char) (argv1 : Str) : Str :=
  if c = '/' ∨ env.host = "Not set".toList then argv1 else env.cwd ++ "/".toList ++ argv1

/-- `e.py`. -/
def e (env : Env) (argv : List Str) : Sent :=
  match argv with
  | argv0 :: argv1 :: _ =>
    if argv1 ∈ ["--help".toList, "-h".toList, "?".toList] then .usage
    else
      match argv1 with
      | [] => .indexError
      | c :: _ => send env (openWith argv0 argv1 ++ filePath env c argv1)
  | _ => send env ("explorer ".toList ++ env.cwd)

/-! ## `ee.py` -/

/-- The program of the dialogs. -/
def tortoise (repoType : Str) : Str :=
  if repoType = "git".toList then
    "\"C:/Program Files/TortoiseGit/bin/TortoiseGitProc.exe\" ".toList
  else "\"C:/Program Files/TortoiseSVN/bin/TortoiseProc.exe\" ".toList

/-- The optional path below the working directory. -/
def below (rest : List Str) : Str :=
  match rest with
  | [] => []
  | arg :: _ => "/".toList ++ arg

/-- `ee.py`. -/
def ee (env : Env) (argv : List Str) : Sent :=
  match env.repoType with
  | none => .keyError
  | some repoType =>
    let cmd := tortoise repoType
    match argv with
    | _ :: verb :: rest =>
      if verb = "l".toList then
        send env (cmd ++ "/command:log /path:".toList ++ env.cwd ++ below rest)
      else if verb = "m".toList then
        send env (cmd ++ "/command:diff /path:".toList ++ env.cwd)
      else if verb = "r".toList then
        send env (cmd ++ "/command:repobrowser /path:".toList ++ env.cwd)
      else if verb = "b".toList then
        match rest with
        | [] => .indexError
        | arg :: _ =>
          send env (cmd ++ "/command:blame /path:".toList ++ env.cwd ++ "/".toList ++ arg)
      else if verb = "ci".toList then
        send env (cmd ++ "/command:commit /path:".toList ++ env.cwd ++ below rest)
      else if verb = "up".toList then
        send env (cmd ++ "/command:update /path:".toList ++ env.cwd)
      else .usage
    | _ => .usage

/-! ## `eee.py` -/

/-- `eee.py`. -/
def eee (env : Env) (argv : List Str) : Sent :=
  if argv.length = 1 then .usage else send env (join [' '] argv.tail)

/-! ## What a datagram carries -/

/-- A datagram of a client is the encoding of its command. -/
theorem send_eq_sendto {env : Env} {cmd ip : Str} {payload : Bytes}
    (h : send env cmd = .sendto ip payload) :
    payload = encode cmd ∧ env.host ≠ "Not set".toList := by
  rw [send] at h
  split_ifs at h with hhost
  cases hs : split env.host with
  | nil => rw [hs] at h; exact absurd h (by simp)
  | cons a rest =>
    rw [hs] at h
    exact ⟨(Sent.sendto.inj h).2.symm, hhost⟩

end PtsTools.Clients
