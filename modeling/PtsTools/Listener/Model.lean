import PtsTools.Python.Shlex
import PtsTools.Python.Ntpath

/-!
# The listener `imlistening.py`

The listener receives UDP datagrams on the Windows host and runs what they say.
This module is the receive loop of `python/imlistening.py`, one datagram at a
time, with the module variables that the loop assigns.

What the loop calls outside itself is a `Host`: `subprocess.Popen`, `exec`, and
the world they change.  Code run by `exec` shares the variables of the module,
so it gets them and may answer with other values.  It may also take names away
from the loop: a name is `lost` if it is deleted, or bound to something that the
loop cannot use in its place.  A name that is not lost works as before.

`recvfrom` and the Qt calls never raise here, and code run by `exec` ends.  What
`print` writes is left out, and the standard output takes every text.
-/

namespace PtsTools.Listener

open PtsTools.Python
open PtsTools.Lib.Replace (replaceAll)

/-! ## What comes in and what goes out -/

/-- One datagram, with the address that `recvfrom` reports for it. -/
structure Datagram where
  ip : Str
  port : Nat
  data : Bytes
  deriving DecidableEq, Repr

/-- The branches of the loop body that run a command. -/
inductive Branch
  | nfs
  | explorer
  | exe
  | python
  | other
  deriving DecidableEq, Repr

/-- What the loop does to the outside: the command text given to `Popen` in one
of the branches, or the code given to `exec`. -/
inductive Action
  | popen (branch : Branch) (cmd : Str)
  | exec (code : Str)
  deriving DecidableEq, Repr

/-- The names that the loop looks up and does not assign. -/
inductive Name
  | sock
  | print
  | gigacitys
  | ptslinux
  | shlex
  | valueError
  | subprocess
  | os
  | exec
  | exception
  | qPushButton
  | app
  deriving DecidableEq, Repr

/-- The exceptions that leave the loop body uncaught. -/
inductive Uncaught
  /-- a name that is lost -/
  | unusable (name : Name)
  /-- `data.decode("utf8")` -/
  | unicodeDecodeError
  /-- `args[0]` of an empty list -/
  | indexError
  /-- `subprocess.Popen` -/
  | osError
  /-- `SystemExit`, which `except Exception` does not catch -/
  | systemExit
  /-- `m1, m2 = inst.args` -/
  | unpackError
  /-- `format(m1, "d")` or `format(m2, "")` -/
  | formatError
  /-- `str` of what is printed -/
  | printError
  /-- `cmd`, when it is deleted -/
  | nameError
  deriving DecidableEq, Repr

/-- A Python object, as far as the loop uses it: what `str(_)`, `format(_, "d")` and
`format(_, "")` answer, where they do not raise. -/
structure PyObj where
  str : Option Str
  formatD : Option Str
  format : Option Str
  deriving DecidableEq, Repr

/-- A text as an object. -/
def PyObj.ofStr (s : Str) : PyObj where
  str := some s
  formatD := none
  format := some s

/-- An exception: what `str(_)` answers, where it does not raise, and its `args`. -/
structure PyException where
  str : Option Str
  args : List PyObj
  deriving DecidableEq, Repr

/-- How code run by `exec` ends.  It has `exited` if it raised something that is no
`Exception`. -/
inductive Outcome
  | returned
  | raised (inst : PyException)
  | exited
  deriving DecidableEq, Repr

/-- The module variables that the loop reads or assigns. -/
structure Globals where
  gigacitys : List Str
  ptslinux : Str
  data : Option Bytes
  ip : Option Str
  port : Option Nat
  cmd : Option PyObj
  args : Option (List Str)
  lost : List Name
  deriving DecidableEq, Repr

/-- The calls out of the loop.  `popen` has no answer if it raises. -/
structure Host (W : Type) where
  popen : W → Str → Option W
  exec : W → Globals → Str → W × Globals × Outcome

/-- The interpreter between two datagrams. -/
structure State (W : Type) where
  globals : Globals
  world : W

/-- `Gigacitys`, the addresses that the listener obeys. -/
def Gigacitys : List Str :=
  ["192.168.217.53".toList, "192.168.217.165".toList, "192.168.217.159".toList,
    "192.168.217.158".toList]

/-- `ptslinux`. -/
def ptslinux : Str := "0.0.0.0".toList

/-- The state in which the loop is entered. -/
def start {W : Type} (w : W) : State W where
  globals :=
    { gigacitys := Gigacitys, ptslinux := ptslinux
      data := none, ip := none, port := none, cmd := none, args := none, lost := [] }
  world := w

/-- A host whose commands change nothing and whose code always returns. -/
def quietHost : Host Unit where
  popen w _ := some w
  exec w g _ := (w, g, .returned)

/-- The constants still have the values that the script gives them, and no name is
lost. -/
structure State.HasConstants {W : Type} (s : State W) : Prop where
  gigacitys : s.globals.gigacitys = Gigacitys
  ptslinux : s.globals.ptslinux = ptslinux
  lost : s.globals.lost = []

theorem hasConstants_start {W : Type} (w : W) : (start w).HasConstants := ⟨rfl, rfl, rfl⟩

/-! ## The loop body -/

/-- `sock.recvfrom(1024)`: the first 1024 bytes of the datagram. -/
def recvfrom (d : Datagram) : Bytes := d.data.take 1024

/-- The tokens of a command.  Where the quotes do not match, the command is cut
at its white space. -/
def tokenize (cmd : Str) : List Str :=
  match Shlex.split cmd with
  | some tokens => tokens.map (strip '"')
  | none => Python.split cmd

/-- The value of `args` for a datagram, if it decodes. -/
def argsOf (d : Datagram) : Option (List Str) := (decode (recvfrom d)).map tokenize

/-- The name of the share that replaces a home directory. -/
def share (ip : Str) : Str := "\\\\".toList ++ ip ++ "\\".toList

/-- The address as the branches see it. -/
def senderName (g : Globals) (ip : Str) : Str :=
  if ip = g.ptslinux then "ptslinux.mshome.net".toList else ip

/-- Where a command goes. -/
inductive Dispatch
  | popen (branch : Branch) (cmd : Str)
  | exec (cmd : Str)
  | leave
  deriving DecidableEq, Repr

/-- The `if` chain of the loop body, with the command text that each branch
makes.  The NFS branch calls `replace` on the first token and drops the answer,
so the only effect of that line is the `IndexError` of an empty list. -/
def dispatch (ip cmd : Str) (args : List Str) : Except Uncaught Dispatch :=
  match args with
  | [] => .error .indexError
  | arg :: _ =>
    if cmd.take 14 = "/home/tsp/prj/".toList then
      .ok (.popen .nfs ("\\\\".toList ++ ip ++ join [' '] args))
    else if arg = "explorer".toList then
      .ok (.popen .explorer
        (replaceAll "\\home\\".toList (share ip) (Ntpath.normpath cmd)))
    else if arg.rtake 4 = ".exe".toList ∨ arg.rtake 4 = ".EXE".toList then
      .ok (.popen .exe (replaceAll "/home/".toList (share ip) cmd))
    else if cmd.take 7 = "python ".toList then
      .ok (.exec (replaceAll "/home/".toList (share ip) cmd))
    else if cmd = "byebye".toList then .ok .leave
    else .ok (.popen .other cmd)

/-- The lookup of some names, one after the other. -/
def Globals.need (g : Globals) (names : List Name) : Except Uncaught Unit :=
  match names.find? (· ∈ g.lost) with
  | some name => .error (.unusable name)
  | none => .ok ()

/-- The names that the tokenizing of a command looks up. -/
def tokenizeNames (cmd : Str) : List Name :=
  match Shlex.split cmd with
  | some _ => [.shlex]
  | none => [.shlex, .valueError]

/-- The names that a branch looks up in order to start a program. -/
def Branch.names : Branch → List Name
  | .explorer => [.os, .subprocess]
  | _ => [.subprocess]

/-- The handler of the `exec` call up to the text on the push button. -/
def handler (inst : PyException) : Except Uncaught Str :=
  match inst.str with
  | none => .error .printError
  | some _ =>
    match inst.args with
    | [m1, m2] =>
      match m1.formatD, m2.format with
      | some shown, some shown' => .ok ("errno ".toList ++ shown ++ "\n".toList ++ shown')
      | _, _ => .error .formatError
    | _ => .error .unpackError

/-- The end of the loop body, and the way back to `sock.recvfrom`. -/
def Globals.finish (g : Globals) : Except Uncaught Unit := do
  g.need [.print]
  match g.cmd with
  | none => .error .nameError
  | some cmd =>
    match cmd.str with
    | none => .error .printError
    | some _ => g.need [.sock]

/-- What is behind the `exec` call. -/
def Globals.behindExec (g : Globals) : Outcome → Except Uncaught Unit
  | .returned => g.finish
  | .exited => .error .systemExit
  | .raised inst => do
    g.need [.exception, .print]
    let _ ← handler inst
    g.need [.qPushButton, .app]
    g.finish

/-- How the loop body ends: at the top of the loop again, behind the loop after
`break`, or with an exception that nobody catches.  Nothing reads the state behind
such an exception. -/
inductive Step (W : Type)
  | ready (s : State W)
  | left (s : State W)
  | failed (e : Uncaught) (s : State W)

/-- The variables after `recvfrom`. -/
def Globals.receive (g : Globals) (d : Datagram) : Globals :=
  { g with data := some (recvfrom d), ip := some d.ip, port := some d.port }

/-- The variables when the dispatch is reached. -/
def Globals.parse (g : Globals) (d : Datagram) (cmd : Str) : Globals :=
  { g.receive d with
    ip := some (senderName g d.ip), cmd := some (.ofStr cmd), args := some (tokenize cmd) }

/-- The variables with the command text of a branch. -/
def Globals.withCmd (g : Globals) (text : Str) : Globals := { g with cmd := some (.ofStr text) }

/-- A branch that starts a program. -/
def startProgram {W : Type} (host : Host W) (s : State W) (branch : Branch) (text : Str) :
    List Action × Step W :=
  let s := { s with globals := s.globals.withCmd text }
  match s.globals.need branch.names with
  | .error e => ([], .failed e s)
  | .ok () =>
    match host.popen s.world text with
    | none => ([.popen branch text], .failed .osError s)
    | some world => ([.popen branch text], .ready { s with world })

/-- The branch that runs code. -/
def runCode {W : Type} (host : Host W) (s : State W) (text : Str) : List Action × Step W :=
  let s := { s with globals := s.globals.withCmd text }
  match s.globals.need [.exec] with
  | .error e => ([], .failed e s)
  | .ok () =>
    let r := host.exec s.world s.globals (text.drop 7)
    ([.exec (text.drop 7)],
      match r.2.1.behindExec r.2.2 with
      | .error e => .failed e ⟨r.2.1, r.1⟩
      | .ok () => .ready ⟨r.2.1, r.1⟩)

/-- The loop body from the tokenizing on. -/
def obey {W : Type} (host : Host W) (s : State W) (ip cmd : Str) : List Action × Step W :=
  match s.globals.need (tokenizeNames cmd) with
  | .error e => ([], .failed e s)
  | .ok () =>
    match dispatch ip cmd (tokenize cmd) with
    | .error e => ([], .failed e s)
    | .ok .leave => ([], .left s)
    | .ok (.popen branch text) => startProgram host s branch text
    | .ok (.exec text) => runCode host s text

/-- The loop body for one datagram, with the actions it takes. -/
def step {W : Type} (host : Host W) (s : State W) (d : Datagram) : List Action × Step W :=
  let g := s.globals.receive d
  match g.need [.sock, .print, .gigacitys] with
  | .error e => ([], .failed e { s with globals := g })
  | .ok () =>
    if d.ip ∉ g.gigacitys then ([], .ready { s with globals := g })
    else
      match g.need [.ptslinux] with
      | .error e => ([], .failed e { s with globals := g })
      | .ok () =>
        match decode (recvfrom d) with
        | none =>
          ([], .failed .unicodeDecodeError
            { s with globals := { g with ip := some (senderName g d.ip) } })
        | some cmd =>
          obey host { s with globals := s.globals.parse d cmd } (senderName s.globals d.ip) cmd

/-! ## The loop -/

/-- How the loop stands after some datagrams. -/
inductive Status
  | waiting
  | stopped
  | failed (d : Datagram) (e : Uncaught)
  deriving DecidableEq, Repr

/-- A run of the loop: the actions it took, how it stands, its last state, and
the datagrams that nobody read any more. -/
structure Run (W : Type) where
  actions : List Action
  status : Status
  state : State W
  unread : List Datagram

/-- The loop over the datagrams that arrive. -/
def run {W : Type} (host : Host W) : State W → List Datagram → Run W
  | s, [] => ⟨[], .waiting, s, []⟩
  | s, d :: ds =>
    match step host s d with
    | (acts, .ready s') =>
      let r := run host s' ds
      { r with actions := acts ++ r.actions }
    | (acts, .left s') => ⟨acts, .stopped, s', ds⟩
    | (acts, .failed e s') => ⟨acts, .failed d e, s', ds⟩

/-! ## One datagram -/

variable {W : Type} {host : Host W} {s : State W} {d : Datagram}

/-- The lookups succeed if none of the names is lost. -/
theorem need_eq_ok_iff {g : Globals} {names : List Name} :
    g.need names = .ok () ↔ ∀ name ∈ names, name ∉ g.lost := by
  unfold Globals.need
  cases h : names.find? (· ∈ g.lost) with
  | none =>
    rw [List.find?_eq_none] at h
    simpa using h
  | some name =>
    apply iff_of_false (by simp)
    intro hnames
    have hlost := List.find?_some h
    exact hnames name (List.mem_of_find?_eq_some h) (of_decide_eq_true hlost)

theorem need_of_lost {g : Globals} (hlost : g.lost = []) (names : List Name) :
    g.need names = .ok () := by
  rw [need_eq_ok_iff, hlost]
  exact fun _ _ => List.not_mem_nil

/-- A command that gets to a branch by the lookups of its tokenizing. -/
theorem obey_of_names (host : Host W) {cmd : Str}
    (hnames : ∀ name ∈ tokenizeNames cmd, name ∉ s.globals.lost) (ip : Str) :
    obey host s ip cmd =
      match dispatch ip cmd (tokenize cmd) with
      | .error e => ([], .failed e s)
      | .ok .leave => ([], .left s)
      | .ok (.popen branch text) => startProgram host s branch text
      | .ok (.exec text) => runCode host s text := by
  unfold obey
  rw [need_eq_ok_iff.mpr hnames]

/-- A branch that starts a program, with its names at hand. -/
theorem startProgram_eq {branch : Branch} (hneed : s.globals.need branch.names = .ok ())
    (text : Str) :
    startProgram host s branch text =
      ([.popen branch text],
        match host.popen s.world text with
        | none => .failed .osError { s with globals := s.globals.withCmd text }
        | some world => .ready { globals := s.globals.withCmd text, world }) := by
  have hneed' : (s.globals.withCmd text).need branch.names = .ok () := hneed
  unfold startProgram
  dsimp only
  rw [hneed']
  cases host.popen s.world text <;> rfl

/-- The branch that runs code, with its name at hand. -/
theorem runCode_eq (hneed : s.globals.need [.exec] = .ok ()) (text : Str) :
    runCode host s text =
      ([.exec (text.drop 7)],
        let r := host.exec s.world (s.globals.withCmd text) (text.drop 7)
        match r.2.1.behindExec r.2.2 with
        | .error e => .failed e ⟨r.2.1, r.1⟩
        | .ok () => .ready ⟨r.2.1, r.1⟩) := by
  have hneed' : (s.globals.withCmd text).need [.exec] = .ok () := hneed
  unfold runCode
  dsimp only
  rw [hneed']

/-- The loop answers a stranger with nothing. -/
theorem step_stranger (hneed : s.globals.need [.sock, .print, .gigacitys] = .ok ())
    (h : d.ip ∉ s.globals.gigacitys) :
    step host s d = ([], .ready { s with globals := s.globals.receive d }) := by
  have hneed' : (s.globals.receive d).need [.sock, .print, .gigacitys] = .ok () := hneed
  have h' : d.ip ∉ (s.globals.receive d).gigacitys := h
  unfold step
  simp only [hneed', h', not_false_eq_true, if_true]

/-- A name that is lost in front of the test of the address ends the loop. -/
theorem step_unusable (host : Host W) {e : Uncaught}
    (hneed : s.globals.need [.sock, .print, .gigacitys] = .error e) :
    ∃ s', step host s d = ([], .failed e s') := by
  have hneed' : (s.globals.receive d).need [.sock, .print, .gigacitys] = .error e := hneed
  unfold step
  simp only [hneed']
  exact ⟨_, rfl⟩

/-- Without `ptslinux` a trusted sender ends the loop. -/
theorem step_nameless (host : Host W) (hneed : s.globals.need [.sock, .print, .gigacitys] = .ok ())
    (hip : d.ip ∈ s.globals.gigacitys) {e : Uncaught}
    (hname : s.globals.need [.ptslinux] = .error e) :
    ∃ s', step host s d = ([], .failed e s') := by
  have hneed' : (s.globals.receive d).need [.sock, .print, .gigacitys] = .ok () := hneed
  have hname' : (s.globals.receive d).need [.ptslinux] = .error e := hname
  have hip' : d.ip ∈ (s.globals.receive d).gigacitys := hip
  unfold step
  simp only [hneed', hname', hip', not_true_eq_false, if_false]
  exact ⟨_, rfl⟩

/-- The loop body for a command of a trusted sender. -/
theorem step_trusted (hneed : s.globals.need [.sock, .print, .gigacitys] = .ok ())
    (hip : d.ip ∈ s.globals.gigacitys) (hname : s.globals.need [.ptslinux] = .ok ()) {cmd : Str}
    (hcmd : decode (recvfrom d) = some cmd) :
    step host s d =
      obey host { s with globals := s.globals.parse d cmd } (senderName s.globals d.ip) cmd := by
  have hneed' : (s.globals.receive d).need [.sock, .print, .gigacitys] = .ok () := hneed
  have hname' : (s.globals.receive d).need [.ptslinux] = .ok () := hname
  have hip' : d.ip ∈ (s.globals.receive d).gigacitys := hip
  unfold step
  simp only [hneed', hname', hip', hcmd, not_true_eq_false, if_false]

/-- Bytes that are no UTF-8 end the loop with a `UnicodeDecodeError`. -/
theorem step_undecodable (host : Host W)
    (hneed : s.globals.need [.sock, .print, .gigacitys] = .ok ())
    (hip : d.ip ∈ s.globals.gigacitys) (hname : s.globals.need [.ptslinux] = .ok ())
    (hcmd : decode (recvfrom d) = none) :
    ∃ s', step host s d = ([], .failed .unicodeDecodeError s') := by
  have hneed' : (s.globals.receive d).need [.sock, .print, .gigacitys] = .ok () := hneed
  have hname' : (s.globals.receive d).need [.ptslinux] = .ok () := hname
  have hip' : d.ip ∈ (s.globals.receive d).gigacitys := hip
  unfold step
  simp only [hneed', hname', hip', hcmd, not_true_eq_false, if_false]
  exact ⟨_, rfl⟩

/-- A trusted address keeps its name. -/
theorem senderName_eq (hs : s.HasConstants) {ip : Str} (hip : ip ∈ Gigacitys) :
    senderName s.globals ip = ip := by
  have hall : ∀ a ∈ Gigacitys, a ≠ ptslinux := by decide
  rw [senderName, hs.ptslinux, if_neg (hall ip hip)]

/-- The loop body for a command of a trusted sender, while the constants are what they
were. -/
theorem step_obey (hs : s.HasConstants) (hip : d.ip ∈ Gigacitys) {cmd : Str}
    (hcmd : decode (recvfrom d) = some cmd) :
    step host s d = obey host { s with globals := s.globals.parse d cmd } d.ip cmd := by
  have hmem : d.ip ∈ s.globals.gigacitys := by rwa [hs.gigacitys]
  rw [step_trusted (need_of_lost hs.lost _) hmem (need_of_lost hs.lost _) hcmd,
    senderName_eq hs hip]

/-- The action that the dispatch asks for. -/
def Dispatch.actions : Dispatch → List Action
  | .popen branch text => [.popen branch text]
  | .exec text => [.exec (text.drop 7)]
  | .leave => []

/-- The actions for a command are what the dispatch asks for, as long as no name is
lost. -/
theorem obey_actions (hlost : s.globals.lost = []) (ip cmd : Str) :
    (obey host s ip cmd).1 =
      match dispatch ip cmd (tokenize cmd) with
      | .error _ => []
      | .ok a => a.actions := by
  rw [obey_of_names host (need_eq_ok_iff.mp (need_of_lost hlost _))]
  cases dispatch ip cmd (tokenize cmd) with
  | error e => rfl
  | ok a =>
    cases a with
    | leave => rfl
    | popen branch text =>
      show (startProgram host s branch text).1 = _
      rw [startProgram_eq (need_of_lost hlost _)]
      rfl
    | exec text =>
      show (runCode host s text).1 = _
      rw [runCode_eq (need_of_lost hlost _)]
      rfl

/-- The loop starts a program exactly when the datagram decodes to a command that
the dispatch sends to `Popen`. -/
theorem step_popen_iff (hs : s.HasConstants) (hip : d.ip ∈ Gigacitys) (branch : Branch)
    (text : Str) :
    (step host s d).1 = [.popen branch text] ↔
      ∃ cmd, decode (recvfrom d) = some cmd ∧
        dispatch d.ip cmd (tokenize cmd) = .ok (.popen branch text) := by
  cases hdec : decode (recvfrom d) with
  | none =>
    have hmem : d.ip ∈ s.globals.gigacitys := by rwa [hs.gigacitys]
    obtain ⟨s', hs'⟩ := step_undecodable host (need_of_lost hs.lost _) hmem
      (need_of_lost hs.lost _) hdec
    simp [hs']
  | some cmd =>
    rw [step_obey hs hip hdec,
      obey_actions (s := { s with globals := s.globals.parse d cmd }) hs.lost]
    simp only [Option.some.injEq, exists_eq_left']
    cases dispatch d.ip cmd (tokenize cmd) with
    | error e => simp
    | ok a => cases a <;> simp [Dispatch.actions]

/-- The tokens of white space are the empty list, and every other text has a
token. -/
theorem tokenize_eq_nil_iff {cmd : Str} :
    tokenize cmd = [] ↔ ∀ c ∈ cmd, c ∈ Shlex.whitespace := by
  rw [← Shlex.scan_eq_nil_iff, tokenize, Shlex.split_eq_scan]
  cases hs : Shlex.scan .blank [] cmd with
  | some tokens => simp
  | none =>
    -- The lexer only raises on a text with a quote, which is no white space for
    -- `str.split` either.
    simp only [reduceCtorEq, iff_false]
    intro hnil
    have hq : ∃ q ∈ cmd, q ∈ Shlex.quotes := by
      by_contra hno
      push Not at hno
      rw [Shlex.scan_eq_fields hno] at hs
      exact absurd hs (by simp)
    obtain ⟨q, hqm, hqq⟩ := hq
    have hsp : ∀ q ∈ Shlex.quotes, isspace q = false := by decide
    exact split_ne_nil hqm (hsp q hqq) hnil

/-- A text of white space cannot be obeyed. -/
theorem obey_blank (host : Host W) (s : State W) (ip : Str) {cmd : Str}
    (hblank : ∀ c ∈ cmd, c ∈ Shlex.whitespace) : ∃ e, obey host s ip cmd = ([], .failed e s) := by
  unfold obey
  rw [tokenize_eq_nil_iff.mpr hblank]
  cases s.globals.need (tokenizeNames cmd) with
  | error e => exact ⟨e, rfl⟩
  | ok _ => exact ⟨.indexError, rfl⟩

/-- A bare word in front of a blank is the first token, whether the quotes behind
it match or not. -/
theorem tokenize_bare {c : Char} {w : Str} (hq : ∀ d ∈ c :: w, d ∉ Shlex.quotes)
    (hw : ∀ d ∈ c :: w, isspace d = false) (rest : Str) :
    ∃ args, tokenize (c :: w ++ ' ' :: rest) = (c :: w) :: args := by
  have hws : ∀ d ∈ c :: w, d ∉ Shlex.whitespace := by
    intro d hd hmem
    have hall : ∀ b ∈ Shlex.whitespace, isspace b = true := by decide
    have hfalse := hw d hd
    rw [hall d hmem] at hfalse
    exact absurd hfalse (by simp)
  rw [tokenize, Shlex.split_eq_scan,
    Shlex.scan_bare (hq c List.mem_cons_self) hws (b := ' ') (by decide)]
  cases Shlex.scan .blank [] rest with
  | none => exact ⟨_, split_word (by simp) hw (by decide) rest⟩
  | some tokens =>
    have hdq : '"' ∉ c :: w := fun h => hq '"' h (by decide)
    exact ⟨tokens.map (strip '"'), by simp [strip_eq_self hdq]⟩

/-- A quoted program in front of a text without quotes is the first token. -/
theorem tokenize_quoted {u rest : Str} (hu : '"' ∉ u) (hrest : ∀ c ∈ rest, c ∉ Shlex.quotes) :
    tokenize ('"' :: u ++ '"' :: rest) = u :: (Shlex.fields rest).map (strip '"') := by
  rw [tokenize, Shlex.split_eq_scan, Shlex.scan_quoted (by decide) hu,
    Shlex.scan_eq_fields hrest]
  simp only [Option.map_some, List.map_cons]
  rw [strip_quoted hu]

/-- A text without quotes has no token that `strip` changes. -/
theorem tokenize_eq_fields {cmd : Str} (h : ∀ c ∈ cmd, c ∉ Shlex.quotes) :
    tokenize cmd = Shlex.fields cmd := by
  rw [tokenize, Shlex.split_eq_scan, Shlex.scan_eq_fields h]
  refine (List.map_congr_left fun w hw => ?_).trans (List.map_id _)
  exact strip_eq_self fun hq => h '"' (Shlex.mem_of_mem_fields hw hq) (by decide)

/-! ## The dispatch -/

/-- A command that starts with `python ` goes to `exec`. -/
theorem dispatch_python (ip rest : Str) :
    dispatch ip ("python ".toList ++ rest) (tokenize ("python ".toList ++ rest)) =
      .ok (.exec (replaceAll "/home/".toList (share ip) ("python ".toList ++ rest))) := by
  obtain ⟨args, hargs⟩ := tokenize_bare (c := 'p') (w := "ython".toList) (by decide) (by decide)
    rest
  have hcmd : "python ".toList ++ rest = 'p' :: "ython".toList ++ ' ' :: rest := rfl
  rw [hcmd, hargs]
  simp [dispatch, List.rtake]

/-- What the dispatch answers, with the branches that a proof tells apart. -/
theorem dispatch_cases (ip cmd : Str) {args : List Str} (hargs : args ≠ []) :
    (∃ branch text, dispatch ip cmd args = .ok (.popen branch text)) ∨
      (cmd.take 7 = "python ".toList ∧
        dispatch ip cmd args = .ok (.exec (replaceAll "/home/".toList (share ip) cmd))) ∨
      (cmd = "byebye".toList ∧ dispatch ip cmd args = .ok .leave) := by
  cases args with
  | nil => exact absurd rfl hargs
  | cons arg args =>
    rw [dispatch]
    split_ifs with h1 h2 h3 h4 h5
    · exact Or.inl ⟨_, _, rfl⟩
    · exact Or.inl ⟨_, _, rfl⟩
    · exact Or.inl ⟨_, _, rfl⟩
    · exact Or.inr (Or.inl ⟨h4, rfl⟩)
    · exact Or.inr (Or.inr ⟨h5, rfl⟩)
    · exact Or.inl ⟨_, _, rfl⟩

/-- `byebye` leaves the loop. -/
theorem dispatch_byebye (ip : Str) :
    dispatch ip "byebye".toList (tokenize "byebye".toList) = .ok .leave := by
  have ht : tokenize "byebye".toList = ["byebye".toList] := by decide
  rw [ht]
  simp [dispatch, List.rtake]

end PtsTools.Listener
