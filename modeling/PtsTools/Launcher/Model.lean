import Mathlib.Data.List.Basic

/-!
# The launchers `w.sh` and `x-skip-autoip-Sadp-etc`

Both scripts start the console program of a device, under a debugger or without
one.  They look at the first argument to find the debugger or the target, and then
drop the option words from all arguments and append the rest to `Args`.

The second script is a copy of the first.  It knows one more SoC, its `gdbserver`
depends on the SoC, and it ends in `2| grep`, which is the argument `2` and a pipe.
`launch` is what they share.

What the scripts read from `/proc` and from the sourced files is a `Device`.  The
variables `Args` and `Gdb` are not set before.  The environment of the debugger,
the version and what is printed are left out.
-/

namespace PtsTools.Launcher

/-- A text of the shell. -/
abbrev Text := List Char

/-! ## The device -/

/-- `/wgi_sys_vars_definition`, as far as the scripts read it. -/
structure Definitions where
  socType : Text
  socType3531 : Text
  socType3521 : Text
  socType3520DV300 : Text
  socType3521A : Text
  socType3531A : Text
  socType3536 : Text
  socType3536C : Text
  socType3521D : Text
  socType3520DV400 : Text
  socType3531D : Text
  socType3516CV300 : Text

/-- What the scripts read besides their arguments. -/
structure Device extends Definitions where
  /-- `console_fb_dev_num` -/
  fbNo : Nat
  /-- `virtual_fb_dev_num` -/
  vfbNo : Nat
  /-- the `1080` or `2160` of `/proc/umap/vo` -/
  height : Text
  /-- `/proc/wgi_sys_vars/soc_type` -/
  socTypeNo : Nat
  /-- `video_ch_cnt` -/
  chCnt : Text
  /-- `Myprj` -/
  myprj : Text

/-- `Last_hi`. -/
def lastHi : Nat := 11

/-- The letters of the SoCs, in the order of the tests. -/
def soctypes (d : Definitions) : List (Text × Char) :=
  [(d.socType3531, 'a'), (d.socType3521, 'b'), (d.socType3520DV300, 'c'), (d.socType3521A, 'c'),
    (d.socType3531A, 'd'), (d.socType3536, 'e'), (d.socType3536C, 'f'), (d.socType3521D, 'g'),
    (d.socType3520DV400, 'g'), (d.socType3531D, 'h'), (d.socType3516CV300, 'i'),
    ("14".toList, 'k')]

/-- The letter of the first test that succeeds. -/
def firstLetter (table : List (Text × Char)) (socType : Text) : Option Char :=
  (table.find? (·.1 = socType)).map (·.2)

/-- The display options that are appended to `Args`. -/
def displayOptions (dev : Device) : Text :=
  let wide := 0 < dev.vfbNo ∧ dev.height = "2160".toList
  let fbNo := (toString (if wide then dev.vfbNo else dev.fbNo)).toList
  let wgiVfb := if wide then "wgi_vfb".toList else []
  let hdmi4kOption := if wide then "--hdmi4k".toList else []
  if dev.socTypeNo ≤ lastHi then
    " ".toList ++ hdmi4kOption ++ " -qws -display linuxfb:/dev/fb".toList ++ fbNo ++ ":".toList ++
      wgiVfb ++ (":size=1920x1080:qws_size=1920x1080:depth=32:mmWidth:480:mmHeight=270 " ++
        "-font /usr/lib/qt/lib/fonts/arial.ttf").toList
  else
    " -qws -display linuxfb:/dev/fb".toList ++ fbNo ++ ":mmWidth=480:mmHeight=270".toList

/-! ## The arguments -/

/-- The options that name a debugger. -/
inductive Debugger
  | gdb
  | callgrind
  | valgrind
  deriving DecidableEq, Repr

/-- The option of a debugger. -/
def Debugger.word : Debugger → Text
  | .gdb => "--gdb".toList
  | .callgrind => "--callgrind".toList
  | .valgrind => "--valgrind".toList

/-- `--target` -/
def target : Text := "--target".toList

/-- The value of `Gdb` for a debugger. -/
def Debugger.command (gdbserver : Text) : Debugger → Text
  | .gdb => gdbserver
  | .callgrind => "./valgrind --tool=callgrind".toList
  | .valgrind => "./valgrind".toList

/-- The tests on the first argument: `Gdb` and `Targetid`. -/
def recognise (gdbserver targetid : Text) (args : List Text) : Text × Text :=
  let arg1 := args.getD 0 []
  let arg2 := args.getD 1 []
  if arg1 ≠ [] ∧ arg1 = Debugger.gdb.word then (Debugger.gdb.command gdbserver, targetid)
  else if arg1 ≠ [] ∧ arg1 = Debugger.callgrind.word then
    (Debugger.callgrind.command gdbserver, targetid)
  else if arg1 ≠ [] ∧ arg1 = Debugger.valgrind.word then
    (Debugger.valgrind.command gdbserver, targetid)
  else if arg1 ≠ [] ∧ arg1 = target then ([], arg2)
  else ([], targetid)

/-- The tests on an argument in the loop. -/
def keeps (var : Text) : Bool :=
  var ≠ Debugger.gdb.word && var ≠ Debugger.callgrind.word && var ≠ Debugger.valgrind.word &&
    var ≠ target

/-- `Args` after the loop. -/
def filterLoop (args : List Text) : Text :=
  args.foldl (fun acc var => if keeps var then acc ++ ' ' :: var else acc) []

/-! ## The scripts -/

/-- What a script starts. -/
structure Launch where
  gdb : Text
  targetid : Text
  args : Text
  fullname : Text
  /-- the words behind `$Gdb $Fullname $Args` -/
  last : Text
  deriving DecidableEq, Repr

/-- `Targetid` before the tests. -/
def defaultTarget (dev : Device) (letter : Char) : Text :=
  "hs".toList ++ dev.chCnt ++ [letter]

/-- `Fullname`. -/
def fullname (dev : Device) (arg0 targetid : Text) : Text :=
  "../".toList ++ dev.myprj ++
    (if (arg0.drop 2).take 2 = "br".toList then
      "/console/qt/examples/qws/console/project_linux/".toList
    else "/console/src/console/project_linux/".toList) ++ targetid ++ "/".toList ++ targetid

/-- The scripts from the tests on the first argument on. -/
def launch (gdbserver last : Text) (dev : Device) (letter : Char) (arg0 : Text)
    (args : List Text) : Launch :=
  let (gdb, targetid) := recognise gdbserver (defaultTarget dev letter) args
  { gdb := gdb
    targetid := targetid
    args := filterLoop args ++ displayOptions dev
    fullname := fullname dev arg0 targetid
    last := last }

/-- A launcher: the letter of the SoC, `gdbserver`, and the words at the end. -/
structure Script where
  soctype : Device → Option Char
  gdbserver : Char → Text
  last : Text

/-- A run of a launcher, or `none` for `exit 1`. -/
def Script.run (s : Script) (dev : Device) (arg0 : Text) (args : List Text) : Option Launch :=
  (s.soctype dev).map fun letter => launch (s.gdbserver letter) s.last dev letter arg0 args

/-- `w.sh`. -/
def wSh : Script where
  soctype dev := firstLetter (soctypes dev.toDefinitions) dev.socType
  gdbserver _ := "./gdbserver.hi --once :10000".toList
  last := "--runlevel0".toList

/-- `Postfix`. -/
def postfixOf (letter : Char) : Text :=
  if letter = 'k' then "ca9".toList else if letter = 'l' then "ca53".toList else []

/-- `x-skip-autoip-Sadp-etc`. -/
def xSkipAutoipSadpEtc : Script where
  soctype dev := firstLetter (soctypes dev.toDefinitions ++ [("15".toList, 'l')]) dev.socType
  gdbserver letter := "./gdbserver.".toList ++ postfixOf letter ++ " --once :10000".toList
  last := "--runlevel0 2".toList

end PtsTools.Launcher
