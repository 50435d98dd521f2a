import PtsTools.Wire.Receive

/-!
# What becomes of an opened file

`e.py` and `ee.py` send a program and a path.  A quoted program whose name ends
in `.exe` takes the listener into the branch that replaces `/home/` by the share
of the sender.  `ExeOpener` collects what that needs of the text in front of the
path, and `exe_popen_iff` says when the program is started with exactly the
share in place of the leading `/home/`.

Without the name `e` the client sends `notepad` and the path, and the listener
starts that as it is.  `e_popen_iff` puts the two modes together.
-/

namespace PtsTools.Wire

open PtsTools.Python PtsTools.Clients PtsTools.Listener
open PtsTools.Lib.Replace

variable {W : Type} {host : Host W} {s : State W}

/-- The home directory at the front of a path, as the branches look for it. -/
def home : Str := "/home/".toList

/-- A text in front of a path that takes the listener into the `.exe` branch: a
quoted program and some text without quotes, in which no `/home/` starts. -/
structure ExeOpener (before exe mid : Str) : Prop where
  eq : before = '"' :: exe ++ '"' :: mid
  noQuote : '"' ∉ exe
  isExe : exe.rtake 4 = ".exe".toList ∨ exe.rtake 4 = ".EXE".toList
  plain : ∀ c ∈ mid, c ∉ Shlex.quotes
  clear : Clear home before
  short : (encode (before ++ home)).length ≤ 1024

instance ExeOpener.decidable (before exe mid : Str) : Decidable (ExeOpener before exe mid) :=
  decidable_of_iff
    (before = '"' :: exe ++ '"' :: mid ∧ '"' ∉ exe ∧
      (exe.rtake 4 = ".exe".toList ∨ exe.rtake 4 = ".EXE".toList) ∧
      (∀ c ∈ mid, c ∉ Shlex.quotes) ∧ Clear home before ∧
      (encode (before ++ home)).length ≤ 1024)
    ⟨fun ⟨h1, h2, h3, h4, h5, h6⟩ => ⟨h1, h2, h3, h4, h5, h6⟩,
      fun h => ⟨h.eq, h.noQuote, h.isExe, h.plain, h.clear, h.short⟩⟩

/-- Neither of `/home/` and the share of a sender starts with the other. -/
theorem home_share_incomparable (ip : Str) : ¬ home <+: share ip ∧ ¬ share ip <+: home := by
  have hhome : home = '/' :: "home/".toList := by decide
  have hshare : share ip = '\\' :: ("\\".toList ++ ip ++ "\\".toList) := rfl
  rw [hhome, hshare]
  constructor
  · intro h
    exact absurd (List.cons_prefix_cons.mp h).1 (by decide)
  · intro h
    exact absurd (List.cons_prefix_cons.mp h).1 (by decide)

/-- The `.exe` branch, on a quoted program and a path. -/
theorem dispatch_exe {before exe mid : Str} (ho : ExeOpener before exe mid) (ip : Str) {r : Str}
    (hr : ∀ c ∈ r, c ∉ Shlex.quotes) :
    dispatch ip (before ++ (home ++ r)) (tokenize (before ++ (home ++ r))) =
      .ok (.popen .exe (before ++ (share ip ++ replaceAll home (share ip) r))) := by
  have hrest : ∀ c ∈ mid ++ (home ++ r), c ∉ Shlex.quotes := by
    intro c hc
    rcases List.mem_append.mp hc with h | h
    · exact ho.plain c h
    · rcases List.mem_append.mp h with h | h
      · have hhome : ∀ c ∈ home, c ∉ Shlex.quotes := by decide
        exact hhome c h
      · exact hr c h
  have hcmd : before ++ (home ++ r) = '"' :: exe ++ '"' :: (mid ++ (home ++ r)) := by
    rw [ho.eq]
    simp
  have hnfs : ¬ (before ++ (home ++ r)).take 14 = "/home/tsp/prj/".toList := by
    rw [hcmd]
    simp
  have hexplorer : ¬ exe = "explorer".toList := by
    intro heq
    subst heq
    exact absurd ho.isExe (by decide)
  rw [← replaceAll_append_of_clear (by decide) (share ip) ho.clear r, hcmd,
    tokenize_quoted ho.noQuote hrest, ← hcmd, dispatch, if_neg hnfs, if_neg hexplorer,
    if_pos ho.isExe]
  rfl

/-- The program of an `.exe` command is started with the share in place of the
leading `/home/` and nothing else changed exactly when the path has no other
`/home/` in it and the command fits into the buffer. -/
theorem exe_popen_iff (host : Host W) (hs : s.HasConstants) {ip : Str}
    (hip : ip ∈ Gigacitys) (port : Nat) {before exe mid : Str} (ho : ExeOpener before exe mid)
    {r : Str} (hr : ∀ c ∈ r, c ∉ Shlex.quotes) (branch : Branch) :
    (step host s (datagram ip port (before ++ (home ++ r)))).1
        = [.popen branch (before ++ (share ip ++ r))] ↔
      branch = .exe ∧ ¬ home <:+: r ∧ (encode (before ++ (home ++ r))).length ≤ 1024 := by
  rw [step_popen_iff hs hip]
  obtain ⟨hhs, hsh⟩ := home_share_incomparable ip
  constructor
  · intro hcmd
    rcases hcmd with ⟨cmd, hdec, hdisp⟩
    rw [← List.append_assoc] at hdec
    obtain ⟨r', rfl, hr', hfit⟩ := decode_cut ho.short hdec
    rw [List.append_assoc, datagram] at hdisp
    rw [dispatch_exe ho ip fun c hc => hr c (hr'.subset hc)] at hdisp
    simp only [Except.ok.injEq, Dispatch.popen.injEq, List.append_cancel_left_eq] at hdisp
    obtain ⟨heq, hno⟩ := eq_of_replaceAll_eq hhs hsh hr' hdisp.2
    rw [List.append_assoc] at hfit
    exact ⟨hdisp.1.symm, heq ▸ hno, hfit.mp heq⟩
  · intro hright
    rcases hright with ⟨rfl, hno, hlen⟩
    refine ⟨_, decode_datagram _ hlen, ?_⟩
    rw [datagram, dispatch_exe ho ip hr, replaceAll_eq_self (share ip) hno]

/-! ## `e.py` -/

/-- The programs that `e.py` picks by extension. -/
def programs : List Str :=
  ["D:/Qt4/4.8.7/bin/designer.exe".toList, "D:/Qt4/4.8.7/bin/linguist.exe".toList,
    "C:/Program Files/Microsoft Office/root/Office16/WINWORD.EXE".toList,
    "C:/Program Files/Microsoft Office/root/Office16/EXCEL.EXE".toList,
    "C:/Program Files/Adobe/Acrobat DC/Acrobat/Acrobat.exe".toList,
    "C:/Program Files/Notepad++/Notepad++.exe".toList]

/-- Whatever the extension, the program is a quoted one of the list, with one or
two blanks behind it. -/
theorem program_cases (filename : Str) :
    ∃ exe ∈ programs, ∃ mid ∈ [" ".toList, "  ".toList],
      program filename ++ " ".toList = '"' :: exe ++ '"' :: mid := by
  rw [program]
  split_ifs
  · exact ⟨_, .head _, _, .tail _ (.head _), by decide +kernel⟩
  · exact ⟨_, .tail _ (.head _), _, .tail _ (.head _), by decide +kernel⟩
  · exact ⟨_, .tail _ (.tail _ (.head _)), _, .head _, by decide +kernel⟩
  · exact ⟨_, .tail _ (.tail _ (.tail _ (.head _))), _, .head _, by decide +kernel⟩
  · exact ⟨_, .tail _ (.tail _ (.tail _ (.tail _ (.head _)))), _, .head _, by decide +kernel⟩
  · exact ⟨_, .tail _ (.tail _ (.tail _ (.tail _ (.tail _ (.head _))))), _, .head _,
      by decide +kernel⟩

/-- Every program of `e.py` takes the listener into the `.exe` branch. -/
theorem exeOpener_program (filename : Str) :
    ∃ exe mid, ExeOpener (program filename ++ " ".toList) exe mid := by
  obtain ⟨exe, hexe, mid, hmid, heq⟩ := program_cases filename
  have hall : ∀ exe ∈ programs, ∀ mid ∈ [" ".toList, "  ".toList],
      ExeOpener ('"' :: exe ++ '"' :: mid) exe mid := by
    decide +kernel
  refine ⟨exe, mid, ?_⟩
  rw [heq]
  exact hall exe hexe mid hmid

/-- The two modes of `e.py` send their own text in front of the path. -/
theorem e_eq_send {env : Env} {argv0 : Str} {c : Char} {arg : Str} {more : List Str}
    {dst : Str} {payload : Bytes} (h : e env (argv0 :: (c :: arg) :: more) = .sendto dst payload) :
    payload = encode (openWith argv0 (c :: arg) ++ filePath env c (c :: arg)) := by
  rw [e] at h
  split_ifs at h
  exact (send_eq_sendto h).1

/-- The other branch starts a `notepad` command as it came, so no share appears
in it. -/
theorem not_notepad_popen (hs : s.HasConstants) {ip : Str} (hip : ip ∈ Gigacitys) (port : Nat)
    (r : Str) (branch : Branch) :
    (step host s (datagram ip port ("notepad ".toList ++ (home ++ r)))).1
      ≠ [.popen branch ("notepad ".toList ++ (share ip ++ r))] := by
  intro h
  obtain ⟨cmd, hdec, hdisp⟩ := (step_popen_iff hs hip branch _).mp h
  rw [← List.append_assoc] at hdec
  obtain ⟨r', rfl, _, _⟩ := decode_cut (by decide) hdec
  have hcmd : "notepad ".toList ++ home ++ r' = 'n' :: "otepad".toList ++ ' ' :: (home ++ r') := rfl
  obtain ⟨args, hargs⟩ := tokenize_bare (c := 'n') (w := "otepad".toList) (by decide) (by decide)
    (home ++ r')
  rw [hcmd, hargs] at hdisp
  have hnfs : ¬ ('n' :: "otepad".toList ++ ' ' :: (home ++ r')).take 14
      = "/home/tsp/prj/".toList := fun h => absurd (List.cons.inj h).1 (by decide)
  have hpython : ¬ ('n' :: "otepad".toList ++ ' ' :: (home ++ r')).take 7
      = "python ".toList := fun h => absurd (List.cons.inj h).1 (by decide)
  have hbye : ¬ 'n' :: "otepad".toList ++ ' ' :: (home ++ r') = "byebye".toList :=
    fun h => absurd (List.cons.inj h).1 (by decide)
  rw [dispatch, if_neg hnfs, if_neg (by decide), if_neg (by decide), if_neg hpython, if_neg hbye,
    Except.ok.injEq, Dispatch.popen.injEq, ← hcmd, List.append_assoc, List.append_cancel_left_eq]
    at hdisp
  -- The share starts with a backslash, the path with a slash.
  exact absurd (List.cons.inj hdisp.2).1 (by decide)

/-- `/home/` occurs behind the first component exactly when a component other
than the last one is `home`. -/
theorem home_infix_iff (r : Str) :
    home <:+: r ↔ "home".toList ∈ (r.splitOn '/').tail.dropLast := by
  obtain ⟨c, cs, hcs⟩ := List.exists_cons_of_ne_nil (List.splitOn_ne_nil '/' r)
  have hsep : ∀ d ∈ c :: cs, '/' ∉ d := by
    intro d hd hmem
    rw [← hcs, List.splitOn_eq_splitOnP] at hd
    have := (of_mem_piece hd hmem).2
    simp at this
  have hr : r = c ++ segments '/' cs := by
    rw [← intercalate_cons, ← hcs, List.intercalate_splitOn]
  rw [hcs, List.tail_cons, hr]
  have hhome : home = '/' :: "home".toList ++ ['/'] := by decide
  rw [hhome, List.cons_append, infix_append_of_notMem (hsep c List.mem_cons_self),
    ← List.cons_append, infix_segments_iff (by decide)
      (fun d hd => hsep d (List.mem_cons_of_mem c hd))]

/-- A file that `e.py` opens reaches the Windows side with the share in place of
the leading `/home/` exactly when the script is called `e` and the command fits
into the buffer of the listener. -/
theorem e_popen_iff (host : Host W) (s : State W) (hs : s.HasConstants) (env : Env)
    (argv0 : Str) (c : Char) (arg : Str) (more : List Str) (src dst : Str) (port : Nat)
    (payload : Bytes) (r : Str) (hsrc : src ∈ Gigacitys)
    (hsent : e env (argv0 :: (c :: arg) :: more) = .sendto dst payload)
    (hpath : filePath env c (c :: arg) = home ++ r) (hhome : "home".toList ∉ r.splitOn '/')
    (hr : ∀ ch ∈ r, isspace ch = false ∧ ch ∉ Shlex.quotes) :
    (∃ branch, (step host s ⟨src, port, payload⟩).1
        = [.popen branch (openWith argv0 (c :: arg) ++ (share src ++ r))]) ↔
      basename argv0 = "e".toList ∧ payload.length ≤ 1024 := by
  have hpayload := e_eq_send hsent
  rw [hpath] at hpayload
  have hno : ¬ home <:+: r := by
    rw [home_infix_iff]
    exact fun h => hhome (List.mem_of_mem_tail (List.mem_of_mem_dropLast h))
  by_cases hname : basename argv0 = "e".toList
  · obtain ⟨exe, mid, ho⟩ := exeOpener_program (basename (c :: arg))
    have hopen : openWith argv0 (c :: arg) = program (basename (c :: arg)) ++ " ".toList := by
      rw [openWith, if_pos hname]
    rw [hopen] at hpayload ⊢
    have hiff := exe_popen_iff host hs hsrc port ho fun ch hc => (hr ch hc).2
    rw [datagram, ← hpayload] at hiff
    constructor
    · intro hpopen
      rcases hpopen with ⟨branch, h⟩
      exact ⟨hname, ((hiff branch).mp h).2.2⟩
    · intro hright
      rcases hright with ⟨_, hlen⟩
      exact ⟨.exe, (hiff .exe).mpr ⟨rfl, hno, hlen⟩⟩
  · have hopen : openWith argv0 (c :: arg) = "notepad ".toList := by
      rw [openWith, if_neg hname]
    rw [hopen] at hpayload ⊢
    refine iff_of_false ?_ (fun h => hname h.1)
    intro hpopen
    rcases hpopen with ⟨branch, h⟩
    rw [hpayload] at h
    exact not_notepad_popen hs hsrc port r branch h

/-- `e /home/tsp/a.txt` reaches the share. -/
theorem e_popen_text :
    ∃ branch, (step quietHost (start ())
        ⟨"192.168.217.53".toList, 50000,
          encode "\"C:/Program Files/Notepad++/Notepad++.exe\" /home/tsp/a.txt".toList⟩).1
      = [.popen branch (openWith "/usr/bin/e".toList "/home/tsp/a.txt".toList
          ++ (share "192.168.217.53".toList ++ "tsp/a.txt".toList))] :=
  (e_popen_iff quietHost (start ()) (hasConstants_start ()) (session "/home/tsp".toList)
    "/usr/bin/e".toList '/' "home/tsp/a.txt".toList [] "192.168.217.53".toList
    "192.168.217.53".toList 50000
    (encode "\"C:/Program Files/Notepad++/Notepad++.exe\" /home/tsp/a.txt".toList)
    "tsp/a.txt".toList (by decide) (by decide +kernel) (by decide) (by decide) (by decide)).mpr
    (by decide +kernel)

/-- Under another name the same file is opened by its Linux path. -/
theorem e_popen_notepad :
    e (session "/home/tsp".toList) ["/usr/bin/n".toList, "a.txt".toList]
        = .sendto "192.168.217.53".toList (encode "notepad /home/tsp/a.txt".toList) ∧
      (step quietHost (start ())
          ⟨"192.168.217.53".toList, 50000, encode "notepad /home/tsp/a.txt".toList⟩).1
        = [.popen .other "notepad /home/tsp/a.txt".toList] ∧
      "notepad /home/tsp/a.txt".toList
        ≠ "notepad ".toList ++ (share "192.168.217.53".toList ++ "tsp/a.txt".toList) := by
  refine ⟨by decide, ?_, by decide⟩
  have hdec : decode (recvfrom ⟨"192.168.217.53".toList, 50000,
      encode "notepad /home/tsp/a.txt".toList⟩) = some "notepad /home/tsp/a.txt".toList :=
    decode_datagram "notepad /home/tsp/a.txt".toList (by decide)
  exact (step_popen_iff (hasConstants_start ()) (by decide) _ _).mpr ⟨_, hdec, by decide⟩

end PtsTools.Wire
