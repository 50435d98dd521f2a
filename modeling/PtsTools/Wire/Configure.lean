import PtsTools.Config.Outcome
import PtsTools.Wire.Reach

/-!
# From `runccc` to Windows

`runccc` gives its command to `eee.py`, which sends it to the machine that the session
comes from, and the listener there starts `config.exe`.  What it starts is the command
on the share of the sender: the NFS branch puts the sender in front, and the `.exe`
branch puts the share in place of `/home/`.  `config_started_iff` follows a run of
`runccc` to that end, from any arguments that it can read.
-/

namespace PtsTools.Wire

open PtsTools.Python PtsTools.Clients PtsTools.Listener
open PtsTools.Lib.Replace

variable {W : Type} {s : State W}

/-! ## The way of a command -/

/-- What a run of `runccc` sends, where `eee` is `eee.py`. -/
def runcccSent (env : Config.Env) (session : Clients.Env) (fuel : Nat) (arg0 : Str)
    (args : List Str) : Option Sent :=
  match Config.runccc.exec env fuel arg0 args with
  | some (.ran argv) => some (Clients.eee session argv)
  | _ => none

/-- The front of a path that takes the listener into the NFS branch. -/
def prj : Str := "/home/tsp/prj/".toList

/-- The command as the listener starts it for a sender. -/
def started (src cmd : Str) : Action :=
  if cmd.take 14 = prj then .popen .nfs ("\\\\".toList ++ src ++ cmd)
  else .popen .exe (replaceAll home (share src) cmd)

/-! ## The words -/

/-- A word of an expansion is not empty, and no blank is in it. -/
theorem mem_words {t w : Str} (h : w ∈ Config.words t) :
    w ≠ [] ∧ ∀ c ∈ w, c ∉ [' ', '\t', '\n'] := by
  obtain ⟨hpiece, hne⟩ := List.mem_filter.mp h
  refine ⟨of_decide_eq_true hne, fun c hc => ?_⟩
  exact of_decide_eq_false (of_mem_piece hpiece hc).2

/-- The same holds of the words of the command. -/
theorem mem_commandLine {env : Config.Env} {st : Config.Settings} {w : Str}
    (h : w ∈ Config.commandLine env st) : w ≠ [] ∧ ∀ c ∈ w, c ∉ [' ', '\t', '\n'] := by
  have hadmin : "admin".toList ≠ [] ∧ ∀ c ∈ "admin".toList, c ∉ [' ', '\t', '\n'] := by decide
  unfold Config.commandLine at h
  simp only [List.mem_append, List.mem_singleton] at h
  rcases h with (((((h | h) | h) | rfl) | h) | h) | h
  · exact mem_words h
  · exact mem_words h
  · exact mem_words h
  · exact hadmin
  · exact mem_words h
  · exact mem_words h
  · exact mem_words h

/-- A text without blanks is one word. -/
theorem words_eq_singleton {t : Str} (hne : t ≠ []) (h : ∀ c ∈ t, c ∉ Shlex.whitespace) :
    Config.words t = [t] := by
  have hsep : ∀ c ∈ t, decide (c ∈ [' ', '\t', '\n']) = false := by
    intro c hc
    apply decide_eq_false
    intro hmem
    refine h c hc ?_
    have hall : ∀ b ∈ [' ', '\t', '\n'], b ∈ Shlex.whitespace := by decide
    exact hall c hmem
  unfold Config.words
  rw [List.splitOnP_eq_singleton hsep, List.filter_cons_of_pos (by simpa using hne)]
  rfl

/-! ## The dispatch -/

/-- The text of the NFS branch. -/
theorem dispatch_nfs_text {ip cmd text : Str} {args : List Str}
    (h : dispatch ip cmd args = .ok (.popen .nfs text)) :
    cmd.take 14 = prj ∧ text = "\\\\".toList ++ ip ++ join [' '] args := by
  cases args with
  | nil => cases h
  | cons arg args =>
    unfold dispatch at h
    dsimp only at h
    split_ifs at h with hprj hexplorer hexe hpython hbyebye
    · cases h
      exact ⟨hprj, rfl⟩
    · cases h
    · cases h
    · cases h
    · cases h
    · cases h

/-- The text of the `.exe` branch. -/
theorem dispatch_exe_text {ip cmd text : Str} {args : List Str}
    (h : dispatch ip cmd args = .ok (.popen .exe text)) :
    text = replaceAll home (share ip) cmd := by
  cases args with
  | nil => cases h
  | cons arg args =>
    unfold dispatch at h
    dsimp only at h
    split_ifs at h with hprj hexplorer hexe hpython hbyebye
    · cases h
    · cases h
    · cases h
      rfl
    · cases h
    · cases h
    · cases h

/-- A command without quotes whose program is an `.exe` file is started as it is meant. -/
theorem dispatch_started {exe : Str} {args : List Str}
    (hexe : exe.rtake 4 = ".exe".toList) (hne : ∀ w ∈ exe :: args, w ≠ [])
    (hplain : ∀ w ∈ exe :: args, ∀ c ∈ w, c ∉ Shlex.quotes ∧ c ∉ Shlex.whitespace) (src : Str) :
    ∃ branch text, started src (join [' '] (exe :: args)) = .popen branch text ∧
      dispatch src (join [' '] (exe :: args)) (tokenize (join [' '] (exe :: args))) =
        .ok (.popen branch text) := by
  have hquotes : ∀ c ∈ join [' '] (exe :: args), c ∉ Shlex.quotes :=
    of_mem_join (by decide) fun w hw c hc => (hplain w hw c hc).1
  have htokens : tokenize (join [' '] (exe :: args)) = exe :: args := by
    rw [tokenize_eq_fields hquotes]
    exact Shlex.fields_join hne fun w hw c hc => (hplain w hw c hc).2
  have hexplorer : exe ≠ "explorer".toList := by
    intro heq
    rw [heq] at hexe
    exact absurd hexe (by decide)
  unfold started dispatch
  rw [htokens]
  dsimp only
  by_cases hprj : (join [' '] (exe :: args)).take 14 = prj
  · rw [if_pos hprj]
    exact ⟨_, _, rfl, if_pos hprj⟩
  · rw [if_neg hprj]
    refine ⟨_, _, rfl, ?_⟩
    exact (if_neg hprj).trans ((if_neg hexplorer).trans (if_pos (Or.inl hexe)))

/-- What is started tells a command from one that was cut off. -/
theorem started_cut {src cmd cut : Str} (hsrc : 3 ≤ src.length) (hcut : cut <+: cmd)
    (hquotes : ∀ c ∈ cmd, c ∉ Shlex.quotes) {branch : Branch} {text : Str}
    (hstarted : started src cmd = .popen branch text)
    (h : dispatch src cut (tokenize cut) = .ok (.popen branch text)) : cut = cmd := by
  unfold started at hstarted
  split_ifs at hstarted with hprj
  · obtain ⟨rfl, rfl⟩ := Action.popen.inj hstarted
    obtain ⟨-, htext⟩ := dispatch_nfs_text h
    rw [tokenize_eq_fields fun c hc => hquotes c (hcut.subset hc)] at htext
    have hlen := Shlex.length_join_fields_le cut
    rw [← List.append_cancel_left htext] at hlen
    exact hcut.eq_of_length_le hlen
  · obtain ⟨rfl, rfl⟩ := Action.popen.inj hstarted
    have hshare : home.length ≤ (share src).length := by
      have hhome : home.length = 6 := by decide
      unfold share
      rw [hhome, List.length_append, List.length_append]
      simp
      omega
    exact eq_of_replaceAll_prefix (by decide) hshare hcut (dispatch_exe_text h).symm

/-! ## The command of `runccc` -/

/-- A command for an `.exe` file is started exactly if it fits into the buffer. -/
theorem started_iff (host : Host W) (hs : s.HasConstants) {exe : Str} {args : List Str}
    (hexe : exe.rtake 4 = ".exe".toList) (hne : ∀ w ∈ exe :: args, w ≠ [])
    (hplain : ∀ w ∈ exe :: args, ∀ c ∈ w, c ∉ Shlex.quotes ∧ c ∉ Shlex.whitespace) {src : Str}
    (hsrc : src ∈ Gigacitys) (port : Nat) :
    (step host s (datagram src port (join [' '] (exe :: args)))).1 =
        [started src (join [' '] (exe :: args))] ↔
      (encode (join [' '] (exe :: args))).length ≤ 1024 := by
  obtain ⟨branch, text, hstarted, hdispatch⟩ := dispatch_started hexe hne hplain src
  rw [hstarted, step_popen_iff hs hsrc]
  constructor
  · intro h
    obtain ⟨cut, hdecode, hcut⟩ := h
    have hprefix : cut <+: join [' '] (exe :: args) :=
      decode_prefix (List.take_prefix 1024 _) hdecode
    have hlong : ∀ ip ∈ Gigacitys, 3 ≤ ip.length := by decide
    have hquotes : ∀ c ∈ join [' '] (exe :: args), c ∉ Shlex.quotes :=
      of_mem_join (by decide) fun w hw c hc => (hplain w hw c hc).1
    have heq := started_cut (hlong src hsrc) hprefix hquotes hstarted hcut
    rw [heq] at hdecode
    exact (decode_datagram_iff src port _).mp hdecode
  · intro h
    exact ⟨_, decode_datagram _ h, hdispatch⟩

/-- `config.exe` is an `.exe` file. -/
theorem configexe_rtake (env : Config.Env) (st : Config.Settings) :
    (Config.runccc.configexe env st).rtake 4 = ".exe".toList := by
  have hname : "/config.exe".toList = "/config".toList ++ ".exe".toList := by decide
  show (st.releaseDir ++ "/config.exe".toList).rtake 4 = _
  rw [hname, ← List.append_assoc, List.rtake, List.length_append]
  exact List.drop_left' rfl

/-- From any arguments that `runccc` can read, the command that they ask for is sent, and
the listener starts it for the sender exactly if it fits into the buffer. -/
theorem config_started_iff (host : Host W) (hs : s.HasConstants) {env : Config.Env}
    {arg0 arg1 : Str} {args : List Str} {opts : List Config.Opt} (hreads : Config.Reads args opts)
    (hfile : env.isFile
      (Config.runccc.configexe env (Config.asked env arg0 arg1 opts)) = true)
    (hexe : ∀ c ∈ Config.runccc.configexe env (Config.asked env arg0 arg1 opts),
      c ∉ Shlex.whitespace)
    (hplain : ∀ w ∈ Config.commandLine env (Config.asked env arg0 arg1 opts),
      ∀ c ∈ w, c ∉ Shlex.quotes ∧ c ≠ '\r')
    {session : Clients.Env} (hssh : session.host ≠ "Not set".toList) {dst : Str}
    (hdst : (split session.host).head? = some dst) {src : Str} (hsrc : src ∈ Gigacitys)
    (port : Nat) :
    ∃ fuel payload,
      runcccSent env session fuel arg0 (arg1 :: args) = some (.sendto dst payload) ∧
      ((step host s ⟨src, port, payload⟩).1 =
          [started src
            (join [' '] (Config.commandLine env (Config.asked env arg0 arg1 opts)))] ↔
        payload.length ≤ 1024) := by
  obtain ⟨fuel, hfuel⟩ := (Config.exec_iff env arg0 arg1 args _).mpr ⟨opts, hreads, rfl⟩
  rw [Config.finish_eq_ran hfile] at hfuel
  obtain ⟨rest, hsplit⟩ := List.head?_eq_some_iff.mp hdst
  have hne : ∀ w ∈ Config.commandLine env (Config.asked env arg0 arg1 opts), w ≠ [] :=
    fun w hw => (mem_commandLine hw).1
  have hwords : ∀ w ∈ Config.commandLine env (Config.asked env arg0 arg1 opts),
      ∀ c ∈ w, c ∉ Shlex.quotes ∧ c ∉ Shlex.whitespace := by
    intro w hw c hc
    refine ⟨(hplain w hw c hc).1, ?_⟩
    intro hmem
    have hblank := (mem_commandLine hw).2 c hc
    have hcr := (hplain w hw c hc).2
    simp only [Shlex.whitespace, List.mem_cons, List.not_mem_nil, or_false] at hmem hblank
    tauto
  have hexene : Config.runccc.configexe env (Config.asked env arg0 arg1 opts) ≠ [] := by
    intro hnil
    have hrtake := configexe_rtake env (Config.asked env arg0 arg1 opts)
    rw [hnil] at hrtake
    exact absurd hrtake (by decide)
  -- the program is the first word
  have hline : ∃ tail, Config.commandLine env (Config.asked env arg0 arg1 opts) =
      Config.runccc.configexe env (Config.asked env arg0 arg1 opts) :: tail := by
    unfold Config.commandLine
    rw [words_eq_singleton hexene hexe]
    exact ⟨_, rfl⟩
  obtain ⟨tail, htail⟩ := hline
  refine ⟨fuel, encode (join [' '] (Config.commandLine env (Config.asked env arg0 arg1 opts))),
    ?_, ?_⟩
  · unfold runcccSent
    rw [hfuel]
    dsimp only
    unfold Clients.eee send
    rw [if_neg (by rw [htail]; simp), if_neg hssh, hsplit]
    rfl
  · rw [htail] at hne hwords ⊢
    exact started_iff host hs (configexe_rtake env _) hne hwords hsrc port

/-- `./runccc 7 -t`. -/
theorem config_started_tls :
    ∃ fuel payload,
      runcccSent Config.plainEnv (session []) fuel "./runccc".toList ["7".toList, "-t".toList] =
          some (.sendto "192.168.217.53".toList payload) ∧
      ((step quietHost (start ()) ⟨"192.168.217.53".toList, 50000, payload⟩).1 =
          [started "192.168.217.53".toList
            (join [' '] (Config.commandLine Config.plainEnv
              (Config.asked Config.plainEnv "./runccc".toList "7".toList [.tls false])))] ↔
        payload.length ≤ 1024) :=
  @config_started_iff Unit (start ()) quietHost (hasConstants_start ()) Config.plainEnv
    "./runccc".toList "7".toList ["-t".toList] [.tls false] (Or.inl rfl) rfl (by decide) (by decide)
    (session []) (by decide) "192.168.217.53".toList (by decide) "192.168.217.53".toList
    (by decide) 50000

/-- What is started for `./runccc 05 -f d -p 8080`, from another home directory. -/
example :
    started "192.168.217.53".toList
        (join [' '] (Config.commandLine { Config.plainEnv with home := "/home/ts.p".toList }
          (Config.asked { Config.plainEnv with home := "/home/ts.p".toList } "./runccc".toList
            "05".toList [.valued .folder false "d".toList, .valued .port false "8080".toList]))) =
      .popen .exe ("\\\\192.168.217.53\\ts.p/prj/trunk/console/src/console/project_window/win/" ++
        "release/config.exe 192.168.110.5 8080 admin 12345 d").toList := by
  decide +kernel

end PtsTools.Wire
