import PtsTools.Wire.Reach

/-!
# Paths that go through the share

A directory below `/home` can be called `home` too.  Both branches of the
listener that translate a path replace every `home` between two separators, so
such a path loses a directory and points to the sender once more in its middle.

A `HomePath` is a path below `/home` with its components, and `Sends` lists the
three ways in which a client sends one.  `sends_popen_iff` says when the command
that is run names the path on the share, for the branch of the explorer, where
`normpath` runs first, as well as for the `.exe` branch.
-/

namespace PtsTools.Wire

open PtsTools.Python PtsTools.Clients PtsTools.Listener
open PtsTools.Lib.Replace

variable {W : Type} {s : State W}

/-! ## Paths below `/home` -/

/-- A component of a path, without the characters that a tokenizer or the other
kind of separator would see. -/
structure IsComponent (c : Str) : Prop where
  plain : Ntpath.Plain c
  noSlash : '/' ∉ c
  noBackslash : '\\' ∉ c
  noQuote : ∀ ch ∈ c, ch ∉ Shlex.quotes

/-- A path below `/home`. -/
structure HomePath where
  comps : List Str
  comps_ne_nil : comps ≠ []
  isComponent : ∀ c ∈ comps, IsComponent c

/-- The part of a path below `/home`, written with `sep`. -/
def HomePath.below (p : HomePath) (sep : Char) : Str := join [sep] p.comps

/-- The path itself. -/
def HomePath.text (p : HomePath) : Str := home ++ p.below '/'

/-- No quote comes in with a path. -/
theorem HomePath.noQuote (p : HomePath) : ∀ ch ∈ p.below '/', ch ∉ Shlex.quotes := by
  exact of_mem_join (by decide) fun c hc => (p.isComponent c hc).noQuote

/-! ## The branch of the explorer -/

/-- The home directory as the branch looks for it behind `normpath`. -/
def winHome : Str := "\\home\\".toList

/-- Neither of `\home\` and the share of a sender starts with the other. -/
theorem winHome_share_incomparable (ip : Str) :
    ¬ winHome <+: share ip ∧ ¬ share ip <+: winHome := by
  have hwin : winHome = '\\' :: 'h' :: "ome\\".toList := by decide
  have hshare : share ip = '\\' :: '\\' :: (ip ++ "\\".toList) := rfl
  rw [hwin, hshare]
  constructor
  · intro h
    exact absurd (List.cons_prefix_cons.mp (List.cons_prefix_cons.mp h).2).1 (by decide)
  · intro h
    exact absurd (List.cons_prefix_cons.mp (List.cons_prefix_cons.mp h).2).1 (by decide)

/-- The branch of the explorer, on any text behind the program. -/
theorem dispatch_explorer (ip rest : Str) :
    dispatch ip ("explorer ".toList ++ rest) (tokenize ("explorer ".toList ++ rest)) =
      .ok (.popen .explorer
        (replaceAll winHome (share ip) (Ntpath.normpath ("explorer ".toList ++ rest)))) := by
  obtain ⟨args, hargs⟩ := tokenize_bare (c := 'e') (w := "xplorer".toList) (by decide) (by decide)
    rest
  have hcmd : "explorer ".toList ++ rest = 'e' :: "xplorer".toList ++ ' ' :: rest := rfl
  have hnfs : ¬ ('e' :: "xplorer".toList ++ ' ' :: rest).take 14 = "/home/tsp/prj/".toList := by
    simp
  rw [hcmd, hargs, dispatch, if_neg hnfs, if_pos (by decide)]
  rfl

/-- The components that the loop of `normpath` keeps when the last one was cut:
joined, they are a prefix of the whole path, and the whole path only when
nothing was cut off. -/
theorem normLoop_cut {front : List Str} {d c : Str} {rest : List Str}
    (hlen : 2 ≤ front.length) (hplain : ∀ v ∈ front ++ c :: rest, Ntpath.Plain v)
    (hsep : ∀ v ∈ front ++ c :: rest, '\\' ∉ v) (hd : d <+: c) :
    Ntpath.normLoop false [] (front ++ [d]) ≠ [] ∧
      join ['\\'] (Ntpath.normLoop false [] (front ++ [d]))
        <+: join ['\\'] (front ++ c :: rest) ∧
      (join ['\\'] (Ntpath.normLoop false [] (front ++ [d]))
        = join ['\\'] (front ++ c :: rest) ↔ front ++ [d] = front ++ c :: rest) := by
  have hne : front ≠ [] := List.ne_nil_of_length_pos (by omega)
  have hc : Ntpath.Plain c := hplain c (by simp)
  have hfront : ∀ v ∈ front, '\\' ∉ v := fun v hv => hsep v (by simp [hv])
  have hdsep : '\\' ∉ d := fun h => hsep c (by simp) (hd.subset h)
  have hcut : ¬ Ntpath.Plain d → front ++ [d] ≠ front ++ c :: rest := by
    intro hnot heq
    have hdc : d = c := (List.cons.inj (List.append_cancel_left heq)).1
    exact hnot (hdc ▸ hc)
  rw [Ntpath.normLoop_concat (fun v hv => hplain v (by simp [hv])) hne]
  split_ifs with h1 h2
  · have hshort : front ≠ front ++ c :: rest := by simp
    refine ⟨hne, intercalate_append_prefix hne _, ?_⟩
    rw [join_inj hfront hsep hne (by simp)]
    refine iff_of_false hshort (hcut ?_)
    intro hplaind
    rcases hplaind with ⟨hd1, hd2, _⟩
    exact h1.elim hd1 hd2
  · -- `..` takes the component before it with it.
    have hne' : front.dropLast ≠ [] := by
      apply List.ne_nil_of_length_pos
      rw [List.length_dropLast]
      omega
    have hall : front.dropLast ++ (front.getLast hne :: c :: rest) = front ++ c :: rest := by
      rw [← List.singleton_append, ← List.append_assoc, List.dropLast_append_getLast]
    have hshort : front.dropLast ≠ front ++ c :: rest := by
      intro h
      have hl := congrArg List.length h
      rw [List.length_dropLast, List.length_append] at hl
      omega
    refine ⟨hne', ?_, ?_⟩
    · rw [← hall]
      exact intercalate_append_prefix hne' _
    · rw [join_inj (fun v hv => hfront v (List.mem_of_mem_dropLast hv)) hsep hne' (by simp)]
      refine iff_of_false hshort (hcut ?_)
      intro hplaind
      rcases hplaind with ⟨_, _, hd3⟩
      exact hd3 h2
  · refine ⟨by simp, intercalate_concat_prefix hne hd rest, ?_⟩
    refine join_inj ?_ hsep (by simp) (by simp)
    intro v hv
    rcases List.mem_append.mp hv with h | h
    · exact hfront v h
    · rw [List.mem_singleton.mp h]
      exact hdsep

/-- The program and the home directory are components too, for `normpath`. -/
theorem isComponent_front : ∀ v ∈ ["explorer ".toList, "home".toList], IsComponent v := by
  intro v hv
  rcases List.mem_pair.mp hv with rfl | rfl
  · exact ⟨by simp [Ntpath.Plain], by decide, by decide, by decide⟩
  · exact ⟨by simp [Ntpath.Plain], by decide, by decide, by decide⟩

/-- `normpath` turns the slashes of a command for the explorer around and drops
nothing else of it.  Where the path was cut off, a prefix of the text is left,
which is shorter when the cut made `.` or `..` of a component. -/
theorem normpath_cut (p : HomePath) {r : Str} (hr : r <+: p.below '/') :
    Ntpath.normpath ("explorer ".toList ++ (home ++ r))
        <+: "explorer ".toList ++ (winHome ++ p.below '\\') ∧
      (Ntpath.normpath ("explorer ".toList ++ (home ++ r))
          = "explorer ".toList ++ (winHome ++ p.below '\\') ↔ r = p.below '/') := by
  obtain ⟨done, d, c, rest, hcomps, rfl, hd⟩ := exists_of_prefix_intercalate p.comps_ne_nil hr
  have hbelow : ∀ sep, p.below sep = join [sep] (done ++ c :: rest) := fun sep => by
    rw [HomePath.below, hcomps]
  obtain ⟨front, hfront⟩ : ∃ front, front = "explorer ".toList :: "home".toList :: done := ⟨_, rfl⟩
  have hcomp : ∀ v ∈ front ++ c :: rest, IsComponent v := by
    intro v hv
    have hv' : v ∈ ["explorer ".toList, "home".toList] ++ p.comps := by
      rw [hcomps]
      rwa [hfront] at hv
    exact (List.mem_append.mp hv').elim (isComponent_front v) (p.isComponent v)
  have hcut : ∀ sep, (∀ v ∈ front ++ c :: rest, sep ∉ v) → ∀ v ∈ front ++ [d], sep ∉ v := by
    intro sep h v hv
    rcases List.mem_append.mp hv with hv | hv
    · exact h v (List.mem_append_left _ hv)
    · rw [List.mem_singleton.mp hv]
      exact fun hin => h c (by simp) (hd.subset hin)
  -- The command and what it should become, as joined components.
  have hcmd : "explorer ".toList ++ (home ++ join ['/'] (done ++ [d]))
      = join ['/'] (front ++ [d]) := by
    rw [hfront, List.cons_append, List.cons_append, join_cons (by simp), join_cons (by simp)]
    rfl
  have hwin : "explorer ".toList ++ (winHome ++ p.below '\\')
      = join ['\\'] (front ++ c :: rest) := by
    rw [hbelow, hfront, List.cons_append, List.cons_append, join_cons (by simp),
      join_cons (by simp)]
    rfl
  have hsplit : (replaceChar '/' '\\'
      ("explorer ".toList ++ (home ++ join ['/'] (done ++ [d])))).splitOn '\\' = front ++ [d] := by
    rw [hcmd, replaceChar_join (hcut '/' fun v hv => (hcomp v hv).noSlash)]
    exact List.splitOn_intercalate _ (hcut '\\' fun v hv => (hcomp v hv).noBackslash) (by simp)
  obtain ⟨hne, hpre, hiff⟩ := normLoop_cut (by simp [hfront])
    (fun v hv => (hcomp v hv).plain) (fun v hv => (hcomp v hv).noBackslash) hd
  have hnorm : Ntpath.normpath ("explorer ".toList ++ (home ++ join ['/'] (done ++ [d])))
      = join ['\\'] (Ntpath.normLoop false [] (front ++ [d])) :=
    Ntpath.normpath_relative (a := 'e') (b := 'x') (by decide) (by decide) (by decide) hsplit hne
  rw [← join, hnorm, hwin]
  refine ⟨hpre, hiff.trans ?_⟩
  have hdone : ∀ v ∈ done ++ [d], '/' ∉ v := fun v hv =>
    hcut '/' (fun v hv => (hcomp v hv).noSlash) v (by
      rw [hfront]
      exact List.mem_append_right ["explorer ".toList, "home".toList] hv)
  rw [hbelow, List.append_cancel_left_eq, join_inj hdone
    (fun v hv => (p.isComponent v (hcomps ▸ hv)).noSlash) (by simp) (by simp),
    List.append_cancel_left_eq]

/-- The explorer is started with the path on the share exactly when no directory
below the first is called `home` and the command fits into the buffer. -/
theorem explorer_popen_iff (host : Host W) (hs : s.HasConstants) {ip : Str}
    (hip : ip ∈ Gigacitys) (port : Nat) (p : HomePath) (branch : Branch) :
    (step host s (datagram ip port ("explorer ".toList ++ p.text))).1
        = [.popen branch ("explorer ".toList ++ (share ip ++ p.below '\\'))] ↔
      branch = .explorer ∧ ¬ winHome <:+: p.below '\\' ∧
        (encode ("explorer ".toList ++ p.text)).length ≤ 1024 := by
  have hinc := winHome_share_incomparable ip
  have hclear : Clear winHome "explorer ".toList := by decide
  rw [step_popen_iff hs hip]
  constructor
  · intro hcmd
    rcases hcmd with ⟨cmd, hdec, hdisp⟩
    rw [HomePath.text, ← List.append_assoc] at hdec
    obtain ⟨r', rfl, hr', hfit⟩ := decode_cut (by decide) hdec
    rw [List.append_assoc, dispatch_explorer] at hdisp
    simp only [Except.ok.injEq, Dispatch.popen.injEq] at hdisp
    obtain ⟨hpre, hiff⟩ := normpath_cut p hr'
    obtain ⟨heq, hno⟩ := (replaceAll_cut_iff hinc.1 hinc.2 hclear hpre).mp hdisp.2
    rw [List.append_assoc] at hfit
    exact ⟨hdisp.1.symm, hno, hfit.mp (hiff.mp heq)⟩
  · intro hright
    rcases hright with ⟨rfl, hno, hlen⟩
    refine ⟨_, decode_datagram _ hlen, ?_⟩
    obtain ⟨hpre, hiff⟩ := normpath_cut p List.prefix_rfl
    rw [datagram, HomePath.text, dispatch_explorer,
      (replaceAll_cut_iff hinc.1 hinc.2 hclear hpre).mpr ⟨hiff.mpr rfl, hno⟩]

/-! ## The clients that send a path -/

/-- The options in front of the path, in the commands of `ee.py`. -/
def options : List Str :=
  ["/command:log /path:".toList, "/command:diff /path:".toList,
    "/command:repobrowser /path:".toList, "/command:blame /path:".toList,
    "/command:commit /path:".toList, "/command:update /path:".toList]

/-- `Sends p before branch payload`: one of the clients sends the bytes `payload`
for the path `p`, with the text `before` in front of it, and the listener has
the branch `branch` for such a command. -/
inductive Sends (p : Str) : Str → Branch → Bytes → Prop
  /-- `e.py` without an argument opens the explorer in the working directory. -/
  | explorer {env : Env} {argv0 dst : Str} {payload : Bytes}
      (sent : e env [argv0] = .sendto dst payload) (path : env.cwd = p) :
      Sends p "explorer ".toList .explorer payload
  /-- `e.py` under the name `e` opens a file in a quoted program. -/
  | program {env : Env} {argv0 arg dst : Str} {c : Char} {more : List Str} {payload : Bytes}
      (name : basename argv0 = "e".toList)
      (sent : e env (argv0 :: (c :: arg) :: more) = .sendto dst payload)
      (path : filePath env c (c :: arg) = p) :
      Sends p (openWith argv0 (c :: arg)) .exe payload
  /-- `ee.py` opens a dialog of the repository browser. -/
  | dialog {env : Env} {argv : List Str} {dst repoType option : Str}
      (option_mem : option ∈ options)
      (sent : ee env argv = .sendto dst (encode (tortoise repoType ++ option ++ p))) :
      Sends p (tortoise repoType ++ option) .exe (encode (tortoise repoType ++ option ++ p))

/-- The dialogs of `ee.py` take the listener into the `.exe` branch. -/
theorem exeOpener_dialog (repoType : Str) {option : Str} (hoption : option ∈ options) :
    ∃ exe mid, ExeOpener (tortoise repoType ++ option) exe mid := by
  have hall : ∀ exe ∈ ["C:/Program Files/TortoiseGit/bin/TortoiseGitProc.exe".toList,
      "C:/Program Files/TortoiseSVN/bin/TortoiseProc.exe".toList], ∀ option ∈ options,
      ExeOpener ('"' :: exe ++ '"' :: ' ' :: option) exe (' ' :: option) := by
    decide +kernel
  have hgit : "\"C:/Program Files/TortoiseGit/bin/TortoiseGitProc.exe\" ".toList
      = '"' :: "C:/Program Files/TortoiseGit/bin/TortoiseGitProc.exe".toList ++ ['"', ' '] := by
    decide +kernel
  have hsvn : "\"C:/Program Files/TortoiseSVN/bin/TortoiseProc.exe\" ".toList
      = '"' :: "C:/Program Files/TortoiseSVN/bin/TortoiseProc.exe".toList ++ ['"', ' '] := by
    decide +kernel
  unfold tortoise
  split_ifs
  · rw [hgit, List.append_assoc]
    exact ⟨_, _, hall _ List.mem_cons_self option hoption⟩
  · rw [hsvn, List.append_assoc]
    exact ⟨_, _, hall _ (List.mem_cons_of_mem _ List.mem_cons_self) option hoption⟩

/-- What the three ways have in common. -/
theorem sends_cases {p before : Str} {branch : Branch} {payload : Bytes}
    (h : Sends p before branch payload) :
    payload = encode (before ++ p) ∧
      (branch = .explorer ∧ before = "explorer ".toList ∨
        branch = .exe ∧ ∃ exe mid, ExeOpener before exe mid) := by
  cases h with
  | explorer sent path =>
    refine ⟨?_, Or.inl ⟨rfl, rfl⟩⟩
    rw [← path]
    exact (send_eq_sendto sent).1
  | @program env argv0 arg dst c more payload name sent path =>
    obtain ⟨exe, mid, ho⟩ := exeOpener_program (basename (c :: arg))
    refine ⟨?_, Or.inr ⟨rfl, exe, mid, ?_⟩⟩
    · rw [← path]
      exact e_eq_send sent
    · rw [openWith, if_pos name]
      exact ho
  | @dialog env argv dst repoType option option_mem sent =>
    exact ⟨rfl, Or.inr ⟨rfl, exeOpener_dialog repoType option_mem⟩⟩

/-! ## The path on the share -/

/-- The separator that a branch leaves in a path. -/
def separator : Branch → Char
  | .explorer => '\\'
  | _ => '/'

/-- The path on the share of a sender, as a branch should write it. -/
def HomePath.onShare (p : HomePath) (ip : Str) (branch : Branch) : Str :=
  share ip ++ p.below (separator branch)

/-- A directory below the first one, and above the last component, is called
`home` as well. -/
def HomePath.Nested (p : HomePath) : Prop := "home".toList ∈ p.comps.tail.dropLast

/-- Different paths are different on the share, whichever branches wrote them:
Windows takes the two separators for one. -/
theorem onShare_injective {p q : HomePath} {ip : Str} {b b' : Branch}
    (h : replaceChar '/' '\\' (p.onShare ip b) = replaceChar '/' '\\' (q.onShare ip b')) :
    p.text = q.text := by
  have hone : ∀ (p : HomePath) (b : Branch),
      replaceChar '/' '\\' (p.below (separator b)) = join ['\\'] p.comps := by
    intro p b
    have hslash : replaceChar '/' '\\' (join ['/'] p.comps) = join ['\\'] p.comps :=
      replaceChar_join fun c hc => (p.isComponent c hc).noSlash
    have hback : replaceChar '/' '\\' (join ['\\'] p.comps) = join ['\\'] p.comps :=
      replaceChar_eq_self fun hin => of_mem_join (P := (· ≠ '/')) (by decide)
        (fun c hc ch hch heq => (p.isComponent c hc).noSlash (heq ▸ hch)) '/' hin rfl
    cases b <;> assumption
  rw [HomePath.onShare, HomePath.onShare, replaceChar_append, replaceChar_append,
    List.append_cancel_left_eq, hone, hone,
    join_inj (fun c hc => (p.isComponent c hc).noBackslash)
      (fun c hc => (q.isComponent c hc).noBackslash) p.comps_ne_nil q.comps_ne_nil] at h
  rw [HomePath.text, HomePath.below, h]
  rfl

/-- What the two branches look for occurs exactly in the nested paths. -/
theorem nested_iff (p : HomePath) :
    (home <:+: p.below '/' ↔ p.Nested) ∧ (winHome <:+: p.below '\\' ↔ p.Nested) := by
  have hhome : home = '/' :: "home".toList ++ ['/'] := by decide
  have hwin : winHome = '\\' :: "home".toList ++ ['\\'] := by decide
  constructor
  · rw [hhome]
    exact infix_intercalate_iff (by decide) fun c hc => (p.isComponent c hc).noSlash
  · rw [hwin]
    exact infix_intercalate_iff (by decide) fun c hc => (p.isComponent c hc).noBackslash

/-- The command for a client's path names the path on the share exactly when the
path is not nested and the command fits into the buffer. -/
theorem sends_popen_iff (host : Host W) (hs : s.HasConstants) {src : Str}
    (hsrc : src ∈ Gigacitys) (port : Nat) {p : HomePath} {before : Str} {branch : Branch}
    {payload : Bytes} (h : Sends p.text before branch payload) :
    (step host s ⟨src, port, payload⟩).1 = [.popen branch (before ++ p.onShare src branch)] ↔
      ¬ p.Nested ∧ payload.length ≤ 1024 := by
  obtain ⟨rfl, ⟨rfl, rfl⟩ | ⟨rfl, exe, mid, ho⟩⟩ := sends_cases h
  · apply (explorer_popen_iff host hs hsrc port p .explorer).trans
    rw [(nested_iff p).2, eq_self, true_and]
  · apply (exe_popen_iff host hs hsrc port ho p.noQuote .exe).trans
    rw [(nested_iff p).1, eq_self, true_and, HomePath.text]

/-- Translating a path touches the prefix of the share alone exactly when the path
is not nested and the command fits into the buffer.  Two paths of which this
holds are never run as the same path on the share. -/
theorem share_translation_iff (host : Host W) (s s' : State W) (hs : s.HasConstants)
    (hs' : s'.HasConstants) (src : Str) (hsrc : src ∈ Gigacitys) (port port' : Nat)
    (p q : HomePath) (before before' : Str) (branch branch' : Branch) (payload payload' : Bytes)
    (hp : Sends p.text before branch payload) (hq : Sends q.text before' branch' payload') :
    ((step host s ⟨src, port, payload⟩).1 = [.popen branch (before ++ p.onShare src branch)] ↔
        ¬ p.Nested ∧ payload.length ≤ 1024) ∧
      (¬ p.Nested ∧ payload.length ≤ 1024 → ¬ q.Nested ∧ payload'.length ≤ 1024 →
        ∀ t t' : Str, (step host s ⟨src, port, payload⟩).1 = [.popen branch (before ++ t)] →
          (step host s' ⟨src, port', payload'⟩).1 = [.popen branch' (before' ++ t')] →
          replaceChar '/' '\\' t = replaceChar '/' '\\' t' → p.text = q.text) := by
  have hpiff := sends_popen_iff host hs hsrc port hp
  have hqiff := sends_popen_iff host hs' hsrc port' hq
  refine ⟨hpiff, ?_⟩
  intro hpok hqok t t' ht ht' heq
  rw [hpiff.mpr hpok] at ht
  rw [hqiff.mpr hqok] at ht'
  simp only [List.cons.injEq, Action.popen.injEq, List.append_cancel_left_eq, and_true,
    true_and] at ht ht'
  rw [← ht, ← ht'] at heq
  exact onShare_injective heq

/-- The path of one directory of a home directory. -/
def prjPath : HomePath where
  comps := ["tsp".toList, "prj".toList]
  comps_ne_nil := by simp
  isComponent := by
    intro c hc
    rcases List.mem_pair.mp hc with rfl | rfl
    · exact ⟨by simp [Ntpath.Plain], by decide, by decide, by decide⟩
    · exact ⟨by simp [Ntpath.Plain], by decide, by decide, by decide⟩

/-- `e` in `/home/tsp/prj` opens the directory on the share. -/
theorem share_translation_prj :
    ((step quietHost (start ())
          ⟨"192.168.217.53".toList, 50000, encode "explorer /home/tsp/prj".toList⟩).1
        = [.popen .explorer ("explorer ".toList
            ++ prjPath.onShare "192.168.217.53".toList .explorer)]) ∧
      (¬ prjPath.Nested ∧ (encode "explorer /home/tsp/prj".toList).length ≤ 1024) := by
  have hsends : Sends prjPath.text "explorer ".toList .explorer
      (encode "explorer /home/tsp/prj".toList) :=
    @Sends.explorer _ (session "/home/tsp/prj".toList) "e".toList "192.168.217.53".toList _
      (by decide) (by decide)
  have hcond : ¬ prjPath.Nested ∧ (encode "explorer /home/tsp/prj".toList).length ≤ 1024 := by
    unfold HomePath.Nested prjPath
    decide
  refine ⟨?_, hcond⟩
  exact (share_translation_iff quietHost (start ()) (start ()) (hasConstants_start ())
    (hasConstants_start ()) "192.168.217.53".toList (by decide) 50000 50000 prjPath prjPath
    _ _ _ _ _ _ hsends hsends).1.mpr hcond

/-- A directory called `home` further down is taken for the share once more. -/
theorem share_translation_nested :
    e (session "/home/tsp/home/x".toList) ["e".toList]
        = .sendto "192.168.217.53".toList (encode "explorer /home/tsp/home/x".toList) ∧
      (step quietHost (start ())
          ⟨"192.168.217.53".toList, 50000, encode "explorer /home/tsp/home/x".toList⟩).1
        = [.popen .explorer "explorer \\\\192.168.217.53\\tsp\\\\192.168.217.53\\x".toList] ∧
      "explorer \\\\192.168.217.53\\tsp\\\\192.168.217.53\\x".toList
        ≠ "explorer ".toList ++ (share "192.168.217.53".toList ++ "tsp\\home\\x".toList) := by
  refine ⟨by decide, ?_, by decide⟩
  have hdec : decode (recvfrom ⟨"192.168.217.53".toList, 50000,
      encode "explorer /home/tsp/home/x".toList⟩) = some "explorer /home/tsp/home/x".toList :=
    decode_datagram "explorer /home/tsp/home/x".toList (by decide)
  exact (step_popen_iff (hasConstants_start ()) (by decide) _ _).mpr ⟨_, hdec, by decide⟩

end PtsTools.Wire
