import PtsTools.Clients.Model

/-!
# The file argument of `e.py` and `ee.py`

In an SSH session both clients turn a file argument into a path of the Linux side.
`e.py` takes an argument that starts with `/` as it is.  `ee.py` puts the working
directory in front of every argument, so the two agree on the others: `alike_iff`.
-/

namespace PtsTools.Clients

open PtsTools.Python

/-- The path that a file argument means. -/
def resolve (cwd arg : Str) : Str :=
  if arg.head? = some '/' then arg else cwd ++ "/".toList ++ arg

/-- The words that `e.py` answers with its usage. -/
def helpWords : List Str := ["--help".toList, "-h".toList, "?".toList]

/-- The verbs of `ee.py` with a file argument. -/
inductive FileVerb
  | log
  | blame
  | commit
  deriving DecidableEq, Repr

def FileVerb.word : FileVerb → Str
  | .log => "l".toList
  | .blame => "b".toList
  | .commit => "ci".toList

/-- The part of the command between the program and the path. -/
def FileVerb.command : FileVerb → Str
  | .log => "/command:log /path:".toList
  | .blame => "/command:blame /path:".toList
  | .commit => "/command:commit /path:".toList

/-- An SSH session that comes from a host. -/
structure Session (env : Env) (ip : Str) : Prop where
  is_set : env.host ≠ "Not set".toList
  first : (split env.host).head? = some ip

/-- The clients send the path that the argument means. -/
structure Alike (env : Env) (ip repoType argv0 arg : Str) (rest : List Str) : Prop where
  e : e env (argv0 :: arg :: rest) =
    .sendto ip (encode (openWith argv0 arg ++ resolve env.cwd arg))
  ee : ∀ verb : FileVerb, ee env (argv0 :: verb.word :: arg :: rest) =
    .sendto ip (encode (tortoise repoType ++ verb.command ++ resolve env.cwd arg))

variable {env : Env} {ip repoType argv0 arg : Str} {rest : List Str}

/-- In a session the command is sent. -/
theorem send_session (h : Session env ip) (cmd : Str) : send env cmd = .sendto ip (encode cmd) := by
  have hfirst := h.first
  rw [send, if_neg h.is_set]
  cases hs : split env.host with
  | nil =>
    rw [hs] at hfirst
    exact absurd hfirst (by simp)
  | cons a rest =>
    rw [hs] at hfirst
    rw [Option.some.inj hfirst]

/-- `e.py` sends the path that the argument means. -/
theorem e_file (h : Session env ip) (hne : arg ≠ []) (hhelp : arg ∉ helpWords) :
    e env (argv0 :: arg :: rest) =
      .sendto ip (encode (openWith argv0 arg ++ resolve env.cwd arg)) := by
  rcases List.exists_cons_of_ne_nil hne with ⟨c, arg, rfl⟩
  have hpath : filePath env c (c :: arg) = resolve env.cwd (c :: arg) := by
    have hslash : (c = '/' ∨ env.host = "Not set".toList) ↔ (c :: arg).head? = some '/' := by
      rw [or_iff_left h.is_set]
      exact Option.some_inj.symm
    unfold filePath resolve
    exact if_congr hslash rfl rfl
  have he : e env (argv0 :: (c :: arg) :: rest) =
      send env (openWith argv0 (c :: arg) ++ filePath env c (c :: arg)) := if_neg hhelp
  rw [he, hpath, send_session h]

theorem append_path (cmd cwd arg : Str) :
    cmd ++ cwd ++ ("/".toList ++ arg) = cmd ++ (cwd ++ "/".toList ++ arg) := by
  rw [List.append_assoc, List.append_assoc]

/-- `ee.py` sends a path below the working directory. -/
theorem ee_file (h : Session env ip) (hrepo : env.repoType = some repoType) (verb : FileVerb) :
    ee env (argv0 :: verb.word :: arg :: rest) =
      .sendto ip
        (encode (tortoise repoType ++ verb.command ++ (env.cwd ++ "/".toList ++ arg))) := by
  rw [← send_session h, ee, hrepo]
  dsimp only
  cases verb with
  | log =>
    rw [if_pos (by decide)]
    exact congrArg (send env) (append_path _ _ _)
  | blame =>
    rw [if_neg (by decide), if_neg (by decide), if_neg (by decide), if_pos (by decide)]
    rw [List.append_assoc (_ ++ env.cwd)]
    exact congrArg (send env) (append_path _ _ _)
  | commit =>
    rw [if_neg (by decide), if_neg (by decide), if_neg (by decide), if_neg (by decide),
      if_pos (by decide)]
    exact congrArg (send env) (append_path _ _ _)

/-- The two clients resolve a file argument alike exactly if it does not start with
`/` and `e.py` does not take it for a call of its usage. -/
theorem alike_iff (h : Session env ip) (hrepo : env.repoType = some repoType) (hne : arg ≠ []) :
    Alike env ip repoType argv0 arg rest ↔ arg.head? ≠ some '/' ∧ arg ∉ helpWords := by
  constructor
  · intro halike
    constructor
    · intro hslash
      have hsent := (ee_file h hrepo .log).symm.trans (halike.ee .log)
      have hpath := List.append_cancel_left (encode_injective (Sent.sendto.inj hsent).2)
      rw [resolve, if_pos hslash] at hpath
      have hlength := congrArg List.length hpath
      rw [List.length_append, List.length_append] at hlength
      simp at hlength
    · intro hhelp
      rcases List.exists_cons_of_ne_nil hne with ⟨c, arg', rfl⟩
      have husage : e env (argv0 :: (c :: arg') :: rest) = .usage := if_pos hhelp
      exact absurd (husage.symm.trans halike.e) (by simp)
  · intro hplain
    rcases hplain with ⟨hslash, hhelp⟩
    refine ⟨e_file h hne hhelp, ?_⟩
    intro verb
    rw [resolve, if_neg hslash]
    exact ee_file h hrepo verb

/-- A session in `/home/tsp/prj`. -/
def prjEnv : Env where
  sshClient := some "10.0.0.2 50000 22".toList
  cwd := "/home/tsp/prj".toList
  repoType := some "git".toList

theorem session_prj : Session prjEnv "10.0.0.2".toList := ⟨by decide, by decide⟩

/-- A file of the working directory. -/
theorem alike_file :
    Alike prjEnv "10.0.0.2".toList "git".toList "e".toList "src/a.c".toList [] :=
  (alike_iff session_prj rfl (by decide)).mpr (by decide)

/-- For an absolute path, `ee.py` sends a path that does not exist. -/
theorem not_alike_absolute :
    ee prjEnv ["ee".toList, "b".toList, "/etc/hosts".toList] =
        .sendto "10.0.0.2".toList (encode (tortoise "git".toList ++
          "/command:blame /path:/home/tsp/prj//etc/hosts".toList)) ∧
      ¬ Alike prjEnv "10.0.0.2".toList "git".toList "e".toList "/etc/hosts".toList [] := by
  constructor
  · decide
  · intro h
    exact absurd (h.ee .blame) (by decide)

end PtsTools.Clients
