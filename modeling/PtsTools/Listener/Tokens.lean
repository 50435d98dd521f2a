import PtsTools.Listener.Model

/-!
# Words of a command and the tokens of the listener

A command is a list of words with blanks and tabs between them.  A word is written
bare or in double quotes, and `tokenize` gives the words back: `tokenize_render`.
A closing quote ends a token and a bare word has no quote in it, so the lexer is
between two tokens whenever a word begins.

The NFS branch puts the tokens together again without their quotes, and it drops
the answer of `replace`.  So the program that it runs has slashes, `nfs_never`, and
an argument with a blank falls apart, `nfs_arguments_iff`.
-/

namespace PtsTools.Listener

open PtsTools.Python

/-! ## Words -/

/-- A word and how it is written: bare, or in double quotes. -/
inductive Word
  | bare (text : Str) (ne_nil : text ≠ [])
      (plain : ∀ c ∈ text, c ∉ Shlex.whitespace ∧ c ∉ Shlex.quotes)
  | quoted (text : Str) (noQuote : '"' ∉ text)

/-- The word itself. -/
def Word.text : Word → Str
  | .bare text _ _ => text
  | .quoted text _ => text

/-- The word as it is written. -/
def Word.render : Word → Str
  | .bare text _ _ => text
  | .quoted text _ => '"' :: text ++ ['"']

/-- A run of blanks and tabs. -/
structure Gap where
  text : Str
  ne_nil : text ≠ []
  blank : ∀ c ∈ text, c = ' ' ∨ c = '\t'

/-- The words of a command with the gaps between them. -/
def render (gap : Nat → Gap) : List Word → Str
  | [] => []
  | [w] => w.render
  | w :: v :: ws => w.render ++ (gap 0).text ++ render (fun i => gap (i + 1)) (v :: ws)

theorem Gap.whitespace (g : Gap) : ∀ c ∈ g.text, c ∈ Shlex.whitespace := by
  intro c hc
  rcases g.blank c hc with heq | heq
  · rw [heq]
    decide
  · rw [heq]
    decide

/-- The token that the lexer makes of a word is the word as it is written. -/
theorem scan_render_end (w : Word) : Shlex.scan .blank [] w.render = some [w.render] := by
  cases w with
  | bare text ne_nil plain =>
    cases text with
    | nil => exact absurd rfl ne_nil
    | cons c text =>
      exact Shlex.scan_bare_end (plain c List.mem_cons_self).2 fun d hd => (plain d hd).1
  | quoted text noQuote =>
    have hscan := Shlex.scan_quoted (by decide) noQuote []
    exact hscan

/-- A word in front of a gap is one token, and the lexer goes on behind the gap. -/
theorem scan_render_gap (w : Word) (g : Gap) (cs : Str) :
    Shlex.scan .blank [] (w.render ++ g.text ++ cs) =
      (Shlex.scan .blank [] cs).map (w.render :: ·) := by
  cases w with
  | bare text ne_nil plain =>
    cases text with
    | nil => exact absurd rfl ne_nil
    | cons c text =>
      rcases List.exists_cons_of_ne_nil g.ne_nil with ⟨b, bs, hg⟩
      have hgap := g.whitespace
      rw [hg] at hgap ⊢
      have hscan := Shlex.scan_bare (plain c List.mem_cons_self).2 (fun d hd => (plain d hd).1)
        (hgap b List.mem_cons_self) (bs ++ cs)
      rw [Shlex.scan_whitespace fun d hd => hgap d (List.mem_cons_of_mem b hd)] at hscan
      rw [List.append_assoc, List.cons_append]
      exact hscan
  | quoted text noQuote =>
    have hscan := Shlex.scan_quoted (by decide) noQuote (g.text ++ cs)
    rw [Shlex.scan_whitespace g.whitespace] at hscan
    have hrender : (Word.quoted text noQuote).render ++ g.text ++ cs =
        '"' :: text ++ '"' :: (g.text ++ cs) := by
      simp [Word.render]
    rw [hrender]
    exact hscan

/-- The tokens of a command are its words as they are written. -/
theorem scan_render (gap : Nat → Gap) (ws : List Word) :
    Shlex.scan .blank [] (render gap ws) = some (ws.map Word.render) := by
  induction ws generalizing gap with
  | nil => rfl
  | cons w ws ih =>
    cases ws with
    | nil => exact scan_render_end w
    | cons v ws =>
      rw [render, scan_render_gap, ih]
      rfl

/-- Without its quotes a token is the word. -/
theorem strip_render (w : Word) : strip '"' w.render = w.text := by
  cases w with
  | bare text ne_nil plain =>
    apply strip_eq_self
    intro hmem
    exact (plain '"' hmem).2 (by decide)
  | quoted text noQuote => exact strip_quoted noQuote

/-- The arguments that the listener finds are the words of the command. -/
theorem tokenize_render (gap : Nat → Gap) (ws : List Word) :
    tokenize (render gap ws) = ws.map Word.text := by
  unfold tokenize
  rw [Shlex.split_eq_scan, scan_render]
  show (ws.map Word.render).map (strip '"') = ws.map Word.text
  rw [List.map_map]
  exact List.map_congr_left fun w _ => strip_render w

/-! ## The first token -/

/-- The token that a word has begun stays in front. -/
theorem scan_word_head {token cs : Str} {ts : List Str}
    (h : Shlex.scan .word token cs = some ts) : ∃ u ts', ts = (token ++ u) :: ts' := by
  induction cs generalizing token with
  | nil =>
    refine ⟨[], [], ?_⟩
    rw [List.append_nil]
    exact (Option.some.inj h).symm
  | cons c cs ih =>
    rw [Shlex.scan] at h
    split_ifs at h with hspace
    · rcases Option.map_eq_some_iff.mp h with ⟨ts', -, hts⟩
      refine ⟨[], ts', ?_⟩
      rw [List.append_nil]
      exact hts.symm
    · rcases ih h with ⟨u, ts', hts⟩
      refine ⟨c :: u, ts', ?_⟩
      rw [hts, List.append_assoc]
      rfl

/-- `strip` takes nothing away in front of another character. -/
theorem strip_cons {q c : Char} (hc : c ≠ q) (u : Str) : ∃ v, strip q (c :: u) = c :: v := by
  have hdrop : (c :: u).dropWhile (· = q) = c :: u :=
    List.dropWhile_cons_of_neg (by simpa using hc)
  have hfront : strip q (c :: u) <+: c :: u := by
    unfold strip
    rw [hdrop]
    exact List.rdropWhile_prefix _ _
  cases hstrip : strip q (c :: u) with
  | nil =>
    unfold strip at hstrip
    rw [hdrop, List.rdropWhile_eq_nil_iff] at hstrip
    exact absurd (hstrip c List.mem_cons_self) (by simpa using hc)
  | cons b v =>
    rw [hstrip] at hfront
    rw [(List.cons_prefix_cons.mp hfront).1]
    exact ⟨v, rfl⟩

/-- The first token of a text starts with its first character, whether the quotes
behind it match or not. -/
theorem tokenize_head {c : Char} (hspace : isspace c = false) (hwhite : c ∉ Shlex.whitespace)
    (hquote : c ∉ Shlex.quotes) (s : Str) :
    ∃ w args, tokenize (c :: s) = (c :: w) :: args := by
  unfold tokenize
  rw [Shlex.split_eq_scan, Shlex.scan, if_neg hwhite, if_neg hquote]
  cases hscan : Shlex.scan .word [c] s with
  | some tokens =>
    rcases scan_word_head hscan with ⟨u, ts, hts⟩
    have hc : c ≠ '"' := by
      intro heq
      rw [heq] at hquote
      exact hquote (by decide)
    rcases strip_cons hc u with ⟨v, hv⟩
    refine ⟨v, ts.map (strip '"'), ?_⟩
    rw [hts, ← hv]
    rfl
  | none =>
    show ∃ w args, Python.split (c :: s) = (c :: w) :: args
    unfold Python.split
    rcases List.exists_cons_of_ne_nil (List.splitOnP_ne_nil isspace s) with ⟨v, vs, hv⟩
    rw [List.splitOnP_cons_eq_if_modifyHead, if_neg (by simp [hspace]), hv, List.modifyHead_cons,
      List.filter_cons_of_pos (by simp)]
    exact ⟨v, _, rfl⟩

/-! ## The NFS branch -/

/-- What the NFS branch is for: the text that it runs is the path on the sender,
with backslashes, and the arguments behind it. -/
def NfsFaithful (ip first : Str) (args : List Str) (text : Str) : Prop :=
  ∃ tail, text = "\\\\".toList ++ ip ++ replaceChar '/' '\\' first ++ tail ∧
    tokenize text = ("\\\\".toList ++ ip ++ replaceChar '/' '\\' first) :: args

/-- The first token of a command for the NFS branch starts with a slash. -/
theorem tokenize_nfs {cmd : Str} (hfront : cmd.take 14 = "/home/tsp/prj/".toList) :
    ∃ w args, tokenize cmd = ('/' :: w) :: args := by
  cases cmd with
  | nil => exact absurd hfront (by decide)
  | cons c s =>
    have hc : c = '/' := (List.cons.inj (hfront.trans (by decide :
      "/home/tsp/prj/".toList = '/' :: "home/tsp/prj/".toList))).1
    rw [hc]
    exact tokenize_head (by decide) (by decide) (by decide) s

/-- The text that the NFS branch runs. -/
theorem step_nfs {W : Type} (host : Host W) {s : State W} (hs : s.HasConstants) {d : Datagram}
    (hip : d.ip ∈ Gigacitys) {cmd : Str} (hcmd : decode (recvfrom d) = some cmd)
    (hfront : cmd.take 14 = "/home/tsp/prj/".toList) :
    (step host s d).1 =
      [.popen .nfs ("\\\\".toList ++ d.ip ++ join [' '] (tokenize cmd))] := by
  rw [step_popen_iff hs hip]
  refine ⟨cmd, hcmd, ?_⟩
  rcases tokenize_nfs hfront with ⟨w, args, hargs⟩
  rw [hargs]
  simp only [dispatch, if_pos hfront]

/-- Behind a program the arguments come back exactly if each of them is a word
without white space: their quotes are gone. -/
theorem arguments_iff {program : Str} (hne : program ≠ [])
    (hspace : ∀ c ∈ program, c ∉ Shlex.whitespace) (hquote : ∀ c ∈ program, c ∉ Shlex.quotes)
    {args : List Str} (hargs : ∀ w ∈ args, ∀ c ∈ w, c ∉ Shlex.quotes) :
    tokenize (join [' '] (program :: args)) = program :: args ↔
      ∀ w ∈ args, w ≠ [] ∧ ∀ c ∈ w, c ∉ Shlex.whitespace := by
  have hall : ∀ w ∈ program :: args, ∀ c ∈ w, c ∉ Shlex.quotes := by
    intro w hw
    rcases List.mem_cons.mp hw with hw | hw
    · rw [hw]
      exact hquote
    · exact hargs w hw
  rw [tokenize_eq_fields (of_mem_join (by decide) hall)]
  constructor
  · intro h w hw
    have hmem : w ∈ Shlex.fields (join [' '] (program :: args)) := by
      rw [h]
      exact List.mem_cons_of_mem program hw
    refine ⟨?_, Shlex.notMem_whitespace_of_mem_fields hmem⟩
    simpa using (List.mem_filter.mp hmem).2
  · intro h
    apply Shlex.fields_join
    · intro w hw
      rcases List.mem_cons.mp hw with hw | hw
      · rw [hw]
        exact hne
      · exact (h w hw).1
    · intro w hw
      rcases List.mem_cons.mp hw with hw | hw
      · rw [hw]
        exact hspace
      · exact (h w hw).2

/-- The arguments in the text that the NFS branch runs. -/
theorem nfs_arguments_iff {ip first : Str}
    (hspace : ∀ c ∈ ip ++ first, c ∉ Shlex.whitespace)
    (hquote : ∀ c ∈ ip ++ first, c ∉ Shlex.quotes) {args : List Str}
    (hargs : ∀ w ∈ args, ∀ c ∈ w, c ∉ Shlex.quotes) :
    tokenize ("\\\\".toList ++ ip ++ join [' '] (first :: args)) =
        ("\\\\".toList ++ ip ++ first) :: args ↔
      ∀ w ∈ args, w ≠ [] ∧ ∀ c ∈ w, c ∉ Shlex.whitespace := by
  have hlit : "\\\\".toList = ['\\', '\\'] := by decide
  have hjoin : "\\\\".toList ++ ip ++ join [' '] (first :: args) =
      join [' '] (("\\\\".toList ++ ip ++ first) :: args) := by
    cases args with
    | nil => simp [join]
    | cons v args =>
      rw [join_cons (List.cons_ne_nil v args), join_cons (List.cons_ne_nil v args),
        List.append_assoc _ first]
  have hmem : ∀ c ∈ "\\\\".toList ++ ip ++ first, c = '\\' ∨ c ∈ ip ++ first := by
    intro c hc
    rw [List.append_assoc, hlit] at hc
    rcases List.mem_append.mp hc with hc | hc
    · left
      simpa using hc
    · exact Or.inr hc
  rw [hjoin]
  apply arguments_iff
  · rw [hlit]
    exact List.cons_ne_nil _ _
  · intro c hc
    rcases hmem c hc with heq | hc
    · rw [heq]
      decide
    · exact hspace c hc
  · intro c hc
    rcases hmem c hc with heq | hc
    · rw [heq]
      decide
    · exact hquote c hc
  · exact hargs

/-- The program in the text that runs never has its slashes turned. -/
theorem nfs_never {W : Type} (host : Host W) {s : State W} (hs : s.HasConstants) {d : Datagram}
    (hip : d.ip ∈ Gigacitys) {cmd : Str} (hcmd : decode (recvfrom d) = some cmd)
    (hfront : cmd.take 14 = "/home/tsp/prj/".toList) :
    ∃ text, (step host s d).1 = [.popen .nfs text] ∧
      ∀ first args, tokenize cmd = first :: args → ¬ NfsFaithful d.ip first args text := by
  refine ⟨_, step_nfs host hs hip hcmd hfront, ?_⟩
  intro first args hargs h
  rcases h with ⟨tail, htext, -⟩
  rcases tokenize_nfs hfront with ⟨w, args', hargs'⟩
  rw [hargs] at hargs'
  rw [hargs, (List.cons.inj hargs').1, List.append_assoc _ _ tail, List.append_right_inj] at htext
  -- the text that runs has a slash where a backslash should be
  have hhead := congrArg List.head? htext
  cases args with
  | nil => simp [join, replaceChar] at hhead
  | cons v args => simp [join_cons, replaceChar] at hhead

/-- A program on the share with one argument in quotes. -/
def quotedCall : Datagram where
  ip := "192.168.217.53".toList
  port := 50000
  data := encode "/home/tsp/prj/config.exe \"a b\"".toList

theorem decode_quotedCall :
    decode (recvfrom quotedCall) = some "/home/tsp/prj/config.exe \"a b\"".toList := by
  have hwhole : recvfrom quotedCall = encode "/home/tsp/prj/config.exe \"a b\"".toList := by
    decide +kernel
  rw [hwhole, decode_encode]

theorem nfs_quotedCall :
    ∃ text, (step quietHost (start ()) quotedCall).1 = [.popen .nfs text] ∧
      ¬ NfsFaithful quotedCall.ip "/home/tsp/prj/config.exe".toList ["a b".toList] text := by
  have h := nfs_never quietHost (s := start ()) (hasConstants_start ()) (by decide)
    decode_quotedCall (by decide)
  rcases h with ⟨text, hstep, hnot⟩
  exact ⟨text, hstep, hnot _ _ (by decide +kernel)⟩

/-- The slashes of that program stay as they are, and its argument becomes two. -/
theorem nfs_quotedCall_text :
    (step quietHost (start ()) quotedCall).1 =
        [.popen .nfs "\\\\192.168.217.53/home/tsp/prj/config.exe a b".toList] ∧
      ¬ NfsFaithful quotedCall.ip "/home/tsp/prj/config.exe".toList ["a b".toList]
        "\\\\192.168.217.53/home/tsp/prj/config.exe a b".toList := by
  constructor
  · rw [step_nfs quietHost (hasConstants_start ()) (by decide) decode_quotedCall (by decide)]
    decide +kernel
  · intro h
    rcases h with ⟨tail, -, htokens⟩
    exact absurd htokens (by decide +kernel)

end PtsTools.Listener
