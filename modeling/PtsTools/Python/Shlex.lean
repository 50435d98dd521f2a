import PtsTools.Python.Str

/-!
# `shlex.split(s, posix=False)`

The listener cuts a command into tokens with `shlex.split(cmd, posix=False)`.
That call builds a `shlex` object with `whitespace_split = True` and no comment
characters, and collects its tokens until the empty one, which is the end of
the input for a non-POSIX lexer.

`readToken` is `shlex.read_token` for those settings.  The settings decide every
test on `posix`, `commenters` and `punctuation_chars`, and with
`whitespace_split` every character that is neither white space nor a quote is
treated as a word character.  What is left are four states: between the tokens,
inside a word, inside a quotation, and behind the end of the input.  A quote
inside a word is an ordinary character, and a closing quote ends its token.

`tokens` is the loop `list(lex)`.  `scan` is the same lexer in one structural
recursion, and `tokens_eq_scan` connects the two.  Every later proof works on
`scan`.
-/

namespace PtsTools.Python.Shlex

/-- `shlex.whitespace`. -/
def whitespace : List Char := [' ', '\t', '\r', '\n']

/-- `shlex.quotes`. -/
def quotes : List Char := ['\'', '"']

/-- `shlex.state`: `' '`, `'a'`, the opening quote, or `None`. -/
inductive State
  | blank
  | word
  | quote (q : Char)
  | done
  deriving DecidableEq, Repr

/-- One call of `shlex.read_token`, entered with the token read so far.  The
answer is the token, the state behind it and the unread characters, or `none`
for `ValueError("No closing quotation")`. -/
def readToken : State → Str → Str → Option (Str × State × Str)
  | .done, _, cs => some ([], .done, cs.drop 1)
  | .blank, token, [] => some (token, .done, [])
  | .blank, token, c :: cs =>
    if c ∈ whitespace then
      if token ≠ [] then some (token, .blank, cs) else readToken .blank token cs
    else if c ∈ quotes then readToken (.quote c) [c] cs
    else readToken .word [c] cs
  | .quote _, _, [] => none
  | .quote q, token, c :: cs =>
    if c = q then some (token ++ [c], .blank, cs) else readToken (.quote q) (token ++ [c]) cs
  | .word, token, [] => some (token, .done, [])
  | .word, token, c :: cs =>
    if c ∈ whitespace then
      if token ≠ [] then some (token, .blank, cs) else readToken .blank token cs
    else readToken .word (token ++ [c]) cs

/-- `list(lex)`: read tokens up to the empty one. -/
def tokens : Nat → State → Str → Option (List Str)
  | 0, _, _ => none
  | fuel + 1, st, cs =>
    match readToken st [] cs with
    | none => none
    | some (token, st', rest) =>
      if token = [] then some [] else (tokens fuel st' rest).map (token :: ·)

/-- `shlex.split(s, posix=False)`, with `none` for `ValueError`.  Every token
takes a character, so the fuel is enough for the whole text. -/
def split (s : Str) : Option (List Str) := tokens (s.length + 1) .blank s

/-! ## The lexer in one recursion -/

/-- The tokens of the rest of the text, from a state of the lexer and the token
read so far. -/
def scan : State → Str → Str → Option (List Str)
  | .done, _, _ => some []
  | .blank, _, [] => some []
  | .blank, _, c :: cs =>
    if c ∈ whitespace then scan .blank [] cs
    else if c ∈ quotes then scan (.quote c) [c] cs
    else scan .word [c] cs
  | .quote _, _, [] => none
  | .quote q, token, c :: cs =>
    if c = q then (scan .blank [] cs).map ((token ++ [c]) :: ·)
    else scan (.quote q) (token ++ [c]) cs
  | .word, token, [] => some [token]
  | .word, token, c :: cs =>
    if c ∈ whitespace then (scan .blank [] cs).map (token :: ·)
    else scan .word (token ++ [c]) cs

/-- The token that a state of the lexer has begun: none between the tokens, and
a nonempty one inside a word or a quotation. -/
def Begun : State → Str → Prop
  | .blank, token => token = []
  | .done, _ => True
  | _, token => token ≠ []

/-- One call of `read_token` against the scan.  Where the call raises, so does
the scan.  The empty token is the end of the tokens, and another one is the next
of them and leaves fewer characters. -/
theorem scan_eq_readToken (st : State) (token cs : Str) (hb : Begun st token) :
    scan st token cs =
        match readToken st token cs with
        | none => none
        | some (t, st', rest) =>
          if t = [] then some [] else (scan st' [] rest).map (t :: ·) := by
  induction cs generalizing st token with
  | nil =>
    cases st with
    | blank => simp [Begun] at hb; simp [scan, readToken, hb]
    | word => simp [Begun] at hb; simp [scan, readToken, hb]
    | quote q => simp [scan, readToken]
    | done => simp [scan, readToken]
  | cons c cs ih =>
    cases st with
    | done => simp [scan, readToken]
    | blank =>
      have htoken : token = [] := hb
      subst htoken
      by_cases hw : c ∈ whitespace
      · simpa [scan, readToken, hw] using ih .blank [] rfl
      · by_cases hq : c ∈ quotes
        · simpa [scan, readToken, hw, hq] using ih (.quote c) [c] (by simp [Begun])
        · simpa [scan, readToken, hw, hq] using ih .word [c] (by simp [Begun])
    | quote q =>
      by_cases hc : c = q
      · simp [scan, readToken, hc]
      · simpa [scan, readToken, hc] using
          ih (.quote q) (token ++ [c]) (by simp [Begun])
    | word =>
      have htoken : token ≠ [] := hb
      by_cases hw : c ∈ whitespace
      · simp [scan, readToken, hw, htoken]
      · simpa [scan, readToken, hw] using
          ih .word (token ++ [c]) (by simp [Begun])

/-- Behind a nonempty token the lexer is between the tokens or at the end, and
it has read a character. -/
theorem readToken_rest {st : State} {token cs t rest : Str} {st' : State}
    (h : readToken st token cs = some (t, st', rest)) (ht : t ≠ []) :
    (st' = .blank ∧ rest.length < cs.length) ∨ (st' = .done ∧ rest = []) := by
  induction cs generalizing st token with
  | nil => cases st <;> simp_all [readToken]
  | cons c cs ih =>
    cases st with
    | done =>
      simp only [readToken, Option.some.injEq, Prod.mk.injEq] at h
      exact absurd h.1.symm ht
    | blank =>
      rw [readToken] at h
      split_ifs at h with h1 h2 h3
      · simp only [Option.some.injEq, Prod.mk.injEq] at h
        obtain ⟨_, rfl, rfl⟩ := h
        exact Or.inl ⟨rfl, by simp⟩
      all_goals
        rcases ih h with ⟨hs, hl⟩ | hd
        · exact Or.inl ⟨hs, by simp; omega⟩
        · exact Or.inr hd
    | quote q =>
      rw [readToken] at h
      split_ifs at h with h1
      · simp only [Option.some.injEq, Prod.mk.injEq] at h
        obtain ⟨_, rfl, rfl⟩ := h
        exact Or.inl ⟨rfl, by simp⟩
      · rcases ih h with ⟨hs, hl⟩ | hd
        · exact Or.inl ⟨hs, by simp; omega⟩
        · exact Or.inr hd
    | word =>
      rw [readToken] at h
      split_ifs at h with h1 h2
      · simp only [Option.some.injEq, Prod.mk.injEq] at h
        obtain ⟨_, rfl, rfl⟩ := h
        exact Or.inl ⟨rfl, by simp⟩
      all_goals
        rcases ih h with ⟨hs, hl⟩ | hd
        · exact Or.inl ⟨hs, by simp; omega⟩
        · exact Or.inr hd

/-- The loop over `read_token` collects the tokens of the scan.  A token takes a
character, so a call is left for the end of the input. -/
theorem tokens_eq_scan {fuel : Nat} {cs : Str} (hfuel : cs.length < fuel) :
    tokens fuel .blank cs = scan .blank [] cs := by
  induction fuel generalizing cs with
  | zero => omega
  | succ fuel ih =>
    rw [tokens, scan_eq_readToken .blank [] cs rfl]
    cases hr : readToken .blank [] cs with
    | none => rfl
    | some p =>
      obtain ⟨t, st', rest⟩ := p
      by_cases ht : t = []
      · simp [ht]
      · simp only [ht, if_false]
        rcases readToken_rest hr ht with ⟨rfl, hlt⟩ | ⟨rfl, rfl⟩
        · rw [ih (by omega)]
        · have hcs : cs ≠ [] := by
            intro heq
            subst heq
            simp only [readToken, Option.some.injEq, Prod.mk.injEq] at hr
            exact ht hr.1.symm
          have hpos : 0 < cs.length := List.length_pos_iff.mpr hcs
          obtain ⟨fuel, rfl⟩ := Nat.exists_eq_add_one_of_ne_zero (by omega : fuel ≠ 0)
          simp [tokens, readToken, scan]

theorem split_eq_scan (s : Str) : split s = scan .blank [] s :=
  tokens_eq_scan (Nat.lt_succ_self _)

/-! ## What the lexer does with a piece of text -/

/-- Inside a word every character up to the next white space joins the token,
a quote as well. -/
theorem scan_word {w : Str} (hw : ∀ c ∈ w, c ∉ whitespace) (token cs : Str) :
    scan .word token (w ++ cs) = scan .word (token ++ w) cs := by
  induction w generalizing token with
  | nil => simp
  | cons c w ih =>
    rw [List.cons_append, scan, if_neg (hw c List.mem_cons_self),
      ih (fun d hd => hw d (List.mem_cons_of_mem c hd))]
    simp

/-- White space between the tokens is skipped. -/
theorem scan_whitespace {b : Str} (hb : ∀ c ∈ b, c ∈ whitespace) (cs : Str) :
    scan .blank [] (b ++ cs) = scan .blank [] cs := by
  induction b with
  | nil => rfl
  | cons c b ih =>
    rw [List.cons_append, scan, if_pos (hb c List.mem_cons_self),
      ih (fun d hd => hb d (List.mem_cons_of_mem c hd))]

/-- A bare word at the end of the text is the last token. -/
theorem scan_bare_end {c : Char} {w : Str} (hc : c ∉ quotes)
    (hw : ∀ d ∈ c :: w, d ∉ whitespace) : scan .blank [] (c :: w) = some [c :: w] := by
  have hword := scan_word (fun d hd => hw d (List.mem_cons_of_mem c hd)) [c] []
  rw [List.append_nil] at hword
  rw [scan, if_neg (hw c List.mem_cons_self), if_neg hc, hword]
  rfl

/-- A bare word up to the next white space is one token. -/
theorem scan_bare {c : Char} {w : Str} (hc : c ∉ quotes) (hw : ∀ d ∈ c :: w, d ∉ whitespace)
    {b : Char} (hb : b ∈ whitespace) (cs : Str) :
    scan .blank [] (c :: w ++ b :: cs) = (scan .blank [] cs).map ((c :: w) :: ·) := by
  rw [List.cons_append, scan, if_neg (hw c List.mem_cons_self), if_neg hc,
    scan_word (fun d hd => hw d (List.mem_cons_of_mem c hd)), scan, if_pos hb]
  rfl

/-- Inside a quotation every character but the quote joins the token. -/
theorem scan_quote {q : Char} {u : Str} (hu : q ∉ u) (token cs : Str) :
    scan (.quote q) token (u ++ cs) = scan (.quote q) (token ++ u) cs := by
  induction u generalizing token with
  | nil => simp
  | cons c u ih =>
    have hc : ¬ c = q := fun h => hu (by rw [h]; exact List.mem_cons_self)
    rw [List.cons_append, scan, if_neg hc, ih (fun h => hu (List.mem_cons_of_mem c h))]
    simp

/-- A quotation is one token, with its quotes, and the text behind it starts a
new token. -/
theorem scan_quoted {q : Char} (hq : q ∈ quotes) {u : Str} (hu : q ∉ u) (cs : Str) :
    scan .blank [] (q :: u ++ q :: cs) = (scan .blank [] cs).map ((q :: u ++ [q]) :: ·) := by
  have hw : q ∉ whitespace := by
    have : ∀ c ∈ quotes, c ∉ whitespace := by decide
    exact this q hq
  rw [List.cons_append, scan, if_neg hw, if_pos hq, scan_quote hu, scan, if_pos rfl]
  rfl

/-- The fields of a text: the nonempty pieces between the white space. -/
def fields (s : Str) : List Str := (s.splitOnP (· ∈ whitespace)).filter (· ≠ [])

private theorem scan_word_eq_fields {cs : Str} (hq : ∀ c ∈ cs, c ∉ quotes) :
    scan .blank [] cs = some (fields cs) ∧
      ∀ token : Str, token ≠ [] → (∀ c ∈ token, c ∉ whitespace) →
        scan .word token cs = some (fields (token ++ cs)) := by
  induction cs with
  | nil =>
    refine ⟨rfl, fun token hne hw => ?_⟩
    rw [List.append_nil, fields, List.splitOnP_eq_singleton (by simpa using hw)]
    simp [scan, hne]
  | cons c cs ih =>
    obtain ⟨ihb, ihw⟩ := ih (fun d hd => hq d (List.mem_cons_of_mem c hd))
    have hcq : c ∉ quotes := hq c List.mem_cons_self
    by_cases hcw : c ∈ whitespace
    · constructor
      · rw [scan, if_pos hcw, ihb, fields, fields, List.splitOnP_cons_eq_if_modifyHead,
          if_pos (by simpa using hcw)]
        simp
      · intro token hne hw
        rw [scan, if_pos hcw, ihb, fields, fields,
          List.splitOnP_append_cons_of_forall_mem (by simpa using hw) c (by simpa using hcw)]
        simp [hne]
    · constructor
      · rw [scan, if_neg hcw, if_neg hcq, ihw [c] (by simp) (by simpa using hcw)]
        rfl
      · intro token hne hw
        rw [scan, if_neg hcw, ihw (token ++ [c]) (by simp) ?_]
        · simp
        · intro d hd
          rcases List.mem_append.mp hd with h | h
          · exact hw d h
          · rw [List.mem_singleton.mp h]
            exact hcw

/-- A text without quotes is cut at its white space, and the lexer does not
raise. -/
theorem scan_eq_fields {cs : Str} (hq : ∀ c ∈ cs, c ∉ quotes) :
    scan .blank [] cs = some (fields cs) :=
  (scan_word_eq_fields hq).1

/-- The characters of a field are characters of the text. -/
theorem mem_of_mem_fields {s w : Str} (h : w ∈ fields s) {c : Char} (hc : c ∈ w) : c ∈ s :=
  (of_mem_piece (List.mem_filter.mp h).1 hc).1

/-- A field has no white space. -/
theorem notMem_whitespace_of_mem_fields {s w : Str} (h : w ∈ fields s) :
    ∀ c ∈ w, c ∉ whitespace := by
  intro c hc
  simpa using (of_mem_piece (List.mem_filter.mp h).1 hc).2

/-- The fields, joined with single blanks, are no longer than the text. -/
theorem length_join_fields_le (s : Str) : (join [' '] (fields s)).length ≤ s.length := by
  have h := length_join_filter_le (· ≠ []) ' ' (s.splitOnP (· ∈ whitespace))
  rwa [length_join_splitOnP] at h

/-- The words of a list that are joined with single blanks come back when none
of them is empty or has white space. -/
theorem fields_join {ws : List Str} (hne : ∀ w ∈ ws, w ≠ [])
    (hw : ∀ w ∈ ws, ∀ c ∈ w, c ∉ whitespace) : fields (join [' '] ws) = ws := by
  induction ws with
  | nil => rfl
  | cons w ws ih =>
    have hwne : w ≠ [] := hne w List.mem_cons_self
    have hww : ∀ c ∈ w, c ∉ whitespace := hw w List.mem_cons_self
    have ih' := ih (fun v hv => hne v (List.mem_cons_of_mem w hv))
      (fun v hv => hw v (List.mem_cons_of_mem w hv))
    cases ws with
    | nil =>
      rw [join, List.intercalate_singleton, fields,
        List.splitOnP_eq_singleton (by simpa using hww)]
      simp [hwne]
    | cons v ws =>
      rw [fields, join] at ih'
      rw [join, List.intercalate_cons_cons, fields, List.append_assoc, List.singleton_append,
        List.splitOnP_append_cons_of_forall_mem (by simpa using hww) ' ' (by decide),
        List.filter_cons_of_pos (by simpa using hwne), ih']

/-- The lexer finds no token exactly in white space. -/
theorem scan_eq_nil_iff {cs : Str} :
    scan .blank [] cs = some [] ↔ ∀ c ∈ cs, c ∈ whitespace := by
  have hword : ∀ (l token : Str), scan .word token l ≠ some [] := by
    intro l
    induction l with
    | nil => simp [scan]
    | cons d l ih =>
      intro token
      rw [scan]
      split_ifs
      · simp
      · exact ih _
  have hquote : ∀ (l token : Str) (q : Char), scan (.quote q) token l ≠ some [] := by
    intro l
    induction l with
    | nil => simp [scan]
    | cons d l ih =>
      intro token q
      rw [scan]
      split_ifs
      · simp
      · exact ih _ _
  induction cs with
  | nil => simp [scan]
  | cons c cs ih =>
    rw [scan]
    split_ifs with h1 h2
    · exact ih.trans (by simp [h1])
    · exact iff_of_false (hquote cs [c] c) (fun h => h1 (h c List.mem_cons_self))
    · exact iff_of_false (hword cs [c]) (fun h => h1 (h c List.mem_cons_self))

end PtsTools.Python.Shlex
