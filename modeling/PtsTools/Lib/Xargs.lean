import Mathlib.Data.List.Count

/-!
# The items that `xargs` reads

`xargs` cuts its input at white space, and quotes and backslashes protect what they
stand in front of.  An input of one name a line is therefore not read as these names in
general.  `xargs_unlines_iff` says when it is: no name has a blank, a quote or a
backslash in it, or white space at its front.  `count_xargs` holds of any names: a
character with no meaning for `xargs` is neither lost nor repeated, as long as the quotes
match.
-/

namespace PtsTools.Lib.Xargs

/-- A text. -/
abbrev Text := List Char

/-! ## Reading -/

/-- `isblank` -/
def blanks : List Char := [' ', '\t']

/-- `isspace` -/
def spaces : List Char := [' ', '\t', '\n', '\r', '\x0b', '\x0c']

/-- The characters that protect others. -/
def protectors : List Char := ['\'', '"', '\\']

/-- Where the reader stands: between items, in one, behind an opening quote, or behind a
backslash. -/
inductive State
  | space
  | item
  | quote (q : Char)
  | backslash
  deriving DecidableEq, Repr

/-- What a character does: the reader goes on with an item, the item is complete, or the
line ends inside quotes. -/
inductive Next
  | go (st : State) (token : Text)
  | complete
  | unmatched
  deriving DecidableEq, Repr

/-- The state behind a character that protects others. -/
def protect (c : Char) : State := if c = '\\' then .backslash else .quote c

/-- One character, with the item that was begun. -/
def next (st : State) (token : Text) (c : Char) : Next :=
  match st with
  | .space =>
    if c ∈ spaces then .go .space token
    else if c ∈ protectors then .go (protect c) token
    else .go .item (token ++ [c])
  | .item =>
    if c = '\n' ∨ c ∈ blanks then .complete
    else if c ∈ protectors then .go (protect c) token
    else .go .item (token ++ [c])
  | .quote q =>
    if c = '\n' then .unmatched
    else if c = q then .go .item token
    else .go (.quote q) (token ++ [c])
  | .backslash => .go .item (token ++ [c])

/-- What was read: the items, and whether the quotes match.  Where they do not, the items
in front are used still. -/
structure Items where
  items : List Text
  matched : Bool
  deriving DecidableEq, Repr

/-- One more item at the front. -/
def Items.cons (token : Text) (r : Items) : Items := { r with items := token :: r.items }

/-- The end of the input. -/
def atEnd (st : State) (token : Text) : Items :=
  if token = [] then { items := [], matched := true }
  else
    match st with
    | .quote _ => { items := [], matched := false }
    | _ => { items := [token], matched := true }

/-- The items of a text, from a state of the reader. -/
def read (st : State) (token : Text) : Text → Items
  | [] => atEnd st token
  | c :: cs =>
    match next st token c with
    | .go st' token' => read st' token' cs
    | .complete => (read .space [] cs).cons token
    | .unmatched => { items := [], matched := false }

/-- The items of an input. -/
def xargs (input : Text) : Items := read .space [] input

/-- Some lines. -/
def unlines (lines : List Text) : Text := lines.flatMap (· ++ ['\n'])

@[simp] theorem Items.cons_items (token : Text) (r : Items) :
    (r.cons token).items = token :: r.items := rfl

@[simp] theorem Items.cons_matched (token : Text) (r : Items) :
    (r.cons token).matched = r.matched := rfl

/-! ## One character -/

section

variable {st st' : State} {token token' cs : Text} {c : Char}

theorem space_of_blank (h : c ∈ blanks) : c ∈ spaces ∧ c ∉ protectors := by
  unfold blanks at h
  simp only [List.mem_cons, List.not_mem_nil, or_false] at h
  rcases h with rfl | rfl
  · decide
  · decide

theorem no_space_of_protector (h : c ∈ protectors) :
    c ∉ spaces ∧ ¬ (c = '\n' ∨ c ∈ blanks) := by
  unfold protectors at h
  simp only [List.mem_cons, List.not_mem_nil, or_false] at h
  rcases h with rfl | rfl | rfl
  · decide
  · decide
  · decide

theorem read_go (h : next st token c = .go st' token') (cs : Text) :
    read st token (c :: cs) = read st' token' cs := by
  rw [read, h]

theorem read_complete (h : next st token c = .complete) (cs : Text) :
    read st token (c :: cs) = (read .space [] cs).cons token := by
  rw [read, h]

theorem read_unmatched (h : next st token c = .unmatched) (cs : Text) :
    read st token (c :: cs) = { items := [], matched := false } := by
  rw [read, h]

/-- What opened the quotes is a quote. -/
def State.Proper : State → Prop
  | .quote q => q ∈ protectors
  | _ => True

theorem proper_protect (hc : c ∈ protectors) : (protect c).Proper := by
  unfold protect
  split_ifs
  · trivial
  · exact hc

/-- A character is dropped, which only white space and protectors are, or it joins the
item. -/
theorem next_go (hst : st.Proper) (h : next st token c = .go st' token') :
    st'.Proper ∧
      ((token' = token ∧ (c ∈ spaces ∨ c ∈ protectors)) ∨ token' = token ++ [c]) := by
  cases st with
  | space =>
    unfold next at h
    dsimp only at h
    split_ifs at h with hspace hprotect
    · cases h
      exact ⟨trivial, Or.inl ⟨rfl, Or.inl hspace⟩⟩
    · cases h
      exact ⟨proper_protect hprotect, Or.inl ⟨rfl, Or.inr hprotect⟩⟩
    · cases h
      exact ⟨trivial, Or.inr rfl⟩
  | item =>
    unfold next at h
    dsimp only at h
    split_ifs at h with hblank hprotect
    · cases h
      exact ⟨proper_protect hprotect, Or.inl ⟨rfl, Or.inr hprotect⟩⟩
    · cases h
      exact ⟨trivial, Or.inr rfl⟩
  | quote q =>
    unfold next at h
    dsimp only at h
    split_ifs at h with hline hquote
    · cases h
      exact ⟨trivial, Or.inl ⟨rfl, Or.inr (hquote ▸ hst)⟩⟩
    · cases h
      exact ⟨hst, Or.inr rfl⟩
  | backslash =>
    cases h
    exact ⟨trivial, Or.inr rfl⟩

/-- An item is complete in front of a blank or at the end of the line. -/
theorem next_complete (h : next st token c = .complete) :
    st = .item ∧ c ∈ spaces ∧ c ∉ protectors := by
  cases st with
  | space =>
    unfold next at h
    dsimp only at h
    split_ifs at h
  | item =>
    unfold next at h
    dsimp only at h
    split_ifs at h with hblank
    rcases hblank with rfl | hblank
    · exact ⟨rfl, by decide⟩
    · exact ⟨rfl, space_of_blank hblank⟩
  | quote q =>
    unfold next at h
    dsimp only at h
    split_ifs at h
  | backslash => cases h

/-! ## What is kept of the characters -/

/-- A character with no meaning for `xargs` is kept. -/
theorem count_read (hspace : c ∉ spaces) (hprotect : c ∉ protectors) (hst : st.Proper)
    (token : Text) (hmatched : (read st token cs).matched = true) :
    (read st token cs).items.flatten.count c = token.count c + cs.count c := by
  induction cs generalizing st token with
  | nil =>
    show (atEnd st token).items.flatten.count c = token.count c + 0
    change (atEnd st token).matched = true at hmatched
    unfold atEnd at hmatched ⊢
    split_ifs at hmatched ⊢ with hnil
    · rw [hnil]
      rfl
    · cases st with
      | quote q => cases hmatched
      | space => simp
      | item => simp
      | backslash => simp
  | cons d cs ih =>
    cases hnext : next st token d with
    | go st' token' =>
      rw [read_go hnext] at hmatched ⊢
      obtain ⟨hst', htoken⟩ := next_go hst hnext
      rw [ih hst' token' hmatched]
      rcases htoken with ⟨rfl, hd⟩ | rfl
      · have hne : d ≠ c := by
          rintro rfl
          exact hd.elim hspace hprotect
        rw [List.count_cons_of_ne hne]
      · rw [List.count_append, List.count_cons, List.count_cons, List.count_nil]
        omega
    | complete =>
      rw [read_complete hnext] at hmatched ⊢
      have hne : d ≠ c := by
        rintro rfl
        exact hspace (next_complete hnext).2.1
      have hrest := ih (show State.space.Proper from trivial) [] hmatched
      rw [Items.cons_items, List.flatten_cons, List.count_append, hrest,
        List.count_cons_of_ne hne, List.count_nil, Nat.zero_add]
    | unmatched =>
      rw [read_unmatched hnext] at hmatched
      cases hmatched

/-- No protector is repeated. -/
theorem countP_read_le (hst : st.Proper) (token cs : Text) :
    (read st token cs).items.flatten.countP (· ∈ protectors) ≤
      token.countP (· ∈ protectors) + cs.countP (· ∈ protectors) := by
  induction cs generalizing st token with
  | nil =>
    show (atEnd st token).items.flatten.countP (· ∈ protectors) ≤ _
    unfold atEnd
    split_ifs
    · exact Nat.zero_le _
    · cases st with
      | quote q => exact Nat.zero_le _
      | space => simp
      | item => simp
      | backslash => simp
  | cons d cs ih =>
    cases hnext : next st token d with
    | go st' token' =>
      rw [read_go hnext]
      obtain ⟨hst', htoken⟩ := next_go hst hnext
      have hrest := ih hst' token'
      rcases htoken with ⟨rfl, -⟩ | rfl
      · rw [List.countP_cons]
        omega
      · rw [List.countP_append, List.countP_singleton] at hrest
        rw [List.countP_cons]
        omega
    | complete =>
      rw [read_complete hnext, Items.cons_items, List.flatten_cons, List.countP_append,
        List.countP_cons]
      have hrest := ih (show State.space.Proper from trivial) []
      rw [List.countP_nil] at hrest
      omega
    | unmatched =>
      rw [read_unmatched hnext]
      exact Nat.zero_le _

/-- Outside quotes, and not behind a backslash. -/
def State.Open (st : State) : Prop := st = .space ∨ st = .item

theorem State.Open.proper (h : st.Open) : st.Proper := by
  rcases h with rfl | rfl
  · trivial
  · trivial

theorem next_protector (hst : st.Open) (hc : c ∈ protectors) (token : Text) :
    next st token c = .go (protect c) token := by
  obtain ⟨hspace, hend⟩ := no_space_of_protector hc
  unfold next
  rcases hst with rfl | rfl
  · exact (if_neg hspace).trans (if_pos hc)
  · exact (if_neg hend).trans (if_pos hc)

theorem next_other (hst : st.Open) (hc : c ∉ protectors) (token : Text) :
    next st token c = .complete ∨ ∃ st' token', st'.Open ∧ next st token c = .go st' token' := by
  unfold next
  rcases hst with rfl | rfl
  · right
    dsimp only
    split_ifs
    · exact ⟨_, _, Or.inl rfl, rfl⟩
    · exact ⟨_, _, Or.inr rfl, rfl⟩
  · dsimp only
    split_ifs
    · exact Or.inl rfl
    · exact Or.inr ⟨_, _, Or.inr rfl, rfl⟩

/-- The first protector is lost. -/
theorem countP_read_lt (hst : st.Open) (token : Text) (h : ∃ c ∈ cs, c ∈ protectors) :
    (read st token cs).items.flatten.countP (· ∈ protectors) <
      token.countP (· ∈ protectors) + cs.countP (· ∈ protectors) := by
  induction cs generalizing st token with
  | nil =>
    obtain ⟨c, hc, -⟩ := h
    exact absurd hc List.not_mem_nil
  | cons d cs ih =>
    by_cases hd : d ∈ protectors
    · have hnext := next_protector hst hd token
      have hle := countP_read_le (proper_protect hd) token cs
      rw [read_go hnext, List.countP_cons_of_pos (by simpa using hd)]
      omega
    · have hrest : ∃ c ∈ cs, c ∈ protectors := by
        obtain ⟨c, hc, hprotect⟩ := h
        rcases List.mem_cons.mp hc with rfl | hc
        · exact absurd hprotect hd
        · exact ⟨c, hc, hprotect⟩
      rw [List.countP_cons_of_neg (by simpa using hd)]
      rcases next_other hst hd token with hnext | ⟨st', token', hst', hnext⟩
      · have hlt := ih (show State.space.Open from Or.inl rfl) [] hrest
        rw [List.countP_nil] at hlt
        rw [read_complete hnext, Items.cons_items, List.flatten_cons, List.countP_append]
        omega
      · have hlt := ih hst' token' hrest
        rw [read_go hnext]
        rcases (next_go hst.proper hnext).2 with ⟨rfl, -⟩ | rfl
        · exact hlt
        · rw [List.countP_append, List.countP_singleton,
            if_neg (by simpa using hd)] at hlt
          omega

/-! ## Lines -/

/-- A name that is read as it is. -/
structure Plain (name : Text) : Prop where
  ne_nil : name ≠ []
  no_blank : ∀ c ∈ name, c ∉ blanks
  no_line : '\n' ∉ name
  no_protector : ∀ c ∈ name, c ∉ protectors
  front : ∀ c ∈ name.head?, c ∉ spaces

instance : DecidablePred Plain := fun name =>
  decidable_of_iff
    (name ≠ [] ∧ name.all (· ∉ blanks) ∧ '\n' ∉ name ∧ name.all (· ∉ protectors) ∧
      name.head?.toList.all (· ∉ spaces))
    ⟨fun ⟨h1, h2, h3, h4, h5⟩ => ⟨h1, by simpa using h2, h3, by simpa using h4, by simpa using h5⟩,
      fun h => ⟨h.ne_nil, by simpa using h.no_blank, h.no_line, by simpa using h.no_protector,
        by simpa using h.front⟩⟩

/-- The part of a plain name that is left joins the item. -/
theorem read_item_line {name : Text} (hblank : ∀ c ∈ name, c ∉ blanks) (hline : '\n' ∉ name)
    (hprotect : ∀ c ∈ name, c ∉ protectors) (token cs : Text) :
    read .item token (name ++ '\n' :: cs) = (read .space [] cs).cons (token ++ name) := by
  induction name generalizing token with
  | nil =>
    have hnext : next .item token '\n' = .complete := by
      unfold next
      exact if_pos (Or.inl rfl)
    rw [List.append_nil]
    exact read_complete hnext cs
  | cons c name ih =>
    have hnext : next .item token c = .go .item (token ++ [c]) := by
      have hc : ¬ (c = '\n' ∨ c ∈ blanks) := by
        rintro (rfl | hc)
        · exact hline List.mem_cons_self
        · exact hblank c List.mem_cons_self hc
      exact (if_neg hc).trans (if_neg (hprotect c List.mem_cons_self))
    rw [List.cons_append, read_go hnext,
      ih (fun d hd => hblank d (List.mem_cons_of_mem c hd))
        (fun hd => hline (List.mem_cons_of_mem c hd))
        (fun d hd => hprotect d (List.mem_cons_of_mem c hd)),
      List.append_assoc, List.singleton_append]

/-- A plain name is the next item. -/
theorem Plain.read_line {name : Text} (h : Plain name) (cs : Text) :
    read .space [] (name ++ '\n' :: cs) = (read .space [] cs).cons name := by
  obtain ⟨hne, hblank, hline, hprotect, hfront⟩ := h
  obtain ⟨c, name, rfl⟩ := List.exists_cons_of_ne_nil hne
  have hnext : next .space [] c = .go .item [c] :=
    (if_neg (hfront c rfl)).trans (if_neg (hprotect c List.mem_cons_self))
  rw [List.cons_append, read_go hnext,
    read_item_line (fun d hd => hblank d (List.mem_cons_of_mem c hd))
      (fun hd => hline (List.mem_cons_of_mem c hd))
      (fun d hd => hprotect d (List.mem_cons_of_mem c hd))]
  rfl

/-- An item with no blank in it, and no white space at its front. -/
def Tidy (item : Text) : Prop := (∀ c ∈ item, c ∉ blanks) ∧ ∀ c ∈ item.head?, c ∉ spaces

theorem tidy_append (hne : token ≠ []) (h : Tidy token) (hc : c ∉ blanks) :
    Tidy (token ++ [c]) := by
  refine ⟨?_, ?_⟩
  · intro d hd
    rcases List.mem_append.mp hd with hd | hd
    · exact h.1 d hd
    · rw [List.mem_singleton.mp hd]
      exact hc
  · obtain ⟨d, token, rfl⟩ := List.exists_cons_of_ne_nil hne
    exact h.2

/-- Without protectors every item is tidy. -/
theorem tidy_of_mem_read {item : Text} (hcs : ∀ c ∈ cs, c ∉ protectors)
    (hst : st = .space ∧ token = [] ∨ st = .item ∧ token ≠ [] ∧ Tidy token)
    (h : item ∈ (read st token cs).items) : Tidy item := by
  induction cs generalizing st token with
  | nil =>
    change item ∈ (atEnd st token).items at h
    unfold atEnd at h
    split_ifs at h with hnil
    · cases h
    · rcases hst with ⟨-, htoken⟩ | ⟨rfl, -, htidy⟩
      · exact absurd htoken hnil
      · rw [List.mem_singleton.mp h]
        exact htidy
  | cons d cs ih =>
    have hrest : ∀ c ∈ cs, c ∉ protectors := fun c hc => hcs c (List.mem_cons_of_mem d hc)
    have hd : d ∉ protectors := hcs d List.mem_cons_self
    rcases hst with ⟨rfl, rfl⟩ | ⟨rfl, hne, htidy⟩
    · by_cases hspace : d ∈ spaces
      · have hnext : next .space [] d = .go .space [] := if_pos hspace
        rw [read_go hnext] at h
        exact ih hrest (Or.inl ⟨rfl, rfl⟩) h
      · have hnext : next .space [] d = .go .item [d] := (if_neg hspace).trans (if_neg hd)
        rw [read_go hnext] at h
        refine ih hrest (Or.inr ⟨rfl, List.cons_ne_nil d [], ?_, ?_⟩) h
        · intro c hc hblank
          rw [List.mem_singleton.mp hc] at hblank
          exact hspace (space_of_blank hblank).1
        · intro c hc
          rw [← Option.some.inj hc]
          exact hspace
    · by_cases hend : d = '\n' ∨ d ∈ blanks
      · have hnext : next .item token d = .complete := if_pos hend
        rw [read_complete hnext, Items.cons_items] at h
        rcases List.mem_cons.mp h with rfl | h
        · exact htidy
        · exact ih hrest (Or.inl ⟨rfl, rfl⟩) h
      · have hnext : next .item token d = .go .item (token ++ [d]) :=
          (if_neg hend).trans (if_neg hd)
        rw [read_go hnext] at h
        refine ih hrest (Or.inr ⟨rfl, by simp, ?_⟩) h
        exact tidy_append hne htidy fun hblank => hend (Or.inr hblank)

end

/-- Plain names are read as they are. -/
theorem xargs_unlines {lines : List Text} (h : ∀ name ∈ lines, Plain name) :
    xargs (unlines lines) = { items := lines, matched := true } := by
  induction lines with
  | nil => rfl
  | cons name lines ih =>
    have hrest := ih fun name' hname' => h name' (List.mem_cons_of_mem name hname')
    unfold xargs unlines at hrest ⊢
    rw [List.flatMap_cons, List.append_assoc, List.singleton_append,
      (h name List.mem_cons_self).read_line, hrest]
    rfl

/-- Other characters than the ends of the lines are those of the names. -/
theorem countP_unlines {p : Char → Bool} (hp : p '\n' = false) (lines : List Text) :
    (unlines lines).countP p = lines.flatten.countP p := by
  induction lines with
  | nil => rfl
  | cons name lines ih =>
    unfold unlines at ih ⊢
    rw [List.flatMap_cons, List.countP_append, List.countP_append, List.countP_singleton, ih, hp,
      List.flatten_cons, List.countP_append]
    rfl

/-- The items are the names exactly if every name is plain. -/
theorem xargs_unlines_iff {lines : List Text} (hne : ∀ name ∈ lines, name ≠ [])
    (hline : ∀ name ∈ lines, '\n' ∉ name) :
    (xargs (unlines lines)).items = lines ↔ ∀ name ∈ lines, Plain name := by
  constructor
  · intro h
    unfold xargs at h
    have hprotect : ∀ c ∈ unlines lines, c ∉ protectors := by
      intro c hc hcp
      have hlt := countP_read_lt (show State.space.Open from Or.inl rfl) []
        ⟨c, hc, hcp⟩
      rw [h, countP_unlines (by decide), List.countP_nil] at hlt
      omega
    intro name hname
    have htidy : Tidy name := by
      apply tidy_of_mem_read hprotect (Or.inl ⟨rfl, rfl⟩)
      rw [h]
      exact hname
    refine ⟨hne name hname, htidy.1, hline name hname, ?_, htidy.2⟩
    intro c hc
    exact hprotect c (List.mem_flatMap.mpr ⟨name, hname, List.mem_append_left _ hc⟩)
  · intro h
    rw [xargs_unlines h]

/-- A character with no meaning for `xargs` occurs in the items as often as in the
names. -/
theorem count_xargs {c : Char} (hspace : c ∉ spaces) (hprotect : c ∉ protectors)
    {lines : List Text} (hmatched : (xargs (unlines lines)).matched = true) :
    (xargs (unlines lines)).items.flatten.count c = lines.flatten.count c := by
  have h := count_read hspace hprotect (show State.space.Proper from trivial) [] hmatched
  have hline : ('\n' == c) = false := by
    apply beq_false_of_ne
    rintro rfl
    exact hspace (by decide)
  rw [List.count_nil, Nat.zero_add] at h
  exact h.trans (countP_unlines hline lines)

end PtsTools.Lib.Xargs
