import PtsTools.Lib.Replace
import PtsTools.Xmltt.Model

/-!
# Which element `parse_xml` finds

The search tag is made of the tag of the root up to its first `}`.  If the root is in
a namespace whose name has no `}`, that is the part in front of the name, and the
search finds the element that is meant: `firstIn_eq_meant`.  If the root is in no
namespace, its tag has no `}`, and the search finds nothing: `find_none`.  The summary
of the texts is right in any case: `summarises_reportRows`.
-/

namespace PtsTools.Xmltt

open PtsTools.Python PtsTools.Lib.Replace

/-! ## The search tag -/

/-- The name of a namespace up to its first `}`. -/
def Uri.cut (uri : Uri) : Str := uri.text.takeWhile (· ≠ '}')

/-- `s.split("}")[0]` is the text up to the first `}`. -/
theorem headD_split (s : Str) : (s.splitOnP (· = '}')).headD [] = s.takeWhile (· ≠ '}') := by
  rw [List.headD_eq_head?_getD, head?_splitOnP]
  simp

theorem takeWhile_tag (u s : Str) :
    (u ++ '}' :: s).takeWhile (· ≠ '}') = u.takeWhile (· ≠ '}') := by
  induction u with
  | nil => rfl
  | cons c u ih =>
    by_cases hc : c = '}'
    · simp [hc]
    · simpa [hc] using ih

/-- For a root in a namespace, the search tag begins with it, as far as its first `}`. -/
theorem ns_some {root : Element} {uri : Uri} (h : root.name.uri = some uri) :
    ns root = '{' :: (uri.cut ++ ['}']) := by
  rw [ns, headD_split, QName.tag, h]
  simp only []
  rw [List.takeWhile_cons_of_pos (by decide), takeWhile_tag]
  rfl

/-- For a root in no namespace, it begins with the name of the root. -/
theorem ns_none {root : Element} (h : root.name.uri = none) :
    ns root = root.name.name.text ++ ['}'] := by
  have hname : root.name.name.text.takeWhile (· ≠ '}') = root.name.name.text := by
    apply List.takeWhile_eq_self_iff.mpr
    intro c hc
    have hne : c ≠ '}' := fun heq => root.name.name.no_close (heq ▸ hc)
    simp [hne]
  rw [ns, headD_split, QName.tag, h]
  simp only []
  rw [hname]

/-- A tag in a namespace tells the namespace and the name. -/
theorem tag_eq_iff (q : QName) (u : Str) (t : LocalName) :
    q.tag = '{' :: (u ++ '}' :: t.text) ↔ q.uri.map Uri.text = some u ∧ q.name.text = t.text := by
  rcases q with ⟨_ | uri, name⟩
  · apply iff_of_false
    · intro h
      have htag : name.text = '{' :: (u ++ '}' :: t.text) := h
      exact name.no_open (by rw [htag]; exact List.mem_cons_self)
    · intro h
      exact absurd h.1 (by simp)
  · constructor
    · intro h
      have htag := append_separator_inj name.no_close t.no_close (List.cons.inj h).2
      exact ⟨congrArg some htag.1, htag.2⟩
    · intro h
      show '{' :: (uri.text ++ '}' :: name.text) = _
      rw [Option.some.inj h.1, h.2]

/-- No tag has a `}` behind a name without a namespace. -/
theorem tag_ne (q : QName) (r t : LocalName) : q.tag ≠ r.text ++ '}' :: t.text := by
  intro h
  rcases q with ⟨_ | uri, name⟩
  · have htag : name.text = r.text ++ '}' :: t.text := h
    exact name.no_close (by rw [htag]; exact List.mem_append_right _ List.mem_cons_self)
  · have htag : '{' :: (uri.text ++ '}' :: name.text) = r.text ++ '}' :: t.text := h
    rcases List.exists_cons_of_ne_nil r.ne_nil with ⟨c, s, hr⟩
    rw [hr] at htag
    exact r.no_open (by rw [hr, ← (List.cons.inj htag).1]; exact List.mem_cons_self)

/-! ## The search -/

/-- The first element below the root with a name in a namespace. -/
def firstIn (root : Element) (u : Str) (t : LocalName) : Option Element :=
  root.descendants.find? fun e =>
    e.name.uri.map Uri.text = some u ∧ e.name.name.text = t.text

/-- If the root is in a namespace, the search is for the name in the namespace up to
its first `}`. -/
theorem find_some {root : Element} {uri : Uri} (h : root.name.uri = some uri) (t : LocalName) :
    root.find (ns root ++ t.text) = firstIn root uri.cut t := by
  unfold Element.find firstIn
  rw [ns_some h, List.cons_append, List.append_assoc]
  congr 1
  funext e
  rw [decide_eq_decide]
  exact tag_eq_iff e.name uri.cut t

/-- If the root is in no namespace, nothing is found. -/
theorem find_none {root : Element} (h : root.name.uri = none) (t : LocalName) :
    root.find (ns root ++ t.text) = none := by
  rw [ns_none h, List.append_assoc]
  apply List.find?_eq_none.mpr
  intro e _
  rw [decide_eq_true_eq]
  exact tag_ne e.name root.name.name t

theorem qname_eq_iff (q : QName) (uri : Uri) (t : LocalName) :
    q = { uri := some uri, name := t } ↔
      q.uri.map Uri.text = some uri.text ∧ q.name.text = t.text := by
  constructor
  · intro h
    rw [h]
    exact ⟨rfl, rfl⟩
  · intro h
    rcases q with ⟨_ | ⟨u, hu⟩, ⟨n, hn, ho, hc⟩⟩
    · exact absurd h.1 (by simp)
    · rcases uri with ⟨u', hu'⟩
      rcases t with ⟨n', hn', ho', hc'⟩
      have hu : u = u' := Option.some.inj h.1
      have hn : n = n' := h.2
      subst hu hn
      rfl

/-- In a namespace without `}` the search is for what is meant. -/
theorem firstIn_eq_meant {root : Element} {uri : Uri} (h : root.name.uri = some uri)
    (huri : '}' ∉ uri.text) (t : LocalName) : firstIn root uri.cut t = meant root t := by
  have hcut : uri.cut = uri.text := by
    apply List.takeWhile_eq_self_iff.mpr
    intro c hc
    have hne : c ≠ '}' := fun heq => huri (heq ▸ hc)
    simp [hne]
  unfold firstIn meant
  rw [hcut, h]
  congr 1
  funext e
  rw [decide_eq_decide]
  exact (qname_eq_iff e.name uri t).symm

/-! ## The summary -/

/-- The loop ends early exactly if a text is different. -/
theorem scan_eq (rows : List (Option Str)) (val : Option Str) (rest : List (Option Str)) :
    scan rows val rest = if ∀ r ∈ rest, r = val then none else some (.rows rows) := by
  induction rest with
  | nil => simp [scan]
  | cons i rest ih =>
    rw [scan, ih]
    by_cases hi : i = val
    · simp [hi]
    · simp [hi]

/-- The report says what the texts are. -/
theorem summarises_reportRows (rows : List (Option Str)) : Summarises rows (reportRows rows) := by
  cases rows with
  | nil => exact ⟨rfl, fun v h => h.1 rfl⟩
  | cons val rest =>
    rw [reportRows, scan_eq]
    by_cases hall : ∀ r ∈ val :: rest, r = val
    · rw [if_pos hall]
      exact ⟨List.cons_ne_nil _ _, hall⟩
    · rw [if_neg hall]
      refine ⟨rfl, ?_⟩
      intro v h
      apply hall
      intro r hr
      rw [h.2 r hr, h.2 val List.mem_cons_self]

/-- Two lists of texts with the same report. -/
def SameTexts (rows rows' : List (Option Str)) : Prop :=
  rows = rows' ∨ ∃ v, AllSame rows v ∧ AllSame rows' v

theorem AllSame.unique {rows : List (Option Str)} {v w : Option Str} (hv : AllSame rows v)
    (hw : AllSame rows w) : v = w := by
  rcases List.exists_mem_of_ne_nil rows hv.1 with ⟨r, hr⟩
  rw [← hv.2 r hr, ← hw.2 r hr]

theorem summarises_iff (rows rows' : List (Option Str)) :
    Summarises rows (reportRows rows') ↔ SameTexts rows rows' := by
  have hself := summarises_reportRows rows'
  cases h : reportRows rows' with
  | value v =>
    rw [h] at hself
    constructor
    · intro hsame
      exact Or.inr ⟨v, hsame, hself⟩
    · intro hsame
      rcases hsame with heq | ⟨w, hw, hw'⟩
      · rw [heq]
        exact hself
      · rw [AllSame.unique hself hw']
        exact hw
  | rows l =>
    rw [h] at hself
    rcases hself with ⟨rfl, hnone⟩
    constructor
    · intro hsame
      exact Or.inl hsame.1.symm
    · intro hsame
      rcases hsame with heq | ⟨w, -, hw'⟩
      · rw [heq]
        exact ⟨rfl, hnone⟩
      · exact absurd hw' (hnone w)

/-! ## `parse_xml` -/

/-- There is neither of two elements, or their children have the same texts. -/
def Alike : Option Element → Option Element → Prop
  | none, none => True
  | some e, some e' => SameTexts e.children.texts e'.children.texts
  | _, _ => False

theorem alike_self (e : Option Element) : Alike e e := by
  cases e with
  | none => trivial
  | some e => exact Or.inl rfl

/-- A run meets its purpose if the element it finds is like the one that is meant. -/
theorem meets_iff {root : Element} {t : LocalName} :
    Meets root t (parseXml root t.text) ↔
      Alike (meant root t) (root.find (ns root ++ t.text)) := by
  unfold Meets parseXml
  cases meant root t with
  | none =>
    cases root.find (ns root ++ t.text) with
    | none => exact iff_of_true ⟨rfl, rfl⟩ trivial
    | some e => exact iff_of_false (fun h => absurd h.1 (by simp)) id
  | some e =>
    cases root.find (ns root ++ t.text) with
    | none => exact iff_of_false (fun h => absurd h.1 (by simp)) id
    | some e' =>
      refine Iff.trans ?_ (summarises_iff _ _)
      constructor
      · intro h
        rcases h.2 with ⟨r, hr, hsum⟩
        rw [List.singleton_inj.mp hr]
        exact hsum
      · intro h
        exact ⟨rfl, _, rfl, h⟩

/-- The root is in a namespace without `}`, or it makes no difference. -/
def Findable (root : Element) (t : LocalName) : Prop :=
  match root.name.uri with
  | none => meant root t = none
  | some uri => '}' ∉ uri.text ∨ Alike (meant root t) (firstIn root uri.cut t)

/-- `parse_xml` finds and reports what is meant exactly if the namespace of the root
does not get in the way. -/
theorem parseXml_iff (root : Element) (t : LocalName) :
    Meets root t (parseXml root t.text) ↔ Findable root t := by
  rw [meets_iff, Findable]
  cases h : root.name.uri with
  | none =>
    rw [find_none h]
    cases meant root t with
    | none => exact iff_of_true trivial rfl
    | some e => exact iff_of_false id (by simp)
  | some uri =>
    rw [find_some h]
    constructor
    · exact Or.inr
    · intro hfind
      rcases hfind with huri | halike
      · rw [firstIn_eq_meant h huri]
        exact alike_self _
      · exact halike

/-- The name `a`. -/
def nameA : LocalName := ⟨"a".toList, by decide, by decide, by decide⟩

/-- The name `b`. -/
def nameB : LocalName := ⟨"b".toList, by decide, by decide, by decide⟩

/-- `<a><b>x</b></a>` -/
def elementA : Element :=
  .mk ⟨none, nameA⟩ none (.cons (.mk ⟨none, nameB⟩ (some "x".toList) .nil) .nil)

/-- In `<b><a><b>x</b></a></b>`, which has no namespace, the element `a` is not found. -/
theorem not_meets_plain :
    (parseXml (.mk ⟨none, nameB⟩ none (.cons elementA .nil)) nameA.text).exit = some 1 ∧
      ¬ Meets (.mk ⟨none, nameB⟩ none (.cons elementA .nil)) nameA
        (parseXml (.mk ⟨none, nameB⟩ none (.cons elementA .nil)) nameA.text) := by
  have hexit :
      (parseXml (.mk ⟨none, nameB⟩ none (.cons elementA .nil)) nameA.text).exit = some 1 := by
    decide
  refine ⟨hexit, ?_⟩
  intro h
  have hmeant : meant (.mk ⟨none, nameB⟩ none (.cons elementA .nil)) nameA = some elementA := rfl
  rw [Meets, hmeant] at h
  rw [h.1] at hexit
  exact absurd hexit (by decide)

end PtsTools.Xmltt
