import PtsTools.Lib.Replace
import PtsTools.Python.Str

/-!
# `ntpath.normpath`

The listener runs on Windows, where `os.path` is `ntpath`.  `splitdrive` and
`normpath` follow the Python text of that module.

`normLoop` is the loop over the components.  Python deletes from the list that
it walks; here the components kept so far are a stack, with the last one on top.
`normLoop_plain` says that plain components all stay, and `normpath_relative`
reads the whole function off a text that has neither a drive nor a leading
separator.
-/

namespace PtsTools.Python.Ntpath

open PtsTools.Lib.Replace

/-- `p.find(sep, start)` for the separator of the module. -/
def findSep (p : Str) (start : Nat) : Option Nat :=
  ((p.drop start).findIdx? (· = '\\')).map (start + ·)

/-- The prefix that starts a UNC path of the long form. -/
def uncPrefix : Str := "\\\\?\\UNC\\".toList

/-- `splitdrive(p)`. -/
def splitdrive (p : Str) : Str × Str :=
  if 2 ≤ p.length then
    let normp := replaceChar '/' '\\' p
    if normp.take 2 = ['\\', '\\'] then
      let start := if (normp.take 8).map Char.toUpper = uncPrefix then 8 else 2
      match findSep normp start with
      | none => (p, [])
      | some index =>
        match findSep normp (index + 1) with
        | none => (p, [])
        | some index2 => (p.take index2, p.drop index2)
    else if (normp.drop 1).take 1 = [':'] then (p.take 2, p.drop 2)
    else ([], p)
  else ([], p)

/-- The loop of `normpath` over the components.  `rooted` is
`prefix.endswith(sep)`, and the first list holds the components kept so far, the
last one first. -/
def normLoop (rooted : Bool) : List Str → List Str → List Str
  | kept, [] => kept.reverse
  | kept, comp :: comps =>
    if comp = [] ∨ comp = ['.'] then normLoop rooted kept comps
    else if comp = ['.', '.'] then
      match kept with
      | top :: kept' =>
        if top ≠ ['.', '.'] then normLoop rooted kept' comps
        else normLoop rooted (comp :: kept) comps
      | [] => if rooted then normLoop rooted [] comps else normLoop rooted [comp] comps
    else normLoop rooted (comp :: kept) comps

/-- `normpath(path)`. -/
def normpath (path : Str) : Str :=
  let p := replaceChar '/' '\\' path
  let (drive, rest) := splitdrive p
  let (pre, rest) :=
    if rest.head? = some '\\' then (drive ++ ['\\'], rest.dropWhile (· = '\\'))
    else (drive, rest)
  let comps := normLoop (pre.getLast? = some '\\') [] (rest.splitOn '\\')
  let comps := if pre = [] ∧ comps = [] then [['.']] else comps
  pre ++ join ['\\'] comps

/-- A component that `normpath` keeps as it is. -/
def Plain (c : Str) : Prop := c ≠ [] ∧ c ≠ ['.'] ∧ c ≠ ['.', '.']

theorem normLoop_cons_of_plain {rooted : Bool} {kept : List Str} {c : Str} (hc : Plain c)
    (cs : List Str) : normLoop rooted kept (c :: cs) = normLoop rooted (c :: kept) cs := by
  obtain ⟨h1, h2, h3⟩ := hc
  cases kept <;> simp [normLoop, h1, h2, h3]

/-- Plain components are all kept. -/
theorem normLoop_plain {rooted : Bool} {kept cs : List Str} (h : ∀ c ∈ cs, Plain c)
    (rest : List Str) :
    normLoop rooted kept (cs ++ rest) = normLoop rooted (cs.reverse ++ kept) rest := by
  induction cs generalizing kept with
  | nil => rfl
  | cons c cs ih =>
    rw [List.cons_append, normLoop_cons_of_plain (h c List.mem_cons_self),
      ih (fun d hd => h d (List.mem_cons_of_mem c hd))]
    simp

/-- What the loop keeps of plain components in front of one more: a component that
names nothing new is dropped, and `..` takes the last plain one with it. -/
theorem normLoop_concat {rooted : Bool} {cs : List Str} (h : ∀ c ∈ cs, Plain c)
    (hne : cs ≠ []) (d : Str) :
    normLoop rooted [] (cs ++ [d]) =
      if d = [] ∨ d = ['.'] then cs else if d = ['.', '.'] then cs.dropLast else cs ++ [d] := by
  rw [normLoop_plain h, List.append_nil]
  obtain ⟨init, last, rfl⟩ := (List.eq_nil_or_concat' cs).resolve_left hne
  have hlast : last ≠ ['.', '.'] := (h last (by simp)).2.2
  have hrev : (init ++ [last]).reverse = last :: init.reverse := by simp
  rw [hrev]
  split_ifs with h1 h2
  · simp [normLoop, h1]
  · subst h2
    simp [normLoop, hlast]
  · simp [normLoop, h1, h2]

/-- A text that starts with two characters that are no separator and no colon
has no drive. -/
theorem splitdrive_relative {a b : Char} (ha : a ≠ '\\') (ha' : a ≠ '/') (hb : b ≠ ':')
    (p : Str) : splitdrive (a :: b :: p) = ([], a :: b :: p) := by
  have htake : (replaceChar '/' '\\' (a :: b :: p)).take 2 ≠ ['\\', '\\'] := by
    simp [replaceChar, ha, ha']
  have hcolon : ((replaceChar '/' '\\' (a :: b :: p)).drop 1).take 1 ≠ [':'] := by
    by_cases hs : b = '/' <;> simp [replaceChar, hs, hb]
  rw [splitdrive, if_pos (by simp), if_neg htake, if_neg hcolon]

/-- `normpath` of a relative text joins what the loop keeps of its components. -/
theorem normpath_relative {a b : Char} (ha : a ≠ '\\') (ha' : a ≠ '/') (hb : b ≠ ':')
    {p : Str} {comps : List Str}
    (hcomps : (replaceChar '/' '\\' (a :: b :: p)).splitOn '\\' = comps)
    (hne : normLoop false [] comps ≠ []) :
    normpath (a :: b :: p) = join ['\\'] (normLoop false [] comps) := by
  have hb' : (if b = '/' then '\\' else b) ≠ ':' := by
    split_ifs
    · decide
    · exact hb
  have hrep : replaceChar '/' '\\' (a :: b :: p)
      = a :: (if b = '/' then '\\' else b) :: replaceChar '/' '\\' p := by
    simp [replaceChar, ha']
  have hhead : ¬ (a :: (if b = '/' then '\\' else b) :: replaceChar '/' '\\' p).head?
      = some '\\' := by
    simpa using ha
  rw [hrep] at hcomps
  simp only [normpath]
  rw [hrep, splitdrive_relative ha ha' hb', if_neg hhead, hcomps]
  simp [hne]

end PtsTools.Python.Ntpath
