import PtsTools.Python.Str

/-!
# The script `xmltt.py`

`parse_xml` looks for an element of an XML file by its name and reports the texts of
its children: one value if they are all the same, and the list of them otherwise.

A document is the tree that `ElementTree` makes of it, which has no comments and no
processing instructions.  Names are in a namespace or in none, and `ElementTree`
writes both into one text, the tag.  `find(".//tag")` gives the first descendant with
that tag.  The file can be read and is well formed.
-/

namespace PtsTools.Xmltt

open PtsTools.Python

/-! ## Documents -/

/-- A name without its namespace.  There are more texts of this kind than XML names: `*` is
one, and `find` reads it, like other texts that are no names, in its own way, which is left
out here. -/
structure LocalName where
  text : Str
  ne_nil : text ≠ []
  no_open : '{' ∉ text
  no_close : '}' ∉ text
  deriving DecidableEq

/-- The name of a namespace. -/
structure Uri where
  text : Str
  ne_nil : text ≠ []
  deriving DecidableEq

/-- The name of an element. -/
structure QName where
  uri : Option Uri
  name : LocalName
  deriving DecidableEq

/-- The tag that `ElementTree` makes of a name: `{uri}name`, or only the name. -/
def QName.tag (q : QName) : Str :=
  match q.uri with
  | none => q.name.text
  | some uri => '{' :: (uri.text ++ '}' :: q.name.text)

mutual

/-- An element: its name, the text in front of its first child, and its children. -/
inductive Element
  | mk (name : QName) (text : Option Str) (children : Elements)

/-- Elements, in the order of the document. -/
inductive Elements
  | nil
  | cons (first : Element) (rest : Elements)

end

def Element.name : Element → QName
  | .mk name _ _ => name

def Element.text : Element → Option Str
  | .mk _ text _ => text

def Element.children : Element → Elements
  | .mk _ _ children => children

/-- The texts of elements. -/
def Elements.texts : Elements → List (Option Str)
  | .nil => []
  | .cons first rest => first.text :: rest.texts

mutual

/-- The elements below an element, in the order of the document. -/
def Element.descendants : Element → List Element
  | .mk _ _ children => children.all

/-- Elements with the elements below them. -/
def Elements.all : Elements → List Element
  | .nil => []
  | .cons first rest => first :: (first.descendants ++ rest.all)

end

/-- `root.find(".//" + tag)` -/
def Element.find (root : Element) (tag : Str) : Option Element :=
  root.descendants.find? fun e => e.name.tag = tag

/-! ## `parse_xml` -/

/-- What `report` is called with. -/
inductive Report
  | value (text : Option Str)
  | rows (rows : List (Option Str))
  deriving DecidableEq, Repr

/-- What a run does: the messages, the reports, and the status if it exits. -/
structure Outcome where
  notices : List Str
  reports : List Report
  exit : Option Nat
  deriving DecidableEq, Repr

/-- What `report` prints, with `option_silence` or without. -/
def Outcome.printed (silence : Bool) (o : Outcome) : List Report :=
  if silence then [] else o.reports

/-- `root.tag.split("}")[0] + "}"` -/
def ns (root : Element) : Str :=
  (root.name.tag.splitOnP (· = '}')).headD [] ++ ['}']

/-- `for i in rows`, with what it reports if it does not run to the end. -/
def scan (rows : List (Option Str)) (val : Option Str) : List (Option Str) → Option Report
  | [] => none
  | i :: rest => if i ≠ val then some (.rows rows) else scan rows val rest

/-- What is reported about the texts of the children. -/
def reportRows (rows : List (Option Str)) : Report :=
  match rows with
  | [] => .rows []
  | val :: _ => (scan rows val rows).getD (.value val)

/-- `parse_xml`. -/
def parseXml (root : Element) (tag1 : Str) : Outcome :=
  match root.find (ns root ++ tag1) with
  | none =>
    { notices := ["Can't find the ".toList ++ tag1 ++ " tag.".toList], reports := [],
      exit := some 1 }
  | some element =>
    { notices := [], reports := [reportRows element.children.texts], exit := none }

/-! ## What should be reported -/

/-- The element that is meant: the first one below the root with a name in the
namespace of the root, or in none if the root is in none. -/
def meant (root : Element) (t : LocalName) : Option Element :=
  root.descendants.find? fun e => e.name = { uri := root.name.uri, name := t }

/-- All texts are the same, and there is one. -/
def AllSame (rows : List (Option Str)) (v : Option Str) : Prop := rows ≠ [] ∧ ∀ r ∈ rows, r = v

/-- A report says what the texts are. -/
def Summarises (rows : List (Option Str)) : Report → Prop
  | .value v => AllSame rows v
  | .rows rows' => rows' = rows ∧ ∀ v, ¬ AllSame rows v

/-- A run finds the element that is meant and reports its texts, or says that there is
none. -/
def Meets (root : Element) (t : LocalName) (o : Outcome) : Prop :=
  match meant root t with
  | none => o.exit = some 1 ∧ o.reports = []
  | some e => o.exit = none ∧ ∃ r, o.reports = [r] ∧ Summarises e.children.texts r

end PtsTools.Xmltt
