import Mathlib.Data.List.Infix

/-!
# The search of `find` through a tree

A tree has leaves with some content and directories with named entries.  `find`
goes through it from the top and evaluates an expression at every node: tests,
actions that print something, `-prune`, and the two connectives, of which the right
side is evaluated only if the left one leaves the answer open.  It does not go into a
directory at which `-prune` was evaluated.

`find_prune_or` is the rule for an expression that first prunes some places and does
its work at leaves elsewhere: the work is done exactly at the leaves with no pruned
place on the way to them.
-/

namespace PtsTools.Lib.Find

/-! ## Trees -/

variable {ν α β : Type}

mutual

/-- A tree of directories. -/
inductive Tree (ν α : Type)
  | leaf (content : α)
  | dir (entries : Forest ν α)

/-- The entries of a directory, in its order. -/
inductive Forest (ν α : Type)
  | nil
  | cons (name : ν) (tree : Tree ν α) (rest : Forest ν α)

end

mutual

/-- The leaves of a tree with their places: the names on the way to them. -/
def Tree.leaves : Tree ν α → List (List ν × α)
  | .leaf content => [([], content)]
  | .dir entries => entries.leaves

/-- The leaves of the entries. -/
def Forest.leaves : Forest ν α → List (List ν × α)
  | .nil => []
  | .cons name tree rest => tree.leaves.map (fun l => (name :: l.1, l.2)) ++ rest.leaves

end

/-- The names of the entries. -/
def Forest.names : Forest ν α → List ν
  | .nil => []
  | .cons name _ rest => name :: rest.names

/-! ## Expressions -/

/-- A node as `find` meets it: its place below the start, and the tree there. -/
abbrev Node (ν α : Type) := List ν × Tree ν α

/-- An expression over the nodes, with actions that print. -/
inductive Expr (ν α β : Type)
  | test (p : Node ν α → Bool)
  | prune
  | exec (run : Node ν α → List β × Bool)
  | and (left right : Expr ν α β)
  | or (left right : Expr ν α β)

/-- What the evaluation of an expression gives. -/
structure Result (β : Type) where
  value : Bool
  pruned : Bool
  out : List β

/-- What was done before the right side counts as well. -/
def Result.followedBy (first second : Result β) : Result β :=
  { value := second.value, pruned := first.pruned || second.pruned,
    out := first.out ++ second.out }

/-- The evaluation of an expression at a node. -/
def Expr.eval : Expr ν α β → Node ν α → Result β
  | .test p, node => { value := p node, pruned := false, out := [] }
  | .prune, _ => { value := true, pruned := true, out := [] }
  | .exec run, node => { value := (run node).2, pruned := false, out := (run node).1 }
  | .and left right, node =>
    if (left.eval node).value then (left.eval node).followedBy (right.eval node)
    else left.eval node
  | .or left right, node =>
    if (left.eval node).value then left.eval node
    else (left.eval node).followedBy (right.eval node)

mutual

/-- The search through a tree that stands at a place. -/
def find (e : Expr ν α β) (place : List ν) : Tree ν α → List β
  | .leaf content => (e.eval (place, .leaf content)).out
  | .dir entries =>
    (e.eval (place, .dir entries)).out ++
      if (e.eval (place, .dir entries)).pruned then [] else findIn e place entries

/-- The search through the entries of a directory. -/
def findIn (e : Expr ν α β) (place : List ν) : Forest ν α → List β
  | .nil => []
  | .cons name tree rest => find e (place ++ [name]) tree ++ findIn e place rest

end

/-! ## Evaluation -/

/-- An expression that only tests. -/
def IsTest (e : Expr ν α β) (p : Node ν α → Bool) : Prop :=
  ∀ node, e.eval node = { value := p node, pruned := false, out := [] }

theorem isTest_test (p : Node ν α → Bool) : IsTest (.test p : Expr ν α β) p := fun _ => rfl

variable {e f : Expr ν α β} {p q : Node ν α → Bool}

theorem IsTest.and (he : IsTest e p) (hf : IsTest f q) :
    IsTest (e.and f) fun node => p node && q node := by
  intro node
  cases hp : p node <;> simp [Expr.eval, Result.followedBy, he node, hf node, hp]

theorem IsTest.or (he : IsTest e p) (hf : IsTest f q) :
    IsTest (e.or f) fun node => p node || q node := by
  intro node
  cases hp : p node <;> simp [Expr.eval, Result.followedBy, he node, hf node, hp]

/-- What stands behind a test is evaluated where it holds. -/
theorem IsTest.eval_and (he : IsTest e p) (f : Expr ν α β) (node : Node ν α) :
    (e.and f).eval node =
      if p node then f.eval node else { value := false, pruned := false, out := [] } := by
  rw [Expr.eval, he node]
  cases p node with
  | false => rfl
  | true => simp [Result.followedBy]

/-- An expression that prunes some places and does something elsewhere. -/
theorem eval_prune_or (skip : Node ν α → Bool) (e : Expr ν α β) (node : Node ν α) :
    (((Expr.test skip).and .prune).or e).eval node =
      if skip node then { value := true, pruned := true, out := [] } else e.eval node := by
  cases h : skip node <;> simp [Expr.eval, Result.followedBy, h]

/-! ## The search -/

/-- No place on the way from a place to a leaf below it is skipped, the ends included. -/
def Clear (skip : List ν → Bool) (place : List ν) (rest : List ν) : Prop :=
  ∀ q, q <+: rest → skip (place ++ q) = false

instance (skip : List ν → Bool) (place rest : List ν) : Decidable (Clear skip place rest) :=
  decidable_of_iff (∀ q ∈ rest.inits, skip (place ++ q) = false)
    (forall_congr' fun q => by rw [List.mem_inits])

theorem clear_nil_iff {skip : List ν → Bool} {place : List ν} :
    Clear skip place [] ↔ skip place = false := by
  constructor
  · intro h
    have hnil := h [] (List.prefix_refl _)
    rw [List.append_nil] at hnil
    exact hnil
  · intro h q hq
    rw [List.prefix_nil.mp hq, List.append_nil]
    exact h

theorem clear_cons_iff {skip : List ν → Bool} {place : List ν} {name : ν} {rest : List ν} :
    Clear skip place (name :: rest) ↔
      skip place = false ∧ Clear skip (place ++ [name]) rest := by
  constructor
  · intro h
    refine ⟨clear_nil_iff.mp fun q hq => h q (hq.trans (List.nil_prefix)), ?_⟩
    intro q hq
    rw [List.append_assoc]
    exact h (name :: q) (List.cons_prefix_cons.mpr ⟨rfl, hq⟩)
  · intro h q hq
    cases q with
    | nil =>
      rw [List.append_nil]
      exact h.1
    | cons a q =>
      rcases List.cons_prefix_cons.mp hq with ⟨rfl, hrest⟩
      have hclear := h.2 q hrest
      rw [List.append_assoc] at hclear
      exact hclear

/-- Nothing below a skipped place is clear. -/
theorem not_clear {skip : List ν → Bool} {place : List ν} (hskip : skip place = true)
    (rest : List ν) : ¬ Clear skip place rest := by
  intro h
  have hnil := h [] List.nil_prefix
  rw [List.append_nil, hskip] at hnil
  exact absurd hnil (by decide)

/-- An expression that neither prints nor prunes at a directory. -/
def Quiet (e : Expr ν α β) : Prop :=
  ∀ place entries, (e.eval (place, .dir entries)).out = [] ∧
    (e.eval (place, .dir entries)).pruned = false

/-- What an expression prints at the leaves below a place that no skipped place cuts
off. -/
def work (skip : List ν → Bool) (e : Expr ν α β) (place : List ν) (leaves : List (List ν × α)) :
    List β :=
  (leaves.filter fun l => Clear skip place l.1).flatMap fun l =>
    (e.eval (place ++ l.1, .leaf l.2)).out

theorem work_append (skip : List ν → Bool) (e : Expr ν α β) (place : List ν)
    (ls ls' : List (List ν × α)) :
    work skip e place (ls ++ ls') = work skip e place ls ++ work skip e place ls' := by
  unfold work
  rw [List.filter_append, List.flatMap_append]

/-- At a skipped place there is no work. -/
theorem work_skip {skip : List ν → Bool} {place : List ν} (hskip : skip place = true)
    (e : Expr ν α β) (ls : List (List ν × α)) : work skip e place ls = [] := by
  have hnone : ls.filter (fun l => Clear skip place l.1) = [] := by
    apply List.filter_eq_nil_iff.mpr
    intro l _
    rw [decide_eq_true_eq]
    exact not_clear hskip l.1
  rw [work, hnone]
  rfl

/-- The work below an entry of a directory. -/
theorem work_map {skip : List ν → Bool} {place : List ν} (hskip : skip place = false)
    (e : Expr ν α β) (name : ν) (ls : List (List ν × α)) :
    work skip e place (ls.map fun l => (name :: l.1, l.2)) =
      work skip e (place ++ [name]) ls := by
  have hclear : ∀ l : List ν × α,
      decide (Clear skip place (name :: l.1)) = decide (Clear skip (place ++ [name]) l.1) := by
    intro l
    rw [decide_eq_decide, clear_cons_iff]
    exact and_iff_right hskip
  unfold work
  rw [List.filter_map, List.flatMap_map]
  simp only [Function.comp_def, hclear, List.append_assoc, List.singleton_append]

mutual

/-- Where some places are pruned first, the work is done at the leaves elsewhere. -/
theorem find_prune_or (skip : List ν → Bool) {e : Expr ν α β} (he : Quiet e) (place : List ν) :
    ∀ tree : Tree ν α,
      find (((Expr.test fun node => skip node.1).and .prune).or e) place tree =
        work skip e place tree.leaves
  | .leaf content => by
    rw [find, eval_prune_or, Tree.leaves]
    cases hskip : skip place with
    | true => rw [work_skip hskip]; rfl
    | false =>
      have hclear : Clear skip place [] := clear_nil_iff.mpr hskip
      simp [work, hclear]
  | .dir entries => by
    rw [find, eval_prune_or, Tree.leaves]
    cases hskip : skip place with
    | true => rw [work_skip hskip]; rfl
    | false =>
      rw [if_neg (by decide), (he place entries).1, (he place entries).2,
        ← findIn_prune_or skip he hskip entries]
      rfl

/-- The entries of a directory that is not skipped. -/
theorem findIn_prune_or (skip : List ν → Bool) {e : Expr ν α β} (he : Quiet e) {place : List ν}
    (hskip : skip place = false) :
    ∀ entries : Forest ν α,
      findIn (((Expr.test fun node => skip node.1).and .prune).or e) place entries =
        work skip e place entries.leaves
  | .nil => rfl
  | .cons name tree rest => by
    rw [findIn, find_prune_or skip he, findIn_prune_or skip he hskip rest, Forest.leaves,
      work_append, work_map hskip]

end

/-! ## Every node -/

mutual

/-- The nodes of a tree with their places, in the order of the search. -/
def Tree.nodes : Tree ν α → List (Node ν α)
  | .leaf content => [([], .leaf content)]
  | .dir entries => ([], .dir entries) :: entries.nodes

/-- The nodes of the entries. -/
def Forest.nodes : Forest ν α → List (Node ν α)
  | .nil => []
  | .cons name tree rest => tree.nodes.map (fun n => (name :: n.1, n.2)) ++ rest.nodes

end

mutual

/-- An expression that never prunes does its work at every node. -/
theorem find_nodes {e : Expr ν α β} (he : ∀ node, (e.eval node).pruned = false)
    (place : List ν) :
    ∀ tree : Tree ν α,
      find e place tree = tree.nodes.flatMap fun n => (e.eval (place ++ n.1, n.2)).out
  | .leaf content => by simp [find, Tree.nodes]
  | .dir entries => by
    rw [find, he, if_neg (by decide), findIn_nodes he place entries, Tree.nodes]
    simp

/-- The same for the entries of a directory. -/
theorem findIn_nodes {e : Expr ν α β} (he : ∀ node, (e.eval node).pruned = false)
    (place : List ν) :
    ∀ entries : Forest ν α,
      findIn e place entries = entries.nodes.flatMap fun n => (e.eval (place ++ n.1, n.2)).out
  | .nil => rfl
  | .cons name tree rest => by
    rw [findIn, find_nodes he, findIn_nodes he place rest, Forest.nodes, List.flatMap_append,
      List.flatMap_map]
    simp only [List.append_assoc, List.singleton_append]

end

/-- A test with one thing that is printed where it holds. -/
theorem find_test_print (he : IsTest e p) (print : Node ν α → β) (tree : Tree ν α) :
    find (e.and (.exec fun node => ([print node], true))) [] tree =
      (tree.nodes.filter p).map print := by
  have heval : ∀ node, (e.and (.exec fun node => ([print node], true))).eval node =
      if p node then { value := true, pruned := false, out := [print node] }
      else { value := false, pruned := false, out := [] } := by
    intro node
    rw [he.eval_and]
    rfl
  rw [find_nodes]
  · induction tree.nodes with
    | nil => rfl
    | cons n nodes ih =>
      rw [List.flatMap_cons, ih, heval, List.nil_append]
      cases hp : p n with
      | true => rw [List.filter_cons_of_pos hp]; rfl
      | false => rw [List.filter_cons_of_neg (by simp [hp])]; rfl
  · intro node
    rw [heval]
    split_ifs
    · rfl
    · rfl

end PtsTools.Lib.Find
