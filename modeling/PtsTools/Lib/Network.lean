import Mathlib.Data.List.Infix
import Mathlib.Logic.Function.Basic

/-!
# Parties that exchange datagrams

A `Protocol` is a number of parties, each with an address and a state.  A party
acts by itself or answers a datagram, and may send datagrams when it does.  Other
hosts send what `others` allows.

A datagram that was sent stays in the network.  It may be delivered never, more than
once, and behind a later one, so the network loses, repeats and reorders.

`Reachable.invariant` is the rule for such a system: what every party keeps as long
as it gets good datagrams, where it sends good ones only, holds in every reachable
net.
-/

namespace PtsTools.Lib.Network

/-- A datagram: where it comes from, where it goes, and what it carries. -/
structure Datagram (A B : Type) where
  src : A
  dst : A
  payload : B
  deriving DecidableEq, Repr

variable {N A B : Type} {S : N → Type}

/-- The parties `N` with their states, and what they and others do. -/
structure Protocol (N : Type) (S : N → Type) (A B : Type) where
  address : N → A
  init : (n : N) → S n
  /-- What a party does by itself, with what it sends. -/
  act : (n : N) → S n → S n → List (Datagram A B) → Prop
  /-- What a party does with a datagram, with what it sends. -/
  receive : (n : N) → S n → Datagram A B → S n → List (Datagram A B) → Prop
  /-- What other hosts may send. -/
  others : Datagram A B → Prop

/-- The states of the parties, and all datagrams that were sent. -/
structure Net (N : Type) (S : N → Type) (A B : Type) where
  node : (n : N) → S n
  sent : List (Datagram A B)

/-- The net before anything happened. -/
def Protocol.start (P : Protocol N S A B) : Net N S A B := ⟨P.init, []⟩

variable [DecidableEq N]

/-- The net with another state of one party, and what it sent. -/
def Net.next (net : Net N S A B) (n : N) (x : S n) (out : List (Datagram A B)) : Net N S A B :=
  ⟨Function.update net.node n x, net.sent ++ out⟩

@[simp] theorem Net.next_node_self (net : Net N S A B) (n : N) (x : S n)
    (out : List (Datagram A B)) : (net.next n x out).node n = x :=
  Function.update_self _ _ _

theorem Net.next_node_of_ne (net : Net N S A B) {n m : N} (hm : m ≠ n) (x : S n)
    (out : List (Datagram A B)) : (net.next n x out).node m = net.node m :=
  Function.update_of_ne hm _ _

@[simp] theorem Net.next_sent (net : Net N S A B) (n : N) (x : S n)
    (out : List (Datagram A B)) : (net.next n x out).sent = net.sent ++ out := rfl

/-- The nets that a protocol can come to. -/
inductive Reachable (P : Protocol N S A B) : Net N S A B → Prop
  | start : Reachable P P.start
  | act {net : Net N S A B} (hnet : Reachable P net) {n : N} {x : S n}
      {out : List (Datagram A B)} (h : P.act n (net.node n) x out) : Reachable P (net.next n x out)
  | receive {net : Net N S A B} (hnet : Reachable P net) {n : N} {x : S n} {d : Datagram A B}
      {out : List (Datagram A B)} (hd : d ∈ net.sent) (hdst : d.dst = P.address n)
      (h : P.receive n (net.node n) d x out) : Reachable P (net.next n x out)
  | others {net : Net N S A B} (hnet : Reachable P net) {d : Datagram A B} (h : P.others d) :
      Reachable P ⟨net.node, net.sent ++ [d]⟩

/-- Every party keeps `I` and sends good datagrams, as long as it gets good ones. -/
structure Keeps (P : Protocol N S A B) (I : (n : N) → S n → Prop) (Good : Datagram A B → Prop) :
    Prop where
  init : ∀ n, I n (P.init n)
  act : ∀ n x x' out, I n x → P.act n x x' out → I n x' ∧ ∀ d ∈ out, Good d
  receive : ∀ n x d x' out, I n x → Good d → d.dst = P.address n → P.receive n x d x' out →
    I n x' ∧ ∀ d' ∈ out, Good d'
  others : ∀ d, P.others d → Good d

variable {P : Protocol N S A B} {net : Net N S A B} {I : (n : N) → S n → Prop}
  {Good : Datagram A B → Prop}

theorem Net.next_keeps (h : (∀ n, I n (net.node n)) ∧ ∀ d ∈ net.sent, Good d) {n : N} {x : S n}
    {out : List (Datagram A B)} (hnext : I n x ∧ ∀ d ∈ out, Good d) :
    (∀ m, I m ((net.next n x out).node m)) ∧ ∀ d ∈ (net.next n x out).sent, Good d := by
  constructor
  · intro m
    by_cases hm : m = n
    · subst hm
      rw [Net.next_node_self]
      exact hnext.1
    · rw [Net.next_node_of_ne net hm]
      exact h.1 m
  · intro d hd
    rcases List.mem_append.mp hd with hd | hd
    · exact h.2 d hd
    · exact hnext.2 d hd

/-- What every party keeps as long as it gets good datagrams holds in every reachable
net, and all datagrams in it are good. -/
theorem Reachable.invariant (hkeeps : Keeps P I Good) (h : Reachable P net) :
    (∀ n, I n (net.node n)) ∧ ∀ d ∈ net.sent, Good d := by
  induction h with
  | start => exact ⟨hkeeps.init, fun d hd => absurd hd List.not_mem_nil⟩
  | @act net _ n x out h ih => exact Net.next_keeps ih (hkeeps.act n _ _ _ (ih.1 n) h)
  | @receive net _ n x d out hd hdst h ih =>
    exact Net.next_keeps ih (hkeeps.receive n _ d _ _ (ih.1 n) (ih.2 d hd) hdst h)
  | @others net _ d h ih =>
    refine ⟨ih.1, ?_⟩
    intro d' hd'
    rcases List.mem_append.mp hd' with hd' | hd'
    · exact ih.2 d' hd'
    · rw [List.mem_singleton.mp hd']
      exact hkeeps.others d h

end PtsTools.Lib.Network
