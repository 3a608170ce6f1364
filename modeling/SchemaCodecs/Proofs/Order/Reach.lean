/-
# Reachability in reference graphs

What it means for one declaration to reach another along references, and for two declarations to
reach each other.
-/
import SchemaCodecs.Order.Graph
import Mathlib.Logic.Relation

namespace SchemaCodecs.Graph

open Relation

variable {graph : Graph}

/-! ## Steps -/

/-- One node refers to another. -/
def Step (graph : Graph) (a b : Nat) : Prop := b ∈ graph.next a

/-- One node leads to another along references, or is the other. -/
def Reach (graph : Graph) : Nat → Nat → Prop := ReflTransGen graph.Step

/-- Two nodes lead to each other. -/
def Together (graph : Graph) (a b : Nat) : Prop := graph.Reach a b ∧ graph.Reach b a

/-- References lead to nodes of the graph. -/
def Closed (graph : Graph) : Prop := ∀ a, ∀ b ∈ graph.next a, b < graph.length

theorem Reach.of_mem {a b : Nat} (h : b ∈ graph.next a) : graph.Reach a b :=
  ReflTransGen.single h

theorem Reach.trans {a b c : Nat} (hab : graph.Reach a b) (hbc : graph.Reach b c) :
    graph.Reach a c :=
  ReflTransGen.trans hab hbc

theorem Reach.refl (graph : Graph) (a : Nat) : graph.Reach a a := ReflTransGen.refl

theorem Together.refl (graph : Graph) (a : Nat) : graph.Together a a :=
  ⟨Reach.refl graph a, Reach.refl graph a⟩

theorem Together.symm {a b : Nat} (h : graph.Together a b) : graph.Together b a :=
  ⟨h.2, h.1⟩

theorem Together.trans {a b c : Nat} (hab : graph.Together a b) (hbc : graph.Together b c) :
    graph.Together a c :=
  ⟨hab.1.trans hbc.1, hbc.2.trans hab.2⟩

theorem Reach.mem_of_closed {P : Nat → Prop} (closed : ∀ a, P a → ∀ b ∈ graph.next a, P b)
    {a b : Nat} (h : graph.Reach a b) (ha : P a) : P b := by
  induction h with
  | refl => exact ha
  | tail _ hstep ih => exact closed _ ih _ hstep

end SchemaCodecs.Graph
