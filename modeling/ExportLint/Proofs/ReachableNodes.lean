import ExportLint.Graph.Basic
import Mathlib.Logic.Relation

/-!
# What nodes lead to

A node leads to others along the edges of a graph. Nodes that lead to each other make up a
component, and every node is in one.
-/
namespace ExportLint.Graph

open Relation (ReflTransGen)

variable {g : Graph} {a b m n : String} {c : List String}

/-- A node leads to another one along the edges of a graph. -/
def Leads (g : Graph) : String → String → Prop := ReflTransGen fun a b => b ∈ g.next a

theorem Leads.refl (a : String) : g.Leads a a := ReflTransGen.refl

theorem Leads.of_mem (h : b ∈ g.next a) : g.Leads a b := ReflTransGen.single h

theorem Leads.trans {c : String} (h : g.Leads a b) (h' : g.Leads b c) : g.Leads a c :=
  ReflTransGen.trans h h'

/-- What no edge leaves holds all that its nodes lead to. -/
theorem Leads.of_closed {p : String → Prop} (hclosed : ∀ a, p a → ∀ b ∈ g.next a, p b)
    (h : g.Leads a b) (ha : p a) : p b := by
  induction h with
  | refl => exact ha
  | tail _ hedge ih => exact hclosed _ ih _ hedge

/-- Two nodes lead to each other. -/
def Mutual (g : Graph) (a b : String) : Prop := g.Leads a b ∧ g.Leads b a

theorem Mutual.refl (a : String) : g.Mutual a a := ⟨.refl a, .refl a⟩

theorem Mutual.symm (h : g.Mutual a b) : g.Mutual b a := ⟨h.2, h.1⟩

theorem Mutual.trans {c : String} (h : g.Mutual a b) (h' : g.Mutual b c) : g.Mutual a c :=
  ⟨h.1.trans h'.1, h'.2.trans h.2⟩

/-- A list of nodes is the component of a node. -/
structure IsComponent (g : Graph) (n : String) (c : List String) : Prop where
  nodup : c.Nodup
  mem_iff : ∀ m, m ∈ c ↔ g.Mutual n m

theorem IsComponent.of_mem (h : g.IsComponent n c) (hm : m ∈ c) : g.IsComponent m c := by
  have hmutual := (h.mem_iff m).1 hm
  refine ⟨h.nodup, fun x => (h.mem_iff x).trans ⟨hmutual.symm.trans, hmutual.trans⟩⟩

theorem IsComponent.of_perm {d : List String} (h : g.IsComponent n c) (hd : d.Perm c) :
    g.IsComponent n d :=
  ⟨hd.nodup_iff.2 h.nodup, fun m => hd.mem_iff.trans (h.mem_iff m)⟩

end ExportLint.Graph
