import ExportLint.Graph.Component
import Mathlib.Algebra.GroupWithZero.Nat

/-!
# How long a search takes

A search pays for each step with a node to start from, with a target to try or with a visit to end.
A node that is found adds a visit with its targets, and takes the edges that leave it off those that
are left. So the bound of a search is never met before it is over.
-/
namespace ExportLint.Graph

variable {g : Graph} {a n : String} {found nodes : List String} {s s' : Search} {fuel : Nat}

section Edges

/-- The edges that leave nodes which are not found yet. -/
def edgesLeft (g : Graph) (found : List String) : Nat :=
  ((g.filter fun e => !found.contains e.1).map fun e => e.2.length).sum

theorem edgesLeft_cons (e : String × List String) (g : Graph) (found : List String) :
    edgesLeft (e :: g) found = (if e.1 ∈ found then 0 else e.2.length) + edgesLeft g found := by
  by_cases h : e.1 ∈ found <;> simp [edgesLeft, h]

theorem edgesLeft_nil (g : Graph) :
    edgesLeft g [] = (g.map fun e => e.2.length).foldr (· + ·) 0 := by
  induction g with
  | nil => rfl
  | cons e g ih => rw [edgesLeft_cons, ih, if_neg List.not_mem_nil, List.map_cons, List.foldr_cons]

theorem edgesLeft_le (g : Graph) (a : String) (found : List String) :
    edgesLeft g (a :: found) ≤ edgesLeft g found := by
  induction g with
  | nil => exact Nat.le_refl 0
  | cons e g ih =>
    rw [edgesLeft_cons, edgesLeft_cons]
    by_cases hf : e.1 ∈ found
    · simp only [hf, List.mem_cons, or_true, if_true]
      omega
    · rw [if_neg hf]
      split <;> omega

theorem next_cons (e : String × List String) (g : Graph) (a : String) :
    next (e :: g) a = if a = e.1 then e.2 else next g a := by
  obtain ⟨k, ns⟩ := e
  by_cases h : a = k
  · simp [next, h]
  · simp [next, List.lookup_cons, beq_eq_false_iff_ne.2 h, h]

/-- A node that is found takes its edges off. -/
theorem length_next_le (g : Graph) (ha : a ∉ found) :
    (g.next a).length + edgesLeft g (a :: found) ≤ edgesLeft g found := by
  induction g with
  | nil => exact Nat.le_refl 0
  | cons e g ih =>
    have hless := edgesLeft_le g a found
    rw [next_cons, edgesLeft_cons, edgesLeft_cons]
    by_cases he : a = e.1
    · subst he
      rw [if_pos rfl, if_pos List.mem_cons_self, if_neg ha]
      omega
    · rw [if_neg he]
      by_cases hf : e.1 ∈ found
      · rw [if_pos (List.mem_cons_of_mem a hf), if_pos hf]
        omega
      · have hne : e.1 ∉ a :: found := by simp [hf, Ne.symm he]
        rw [if_neg hne, if_neg hf]
        omega

end Edges

namespace Search

/-- What the visits of a search still cost. -/
def visitCost (visits : List Visit) : Nat := (visits.map fun v => 2 * v.rest.length + 1).sum

/-- A bound to the steps that a search still takes. -/
def cost (g : Graph) (s : Search) : Nat :=
  2 * s.starts.length + visitCost s.visits + 2 * edgesLeft g s.found

@[simp] theorem visitCost_nil : visitCost [] = 0 := rfl

@[simp] theorem visitCost_cons (v : Visit) (visits : List Visit) :
    visitCost (v :: visits) = 2 * v.rest.length + 1 + visitCost visits := rfl

@[simp] theorem visitCost_pass (low : Nat) (visits : List Visit) :
    visitCost (pass low visits) = visitCost visits := by
  cases visits <;> rfl

/-- The visit of a new node is paid with its edges, but for its end. -/
theorem cost_enter_le (hn : n ∉ s.found) : (s.enter g n).cost g ≤ s.cost g + 1 := by
  have hedges := length_next_le g hn
  simp only [cost, enter, visitCost_cons]
  omega

theorem cost_finish (s : Search) (v : Visit) (visits : List Visit) :
    (s.finish v visits).cost g =
      2 * s.starts.length + visitCost visits + 2 * edgesLeft g s.found := by
  rw [finish]
  split <;> simp [cost]

/-- Every step makes a search shorter. -/
theorem cost_step? (h : s.step? g = some s') : s'.cost g < s.cost g := by
  obtain ⟨starts, found, stack, visits, components⟩ := s
  cases visits with
  | nil =>
    cases starts with
    | nil => cases h
    | cons n starts =>
      cases h
      split
      · simp [cost]
      · rename_i hnew
        have hle := cost_enter_le (g := g) (n := n)
          (s := ⟨starts, found, stack, [], components⟩) (by simpa using hnew)
        simp only [cost, List.length_cons, visitCost_nil] at hle ⊢
        omega
  | cons v visits =>
    obtain ⟨node, number, low, rest⟩ := v
    cases rest with
    | nil =>
      cases h
      rw [cost_finish]
      simp only [cost, visitCost_cons, List.length_nil]
      omega
    | cons t rest =>
      cases h
      rw [tryTarget]
      split
      · simp only [cost, visitCost_cons, List.length_cons]
        omega
      · rename_i hnew
        have hle := cost_enter_le (g := g) (n := t)
          (s := ⟨starts, found, stack, ⟨node, number, low, rest⟩ :: visits, components⟩)
          (by simpa using hnew)
        simp only [cost, List.length_cons, visitCost_cons] at hle ⊢
        omega

/-- What every step preserves, a run preserves. -/
theorem run_induction {p : Search → Prop} (hstep : ∀ s s', p s → s.step? g = some s' → p s')
    (fuel : Nat) (h : p s) : p (run g fuel s) := by
  induction fuel generalizing s with
  | zero => exact h
  | succ fuel ih =>
    rw [run]
    split
    · exact h
    · rename_i s' hs
      exact ih (hstep s s' h hs)

/-- A run that can pay for its steps is over at its end. -/
theorem step?_run (h : s.cost g ≤ fuel) : (run g fuel s).step? g = none := by
  induction fuel generalizing s with
  | zero =>
    rw [run, Option.eq_none_iff_forall_ne_some]
    intro s' hs
    have hless := cost_step? hs
    omega
  | succ fuel ih =>
    rw [run]
    split
    · assumption
    · rename_i s' hs
      have hless := cost_step? hs
      exact ih (by omega)

end Search

/-- A search is over within its bound. -/
theorem step?_search (g : Graph) (nodes : List String) : (g.search nodes).step? g = none := by
  refine Search.step?_run ?_
  rw [Search.cost, searchBound, edgesLeft_nil]
  simp only [Search.visitCost_nil]
  omega

end ExportLint.Graph
