import ExportLint.Proofs.ComponentSearch
import Mathlib.Data.Finset.Card
import Mathlib.Data.List.Pairwise
import Mathlib.Data.List.Perm.Subperm

/-!
# Components of a graph

The cycles of a graph are the components with two members or more among what some nodes lead to.
Each is listed once. If the nodes are all that they lead to, and none is among them twice, the
cycles and their members follow the order of the nodes.
-/
namespace ExportLint.Graph

variable {g : Graph} {n : String} {nodes : List String} {c d : List String}

section Order

theorem perm_sortByPosition {α : Type} (nodes : List String) (key : α → String) (xs : List α) :
    (sortByPosition nodes key xs).Perm xs := List.mergeSort_perm _ _

theorem pairwise_sortByPosition {α : Type} (nodes : List String) (key : α → String)
    (xs : List α) : (sortByPosition nodes key xs).Pairwise fun a b =>
      position nodes (key a) ≤ position nodes (key b) := by
  have htrans (a b c : α) : decide (position nodes (key a) ≤ position nodes (key b)) = true →
      decide (position nodes (key b) ≤ position nodes (key c)) = true →
      decide (position nodes (key a) ≤ position nodes (key c)) = true := by
    simp only [decide_eq_true_eq]
    exact Nat.le_trans
  have htotal (a b : α) : (decide (position nodes (key a) ≤ position nodes (key b)) ||
      decide (position nodes (key b) ≤ position nodes (key a))) = true := by
    simp only [Bool.or_eq_true, decide_eq_true_eq]
    exact Nat.le_total _ _
  exact (List.pairwise_mergeSort htrans htotal xs).imp of_decide_eq_true

/-- On a list without repetitions the position of a node is its index. -/
theorem position_getElem (hn : nodes.Nodup) {i : Nat} (hi : i < nodes.length) :
    position nodes nodes[i] = i := by
  have hlast : nodes.length - 1 - i < nodes.reverse.length := by
    rw [List.length_reverse]
    omega
  have hreverse : nodes.reverse[nodes.length - 1 - i] = nodes[i] := by
    rw [List.getElem_reverse]
    congr 1
    omega
  have hindex := (List.nodup_reverse.2 hn).idxOf_getElem (nodes.length - 1 - i) hlast
  rw [hreverse] at hindex
  rw [position, if_pos (List.contains_iff_mem.2 (List.getElem_mem hi)), hindex]
  omega

/-- What is sorted by its place among some nodes follows their order. -/
theorem sublist_of_sorted {l : List String} (hn : nodes.Nodup) (hl : l.Nodup) (hsub : l ⊆ nodes)
    (hsorted : l.Pairwise fun a b => position nodes a ≤ position nodes b) : l.Sublist nodes := by
  have hperm : l.Perm (nodes.filter fun m => l.contains m) := by
    rw [List.perm_ext_iff_of_nodup hl (hn.filter _)]
    intro m
    rw [List.mem_filter, List.contains_iff_mem]
    exact ⟨fun hm => ⟨hsub hm, hm⟩, And.right⟩
  have hnodes : nodes.Pairwise fun a b => position nodes a ≤ position nodes b := by
    rw [List.pairwise_iff_getElem]
    intro i j hi hj hij
    rw [position_getElem hn hi, position_getElem hn hj]
    exact Nat.le_of_lt hij
  have hantisymm (a b : String) (ha : a ∈ l) (hb : b ∈ nodes.filter fun m => l.contains m)
      (hab : position nodes a ≤ position nodes b) (hba : position nodes b ≤ position nodes a) :
      a = b := by
    obtain ⟨i, hi, rfl⟩ := List.mem_iff_getElem.1 (hsub ha)
    obtain ⟨j, hj, rfl⟩ := List.mem_iff_getElem.1 (List.mem_filter.1 hb).1
    rw [position_getElem hn hi, position_getElem hn hj] at hab hba
    obtain rfl := Nat.le_antisymm hab hba
    rfl
  rw [hperm.eq_of_pairwise hantisymm hsorted (hnodes.filter _)]
  exact List.filter_sublist

end Order

/-- Lists of nodes are the components with two members or more among what some nodes lead to. -/
structure ListsCycles (g : Graph) (nodes : List String) (cs : List (List String)) : Prop where
  isComponent : ∀ c ∈ cs, 1 < c.length ∧ ∃ n, (∃ r ∈ nodes, g.Leads r n) ∧ g.IsComponent n c
  listed : ∀ n, (∃ r ∈ nodes, g.Leads r n) → (∃ m, m ≠ n ∧ g.Mutual n m) →
    ∃! c, c ∈ cs ∧ g.IsComponent n c
  nodup : cs.Nodup
  disjoint : cs.Pairwise List.Disjoint

/-- Lists of nodes and what they start with follow the order of some nodes. -/
structure FollowsOrder (nodes : List String) (cs : List (List String)) : Prop where
  members : ∀ c ∈ cs, c.Sublist nodes
  heads : (cs.filterMap List.head?).Sublist nodes

section Cycles

/-- A cycle is a component that the search has found, with its members in order. -/
theorem mem_cycles_iff : d ∈ g.cycles nodes ↔
    ∃ c ∈ (g.search nodes).components, 1 < c.length ∧ sortByPosition nodes id c = d := by
  simp only [cycles, (perm_sortByPosition _ _ _).mem_iff, List.mem_map, List.mem_filter,
    decide_eq_true_eq, and_assoc]

/-- A cycle is the component of each of its members. -/
theorem exists_isComponent (hd : d ∈ g.cycles nodes) :
    1 < d.length ∧ ∃ n, (∃ r ∈ nodes, g.Leads r n) ∧ g.IsComponent n d := by
  obtain ⟨c, hc, hlength, rfl⟩ := mem_cycles_iff.1 hd
  have hperm := perm_sortByPosition nodes id c
  obtain ⟨n, hcomponent⟩ := (sound_search g nodes).consistent.isComponent c hc
  have hn : n ∈ (g.search nodes).components.flatten :=
    List.mem_flatten.2 ⟨c, hc, (hcomponent.mem_iff n).2 (.refl n)⟩
  exact ⟨hperm.length_eq ▸ hlength, n, mem_flatten_search_iff.1 hn, hcomponent.of_perm hperm⟩

theorem disjoint_cycles (g : Graph) (nodes : List String) :
    (g.cycles nodes).Pairwise List.Disjoint := by
  rw [cycles, (perm_sortByPosition _ _ _).pairwise_iff List.Disjoint.symm, List.pairwise_map]
  have hdisjoint := (List.nodup_flatten.1 (sound_search g nodes).consistent.nodup).2
  refine (hdisjoint.filter _).imp fun h m hm hm' => ?_
  exact h ((perm_sortByPosition _ _ _).mem_iff.1 hm) ((perm_sortByPosition _ _ _).mem_iff.1 hm')

theorem eq_of_mem_cycles (hc : c ∈ g.cycles nodes) (hd : d ∈ g.cycles nodes) (hnc : n ∈ c)
    (hnd : n ∈ d) : c = d := by
  have hsymm : Std.Symm (List.Disjoint : List String → List String → Prop) :=
    ⟨fun _ _ => List.Disjoint.symm⟩
  by_contra hne
  exact (disjoint_cycles g nodes).forall hc hd hne hnc hnd

/-- A node that leads to another one and back is in a cycle. -/
theorem exists_mem_cycles (hn : ∃ r ∈ nodes, g.Leads r n) (hm : ∃ m, m ≠ n ∧ g.Mutual n m) :
    ∃ c ∈ g.cycles nodes, g.IsComponent n c := by
  obtain ⟨c, hc, hnc⟩ := List.mem_flatten.1 (mem_flatten_search_iff.2 hn)
  obtain ⟨a, ha⟩ := (sound_search g nodes).consistent.isComponent c hc
  have hcomponent := ha.of_mem hnc
  obtain ⟨m, hne, hmutual⟩ := hm
  have hlength : 1 < c.length := by
    have hpair : [m, n].Subperm c := by
      refine List.subperm_of_subset (by simpa using hne) ?_
      simpa using ⟨(hcomponent.mem_iff m).2 hmutual, hnc⟩
    exact hpair.length_le
  exact ⟨_, mem_cycles_iff.2 ⟨c, hc, hlength, rfl⟩,
    hcomponent.of_perm (perm_sortByPosition nodes id c)⟩

theorem listsCycles_cycles (g : Graph) (nodes : List String) :
    g.ListsCycles nodes (g.cycles nodes) where
  isComponent c hc := exists_isComponent hc
  listed n hn hm := by
    obtain ⟨c, hc, hcomponent⟩ := exists_mem_cycles hn hm
    refine ⟨c, ⟨hc, hcomponent⟩, fun d ⟨hd, hd'⟩ => ?_⟩
    exact eq_of_mem_cycles hd hc ((hd'.mem_iff n).2 (.refl n)) ((hcomponent.mem_iff n).2 (.refl n))
  nodup := by
    refine (disjoint_cycles g nodes).imp_of_mem fun {c d} hc _ hdisjoint he => ?_
    obtain ⟨-, n, -, hcomponent⟩ := exists_isComponent hc
    have hn := (hcomponent.mem_iff n).2 (.refl n)
    exact hdisjoint hn (he ▸ hn)
  disjoint := disjoint_cycles g nodes

/-- The member that a cycle starts with. -/
theorem exists_head_of_mem_cycles (hc : c ∈ g.cycles nodes) :
    ∃ m ∈ c, c.head? = some m := by
  obtain ⟨hlength, -⟩ := exists_isComponent hc
  cases c with
  | nil => exact absurd hlength (by decide)
  | cons m ms => exact ⟨m, List.mem_cons_self, rfl⟩

theorem followsOrder_cycles (hn : nodes.Nodup)
    (hall : ∀ n, (∃ r ∈ nodes, g.Leads r n) → n ∈ nodes) :
    FollowsOrder nodes (g.cycles nodes) := by
  have hsub : ∀ c ∈ g.cycles nodes, c ⊆ nodes := by
    intro c hc m hm
    obtain ⟨-, n, ⟨r, hr, hleads⟩, hcomponent⟩ := exists_isComponent hc
    exact hall m ⟨r, hr, hleads.trans ((hcomponent.mem_iff m).1 hm).1⟩
  refine ⟨fun d hd => ?_, ?_⟩
  · obtain ⟨-, n, -, hcomponent⟩ := exists_isComponent hd
    refine sublist_of_sorted hn hcomponent.nodup (hsub d hd) ?_
    obtain ⟨c, -, -, rfl⟩ := mem_cycles_iff.1 hd
    exact pairwise_sortByPosition nodes id c
  · have hheads : (g.cycles nodes).filterMap List.head? =
        (g.cycles nodes).map fun c => c.head?.getD "" := by
      rw [← List.filterMap_eq_map]
      refine List.filterMap_congr fun c hc => ?_
      obtain ⟨m, -, hm⟩ := exists_head_of_mem_cycles hc
      rw [Function.comp_apply, hm]
      rfl
    rw [hheads]
    refine sublist_of_sorted hn ?_ ?_ ?_
    · rw [List.Nodup, List.pairwise_map]
      refine (disjoint_cycles g nodes).imp_of_mem fun hc hd hdisjoint he => ?_
      obtain ⟨m, hmem, hm⟩ := exists_head_of_mem_cycles hc
      obtain ⟨m', hmem', hm'⟩ := exists_head_of_mem_cycles hd
      rw [hm, hm', Option.getD_some, Option.getD_some] at he
      exact hdisjoint hmem (he ▸ hmem')
    · intro m hm
      obtain ⟨c, hc, rfl⟩ := List.mem_map.1 hm
      obtain ⟨m, hmem, hm⟩ := exists_head_of_mem_cycles hc
      rw [hm]
      exact hsub c hc hmem
    · rw [List.pairwise_map]
      exact pairwise_sortByPosition nodes (fun c : List String => c.head?.getD "") _

end Cycles

/-- As sets, the cycles are the components with two members or more. -/
theorem exists_mem_cycles_iff (s : Finset String) :
    (∃ c ∈ g.cycles nodes, c.toFinset = s) ↔
      1 < s.card ∧ ∃ n, (∃ r ∈ nodes, g.Leads r n) ∧ ∀ m, m ∈ s ↔ g.Mutual n m := by
  constructor
  · rintro ⟨c, hc, rfl⟩
    obtain ⟨hlength, n, hn, hcomponent⟩ := exists_isComponent hc
    rw [List.toFinset_card_of_nodup hcomponent.nodup]
    exact ⟨hlength, n, hn, fun m => List.mem_toFinset.trans (hcomponent.mem_iff m)⟩
  · rintro ⟨hcard, n, hn, hs⟩
    obtain ⟨m, hm, hne⟩ := Finset.exists_mem_ne hcard n
    obtain ⟨c, hc, hcomponent⟩ := exists_mem_cycles hn ⟨m, hne, (hs m).1 hm⟩
    refine ⟨c, hc, ?_⟩
    ext x
    rw [List.mem_toFinset, hcomponent.mem_iff, hs]

/-- A search for cycles comes to its end and lists each component with two members or more among
what its nodes lead to once. Where the nodes are all that they lead to, and none is among them
twice, it follows their order. -/
theorem search_lists_cycles (g : Graph) (nodes : List String) :
    (g.search nodes).step? g = none ∧ g.ListsCycles nodes (g.cycles nodes) ∧
      (nodes.Nodup → (∀ n, (∃ r ∈ nodes, g.Leads r n) → n ∈ nodes) →
        FollowsOrder nodes (g.cycles nodes)) :=
  ⟨step?_search g nodes, listsCycles_cycles g nodes, followsOrder_cycles⟩

/-- Two cycles, one of which leads to the other. A node leads to itself, and another one leads to
the same node twice. -/
def tangledGraph : Graph :=
  [("a", ["a", "b"]), ("b", ["c", "c"]), ("c", ["e", "a"]), ("d", ["e", "f"]), ("e", ["d"])]

def tangledNodes : List String := ["f", "e", "d", "c", "b", "a"]

/-- Both cycles are listed in the order of the nodes. -/
theorem tangledGraph_cycles :
    tangledGraph.cycles tangledNodes = [["e", "d"], ["c", "b", "a"]] ∧
      FollowsOrder tangledNodes (tangledGraph.cycles tangledNodes) := by
  have hcomponents : (tangledGraph.search tangledNodes).components =
      [["f"], ["d", "e"], ["b", "a", "c"]] := by decide +kernel
  have hcycles : tangledGraph.cycles tangledNodes = [["e", "d"], ["c", "b", "a"]] := by
    rw [cycles, hcomponents]
    simp [sortByPosition, List.mergeSort, position, tangledNodes, List.idxOf_cons]
  have hclosed : ∀ a ∈ tangledNodes, ∀ b ∈ tangledGraph.next a, b ∈ tangledNodes := by decide
  refine ⟨hcycles, (search_lists_cycles tangledGraph tangledNodes).2.2 (by decide) ?_⟩
  rintro n ⟨r, hr, hleads⟩
  exact hleads.of_closed hclosed hr

end ExportLint.Graph
