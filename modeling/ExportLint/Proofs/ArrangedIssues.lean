import ExportLint.Proofs.BatchFiles
import ExportLint.Report.Basic
import Mathlib.Algebra.GroupWithZero.Nat

/-!
# Issues in order and in groups

A report puts its issues in the order of a key, and issues that the key does not tell apart keep
their own order. Grouping takes every issue once, and the numbers of the groups add up to that of
the issues.
-/
namespace ExportLint

namespace Issue

/-- Some issues by a key: each key that occurs has one group, of all issues with the key. -/
structure Partitions (key : Issue → String) (is : List Issue)
    (groups : List (String × List Issue)) : Prop where
  keys : (groups.map (·.1)).Nodup
  members : ∀ g ∈ groups, g.2 = is.filter fun i => key i == g.1
  inhabited : ∀ g ∈ groups, g.2 ≠ []
  /-- Every issue is in one group. -/
  perm : (groups.flatMap (·.2)).Perm is

theorem nodup_keys (key : Issue → String) (is : List Issue) : (keys key is).Nodup :=
  nodup_eraseDups _

theorem mem_keys {key : Issue → String} {is : List Issue} {i : Issue} (h : i ∈ is) :
    key i ∈ keys key is := List.mem_eraseDups.2 (List.mem_map_of_mem h)

theorem partitions_groups (key : Issue → String) (is : List Issue) :
    Partitions key is (groups key is) where
  keys := by
    have hkeys : (groups key is).map (·.1) = keys key is := by
      rw [groups, List.map_map]
      exact List.map_id _
    rw [hkeys]
    exact nodup_keys key is
  members := by
    intro g hg
    obtain ⟨k, -, rfl⟩ := List.mem_map.1 hg
    rfl
  inhabited := by
    intro g hg
    obtain ⟨k, hk, rfl⟩ := List.mem_map.1 hg
    obtain ⟨i, hi, rfl⟩ := List.mem_map.1 (List.mem_eraseDups.1 hk)
    exact List.ne_nil_of_mem (List.mem_filter.2 ⟨hi, beq_self_eq_true (key i)⟩)
  perm := by
    rw [groups, List.flatMap_map]
    exact Fix.perm_flatMap_filter (nodup_keys key is) fun i hi => mem_keys hi

end Issue

namespace Report

namespace SortKey

variable {k : SortKey} {a b c : Issue}

theorem le_trans (k : SortKey) (a b c : Issue) (hab : k.le a b = true) (hbc : k.le b c = true) :
    k.le a c = true := by
  cases k <;> simp only [le, decide_eq_true_eq] at hab hbc ⊢
  · exact String.le_trans hab hbc
  · exact String.le_trans hab hbc
  · exact Nat.le_trans hbc hab
  · exact Int.le_trans hab hbc

theorem le_total (k : SortKey) (a b : Issue) : (k.le a b || k.le b a) = true := by
  cases k <;> simp only [le, Bool.or_eq_true, decide_eq_true_eq]
  · exact String.le_total _ _
  · exact String.le_total _ _
  · exact Nat.le_total _ _
  · exact Int.le_total _ _

/-- The key does not tell two issues apart. -/
def ties (k : SortKey) (a b : Issue) : Bool := k.le a b && k.le b a

end SortKey

/-- Issues in the order of a key, where those that it does not tell apart keep their order. -/
structure StablySorted (k : SortKey) (is sorted : List Issue) : Prop where
  perm : sorted.Perm is
  ordered : sorted.Pairwise fun a b => k.le a b = true
  stable : ∀ i, sorted.filter (k.ties i) = is.filter (k.ties i)

theorem stablySorted_sortBy (k : SortKey) (is : List Issue) : StablySorted k is (sortBy k is) where
  perm := List.mergeSort_perm is k.le
  ordered := List.pairwise_mergeSort k.le_trans k.le_total is
  stable := by
    intro i
    -- Issues that the key does not tell apart are in order as they stand.
    have hties : (is.filter (k.ties i)).Pairwise fun a b => k.le a b = true := by
      rw [List.pairwise_filter]
      refine List.pairwise_of_forall fun a b ha hb => ?_
      rw [SortKey.ties, Bool.and_eq_true] at ha hb
      exact k.le_trans a i b ha.2 hb.1
    have hsub : (is.filter (k.ties i)).Sublist (sortBy k is) :=
      List.sublist_mergeSort k.le_trans k.le_total hties List.filter_sublist
    have hfilter := hsub.filter (k.ties i)
    rw [List.filter_filter] at hfilter
    simp only [Bool.and_self] at hfilter
    refine (hfilter.eq_of_length ?_).symm
    exact ((List.mergeSort_perm is k.le).filter _).length_eq.symm

end Report

end ExportLint
