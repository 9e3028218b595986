import ExportLint.Graph.ClosedWalk
import ExportLint.Proofs.Components
import ExportLint.Proofs.Repetitions
import Mathlib.Data.List.Chain

/-!
# Shortest closed walks

A search that goes breadth first keeps a trail to each member that it has met: a walk from the start
with its last node first. The trails come in the order of their lengths, and those that wait are one
node longer than the first of them at most. A closed walk through the start passes a node whose
trail waits, as long as none of the nodes that are done leads to the start, so that the first trail
that can be closed is the shortest. In a component there is a closed walk through every member, and
the search finds one before its steps are used up.
-/
namespace ExportLint.Graph

variable {g : Graph} {a b start : String} {w p members met nodes c : List String}
  {done waiting : List (List String)}

section Walks

/-- Nodes in a row, each with an edge to the one behind it. -/
def IsWalk (g : Graph) (w : List String) : Prop := w.IsChain fun a b => b ∈ g.next a

/-- A walk along at least one edge that ends where it starts. -/
structure IsClosedWalk (g : Graph) (w : List String) : Prop where
  isWalk : g.IsWalk w
  moves : 1 < w.length
  closes : w.head? = w.getLast?

theorem isWalk_cons_cons_iff : g.IsWalk (a :: b :: w) ↔ b ∈ g.next a ∧ g.IsWalk (b :: w) :=
  List.isChain_cons_cons

/-- A walk may be cut at each of its nodes. -/
theorem isWalk_split_iff {l r : List String} :
    g.IsWalk (l ++ a :: r) ↔ g.IsWalk (l ++ [a]) ∧ g.IsWalk (a :: r) :=
  List.isChain_split

theorem isClosedWalk_of_isWalk (h : g.IsWalk (start :: (p ++ [start]))) :
    g.IsClosedWalk (start :: (p ++ [start])) where
  isWalk := h
  moves := by simp
  closes := by
    rw [← List.cons_append, List.getLast?_concat]
    rfl

theorem IsWalk.leads (h : g.IsWalk (a :: w)) (hb : b ∈ w) : g.Leads a b := by
  induction w generalizing a with
  | nil => exact absurd hb List.not_mem_nil
  | cons n w ih =>
    obtain ⟨hedge, hrest⟩ := isWalk_cons_cons_iff.1 h
    rcases List.mem_cons.1 hb with rfl | hb
    · exact .of_mem hedge
    · exact (Leads.of_mem hedge).trans (ih hrest hb)

/-- A closed walk goes on to its end from each of its nodes. -/
theorem IsWalk.exists_rest (h : g.IsWalk (start :: (p ++ [start]))) (hb : b ∈ start :: p) :
    ∃ r, g.IsWalk (b :: (r ++ [start])) := by
  obtain ⟨l, r, he⟩ := List.append_of_mem hb
  have hcut : start :: (p ++ [start]) = l ++ b :: (r ++ [start]) := by
    rw [← List.cons_append, he, List.append_assoc, List.cons_append]
  rw [hcut, isWalk_split_iff] at h
  exact ⟨r, h.2⟩

/-- The nodes of a closed walk lead to each other. -/
theorem IsWalk.mutual (h : g.IsWalk (start :: (p ++ [start]))) (hb : b ∈ p) :
    g.Mutual start b := by
  obtain ⟨r, hrest⟩ := h.exists_rest (List.mem_cons_of_mem _ hb)
  exact ⟨h.leads (List.mem_append_left _ hb), hrest.leads (by simp)⟩

/-- A closed walk may be started at each of its nodes. -/
theorem IsClosedWalk.exists_from (h : g.IsClosedWalk w) (hs : start ∈ w) :
    ∃ p, g.IsWalk (start :: (p ++ [start])) ∧ p.length + 2 = w.length := by
  obtain ⟨l, r, rfl⟩ := List.append_of_mem hs
  obtain ⟨hwalk, hmoves, hcloses⟩ := h
  rcases List.eq_nil_or_concat r with rfl | ⟨r, x, rfl⟩
  · -- The walk ends at the start, and so it starts there.
    rw [List.getLast?_concat] at hcloses
    cases l with
    | nil => exact absurd hmoves (by simp)
    | cons x l =>
      obtain rfl : x = start := Option.some.inj hcloses
      exact ⟨l, hwalk, by simp⟩
  · rw [List.concat_eq_append] at hwalk hmoves hcloses ⊢
    have hlast : (l ++ start :: (r ++ [x])).getLast? = some x := by
      rw [← List.cons_append, ← List.append_assoc, List.getLast?_concat]
    rw [hlast] at hcloses
    cases l with
    | nil =>
      obtain rfl : start = x := Option.some.inj hcloses
      exact ⟨r, hwalk, by simp⟩
    | cons y l =>
      obtain rfl : y = x := Option.some.inj hcloses
      obtain ⟨hfirst, hsecond⟩ := isWalk_split_iff.1 hwalk
      refine ⟨r ++ y :: l, ?_, by simp; omega⟩
      have hcut : start :: ((r ++ y :: l) ++ [start]) = (start :: r) ++ y :: (l ++ [start]) := by
        simp
      rw [hcut]
      exact isWalk_split_iff.2 ⟨hsecond, hfirst⟩

/-- A node that leads to another one and back is on a closed walk. -/
theorem exists_isWalk_of_mutual (hne : b ≠ start) (h : g.Mutual start b) :
    ∃ p, g.IsWalk (start :: (p ++ [start])) := by
  obtain ⟨hthere, hback⟩ := h
  rcases Relation.ReflTransGen.cases_head hthere with rfl | ⟨n, hedge, hrest⟩
  · exact absurd rfl hne
  · obtain ⟨l, hwalk, hlast⟩ :=
      List.exists_isChain_cons_of_relationReflTransGen (hrest.trans hback)
    refine ⟨(n :: l).dropLast, ?_⟩
    rw [← hlast, List.dropLast_concat_getLast, hlast]
    exact isWalk_cons_cons_iff.2 ⟨hedge, hwalk⟩

end Walks

section Search

/-- A walk from the start through nodes that differ, the last node first. -/
structure IsTrail (g : Graph) (start : String) (v : List String) : Prop where
  isWalk : g.IsWalk v.reverse
  starts : v.getLast? = some start
  nodup : v.Nodup

theorem IsTrail.length_of_head {v : List String} (h : g.IsTrail start v)
    (hv : v.head? = some start) : v.length = 1 := by
  cases v with
  | nil => cases hv
  | cons n l =>
    obtain rfl := Option.some.inj hv
    cases l with
    | nil => rfl
    | cons m l =>
      have hlast := h.starts
      rw [List.getLast?_cons_cons] at hlast
      exact absurd (List.mem_of_getLast? hlast) (List.nodup_cons.1 h.nodup).1

theorem IsTrail.exists_head {v : List String} (h : g.IsTrail start v) : ∃ n, v.head? = some n := by
  cases v with
  | nil => cases h.starts
  | cons n l => exact ⟨n, rfl⟩

/-- A trail leads on along the edges of its last node. -/
theorem IsTrail.isWalk_concat {v : List String} {n : String} (h : g.IsTrail start v)
    (hn : v.head? = some n) (hedge : a ∈ g.next n) : g.IsWalk (v.reverse ++ [a]) := by
  cases v with
  | nil => cases hn
  | cons m l =>
    obtain rfl := Option.some.inj hn
    have hwalk := h.isWalk
    rw [List.reverse_cons] at hwalk ⊢
    rw [List.append_assoc]
    exact isWalk_split_iff.2 ⟨hwalk, isWalk_cons_cons_iff.2 ⟨hedge, List.isChain_singleton a⟩⟩

theorem IsTrail.cons {v : List String} {n : String} (h : g.IsTrail start v)
    (hn : v.head? = some n) (hedge : a ∈ g.next n) (ha : a ∉ v) : g.IsTrail start (a :: v) where
  isWalk := by
    rw [List.reverse_cons]
    exact h.isWalk_concat hn hedge
  starts := by
    rw [List.getLast?_cons, h.starts]
    rfl
  nodup := List.nodup_cons.2 ⟨ha, h.nodup⟩

/-- What a search has come upon: the trails that are done and those that wait. -/
structure Explored (g : Graph) (members : List String) (start : String)
    (done waiting : List (List String)) (met : List String) : Prop where
  heads : (done ++ waiting).map List.head? = (start :: met).map some
  nodup : (start :: met).Nodup
  within : met ⊆ members
  trails : ∀ v ∈ done ++ waiting, g.IsTrail start v ∧ v ⊆ start :: met
  ordered : waiting.Pairwise fun u v => u.length ≤ v.length
  near : ∀ v ∈ waiting.head?, ∀ u ∈ done ++ waiting, u.length ≤ v.length + 1
  expanded : ∀ v ∈ done, ∀ n, v.head? = some n → start ∉ g.next n ∧
    ∀ m ∈ g.next n, m ∈ members →
      ∃ u ∈ done ++ waiting, u.head? = some m ∧ u.length ≤ v.length + 1

namespace Explored

theorem initial (g : Graph) (members : List String) (start : String) :
    g.Explored members start [] [[start]] [] where
  heads := rfl
  nodup := List.nodup_singleton start
  within := List.nil_subset _
  trails v hv := by
    obtain rfl := List.mem_singleton.1 hv
    exact ⟨⟨List.isChain_singleton start, rfl, List.nodup_singleton start⟩, List.Subset.refl _⟩
  ordered := List.pairwise_singleton _ _
  near v hv u hu := by
    obtain rfl := Option.some.inj hv
    obtain rfl := List.mem_singleton.1 hu
    exact Nat.le_succ _
  expanded v hv := absurd hv List.not_mem_nil

/-- No more trails are known than there are members. -/
theorem length_le (h : g.Explored members start done waiting met) (hs : start ∈ members) :
    done.length + waiting.length ≤ members.length := by
  have hheads := congrArg List.length h.heads
  rw [List.length_map, List.length_map, List.length_append] at hheads
  rw [hheads]
  exact (List.subperm_of_subset h.nodup (List.cons_subset.2 ⟨hs, h.within⟩)).length_le

/-- A way on that leads to the start passes a node whose trail waits. -/
theorem exists_waiting (h : g.Explored members start done waiting met) {u : List String}
    (hu : u ∈ done ++ waiting) (ha : u.head? = some a) (hw : g.IsWalk (a :: (p ++ [start])))
    (hp : p ⊆ members) : ∃ v ∈ waiting, v.length ≤ u.length + p.length := by
  induction p generalizing a u with
  | nil =>
    rcases List.mem_append.1 hu with hdone | hwaiting
    · exact absurd (isWalk_cons_cons_iff.1 hw).1 (h.expanded u hdone a ha).1
    · exact ⟨u, hwaiting, Nat.le_refl _⟩
  | cons b p ih =>
    rcases List.mem_append.1 hu with hdone | hwaiting
    · obtain ⟨hedge, hrest⟩ := isWalk_cons_cons_iff.1 hw
      obtain ⟨hb, hp⟩ := List.cons_subset.1 hp
      obtain ⟨u', hu', hb', hlength⟩ := (h.expanded u hdone a ha).2 b hedge hb
      obtain ⟨v, hv, hle⟩ := ih hu' hb' hrest hp
      exact ⟨v, hv, by rw [List.length_cons]; omega⟩
    · exact ⟨u, hwaiting, Nat.le_add_right _ _⟩

/-- Each node that is met, and the start, has a trail. -/
theorem exists_trail (h : g.Explored members start done waiting met) (hb : b ∈ start :: met) :
    ∃ u ∈ done ++ waiting, u.head? = some b := by
  have hmem : some b ∈ (done ++ waiting).map List.head? := by
    rw [h.heads]
    exact List.mem_map_of_mem hb
  exact List.mem_map.1 hmem

/-- No closed walk through the start is shorter than the first trail that waits, when closed. -/
theorem exists_first (h : g.Explored members start done waiting met)
    (hw : g.IsWalk (start :: (p ++ [start]))) (hp : p ⊆ members) :
    ∃ v rest, waiting = v :: rest ∧ v.length ≤ p.length + 1 := by
  obtain ⟨u, hu, hhead⟩ := h.exists_trail (List.mem_cons_self (a := start) (l := met))
  obtain ⟨v, hv, hle⟩ := h.exists_waiting hu hhead hw hp
  have hone : u.length = 1 := (h.trails u hu).1.length_of_head hhead
  cases hwaiting : waiting with
  | nil => exact absurd (hwaiting ▸ hv) List.not_mem_nil
  | cons first rest =>
    refine ⟨first, rest, rfl, ?_⟩
    have hordered := h.ordered
    rw [hwaiting] at hv hordered
    rcases List.mem_cons.1 hv with rfl | hv
    · omega
    · have := (List.pairwise_cons.1 hordered).1 v hv
      omega

/-- The members that a node leads to and that have not been met. -/
def newMembers (g : Graph) (members met : List String) (n : String) : List String :=
  ((g.next n).filter fun m => members.contains m && !met.contains m).eraseDups

theorem mem_newMembers_iff {n : String} :
    a ∈ newMembers g members met n ↔ a ∈ g.next n ∧ a ∈ members ∧ a ∉ met := by
  simp [newMembers]

/-- A new member is met by the trail through that node. -/
theorem trail_cons {v : List String} {n : String}
    (h : g.Explored members start done (v :: waiting) met) (hn : v.head? = some n)
    (hs : start ∉ g.next n) (ha : a ∈ newMembers g members met n) :
    g.IsTrail start (a :: v) ∧ a :: v ⊆ start :: (met ++ newMembers g members met n) := by
  obtain ⟨htrail, hsub⟩ := h.trails v (List.mem_append_right _ List.mem_cons_self)
  obtain ⟨hnext, -, hmet⟩ := mem_newMembers_iff.1 ha
  refine ⟨htrail.cons hn hnext fun hv => ?_, ?_⟩
  · rcases List.mem_cons.1 (hsub hv) with rfl | hm
    · exact hs hnext
    · exact hmet hm
  · rw [← List.cons_append]
    exact List.cons_subset.2 ⟨List.mem_append_right _ ha,
      fun m hm => List.mem_append_left _ (hsub hm)⟩

/-- Trails that are known, or one step longer than the first that waits, are no longer than that. -/
theorem length_le_succ {v u : List String} {ms : List String}
    (h : g.Explored members start done (v :: waiting) met)
    (hu : u ∈ (done ++ v :: waiting) ++ ms.map (· :: v)) : u.length ≤ v.length + 1 := by
  rcases List.mem_append.1 hu with hu | hu
  · exact h.near v rfl u hu
  · obtain ⟨m, -, rfl⟩ := List.mem_map.1 hu
    exact Nat.le_refl _

/-- All that a node leads to is known once its trail is done. -/
theorem exists_of_mem_next {v : List String} {n : String}
    (h : g.Explored members start done (v :: waiting) met) (ha : a ∈ g.next n)
    (hmem : a ∈ members) :
    ∃ u ∈ (done ++ v :: waiting) ++ (newMembers g members met n).map (· :: v),
      u.head? = some a ∧ u.length ≤ v.length + 1 := by
  by_cases hmet : a ∈ met
  · obtain ⟨u, hu, hhead⟩ := h.exists_trail (List.mem_cons_of_mem _ hmet)
    exact ⟨u, List.mem_append_left _ hu, hhead, h.near v rfl u hu⟩
  · have hnew := mem_newMembers_iff.2 ⟨ha, hmem, hmet⟩
    exact ⟨a :: v, List.mem_append_right _ (List.mem_map_of_mem hnew), rfl, Nat.le_refl _⟩

/-- The search goes on from the first trail that waits to the new members behind it. -/
theorem step {v : List String} {n : String}
    (h : g.Explored members start done (v :: waiting) met) (hn : v.head? = some n)
    (hs : start ∉ g.next n) :
    g.Explored members start (done ++ [v])
      (waiting ++ (newMembers g members met n).map (· :: v))
      (met ++ newMembers g members met n) := by
  have hall : (done ++ [v]) ++ (waiting ++ (newMembers g members met n).map (· :: v)) =
      (done ++ v :: waiting) ++ (newMembers g members met n).map (· :: v) := by simp
  obtain ⟨hfirst, hrest⟩ := List.pairwise_cons.1 h.ordered
  refine { heads := ?heads, nodup := ?nodup, within := ?within, trails := ?trails,
           ordered := ?ordered, near := ?near, expanded := ?expanded }
  case heads =>
    rw [hall, List.map_append, h.heads, List.map_map, ← List.cons_append, List.map_append]
    rfl
  case nodup =>
    rw [← List.cons_append, List.nodup_append']
    refine ⟨h.nodup, nodup_eraseDups _, fun m hm hnew => ?_⟩
    obtain ⟨hnext, -, hmet⟩ := mem_newMembers_iff.1 hnew
    rcases List.mem_cons.1 hm with rfl | hm
    · exact hs hnext
    · exact hmet hm
  case within =>
    exact List.append_subset.2 ⟨h.within, fun m hm => (mem_newMembers_iff.1 hm).2.1⟩
  case trails =>
    intro u hu
    rw [hall, List.mem_append] at hu
    rcases hu with hu | hu
    · obtain ⟨htrail, hsub⟩ := h.trails u hu
      exact ⟨htrail, fun m hm => List.mem_append_left _ (hsub hm)⟩
    · obtain ⟨m, hm, rfl⟩ := List.mem_map.1 hu
      exact h.trail_cons hn hs hm
  case ordered =>
    -- The new trails are all of one length, and none that waits is longer.
    refine List.pairwise_append.2 ⟨hrest, ?_, fun u hu w hw => ?_⟩
    · rw [List.pairwise_map]
      exact List.pairwise_of_forall fun _ _ => Nat.le_refl _
    · obtain ⟨m, -, rfl⟩ := List.mem_map.1 hw
      exact h.near v rfl u (List.mem_append_right _ (List.mem_cons_of_mem _ hu))
  case near =>
    intro w hw u hu
    have hlow : v.length ≤ w.length := by
      rcases List.mem_append.1 (List.mem_of_mem_head? hw) with hw | hw
      · exact hfirst w hw
      · obtain ⟨m, -, rfl⟩ := List.mem_map.1 hw
        exact Nat.le_succ _
    have hhigh : u.length ≤ v.length + 1 := h.length_le_succ (hall ▸ hu)
    omega
  case expanded =>
    intro u hu x hx
    rw [hall]
    rcases List.mem_append.1 hu with hu | hu
    · obtain ⟨hopen, hon⟩ := h.expanded u hu x hx
      refine ⟨hopen, fun m hm hmem => ?_⟩
      obtain ⟨u', hu', hfacts⟩ := hon m hm hmem
      exact ⟨u', List.mem_append_left _ hu', hfacts⟩
    · obtain rfl := List.mem_singleton.1 hu
      obtain rfl : n = x := Option.some.inj (hn.symm.trans hx)
      exact ⟨hs, fun m hm hmem => h.exists_of_mem_next hm hmem⟩

end Explored

/-- A search whose steps suffice closes a shortest trail, if there is a closed walk at all. -/
theorem exists_closeFrom {fuel : Nat} (h : g.Explored members start done waiting met)
    (hs : start ∈ members) (hw : g.IsWalk (start :: (p ++ [start]))) (hp : p ⊆ members)
    (hfuel : members.length ≤ done.length + fuel) :
    ∃ v n, g.closeFrom members start fuel waiting met = some (v.reverse ++ [start]) ∧
      g.IsTrail start v ∧ v.head? = some n ∧ start ∈ g.next n ∧ v ⊆ members ∧
      ∀ p, g.IsWalk (start :: (p ++ [start])) → p ⊆ members → v.length ≤ p.length + 1 := by
  induction fuel generalizing done waiting met with
  | zero =>
    obtain ⟨v, rest, rfl, -⟩ := h.exists_first hw hp
    have := h.length_le hs
    rw [List.length_cons] at this
    omega
  | succ fuel ih =>
    obtain ⟨v, rest, rfl, -⟩ := h.exists_first hw hp
    obtain ⟨htrail, hsub⟩ := h.trails v (List.mem_append_right _ List.mem_cons_self)
    obtain ⟨n, hn⟩ := htrail.exists_head
    rw [closeFrom, hn, Option.getD_some]
    by_cases hclose : start ∈ g.next n
    · refine ⟨v, n, if_pos (List.contains_iff_mem.2 hclose), htrail, hn, hclose, ?_, ?_⟩
      · exact List.Subset.trans hsub (List.cons_subset.2 ⟨hs, h.within⟩)
      · intro p hw hp
        obtain ⟨_, _, he, hle⟩ := h.exists_first hw hp
        obtain ⟨rfl, -⟩ := List.cons.inj he
        exact hle
    · rw [if_neg (mt List.contains_iff_mem.1 hclose)]
      refine ih (h.step hn hclose) ?_
      rw [List.length_append, List.length_singleton]
      omega

end Search

section Components

/-- Where the search closes a walk, that walk is given. -/
theorem closedWalk_eq_of_closeFrom (hc : c.head? = some start)
    (h : g.closeFrom c start c.length [[start]] [] = some w) : g.closedWalk c = some w := by
  cases c with
  | nil => cases hc
  | cons a c =>
    obtain rfl := Option.some.inj hc
    rw [closedWalk, h, Option.getD_some]

/-- In a component the search closes a shortest walk through the first member. -/
theorem exists_closeFrom_of_mem_cycles (hc : c ∈ g.cycles nodes) :
    ∃ start between, c.head? = some start ∧
      g.closeFrom c start c.length [[start]] [] = some (start :: (between ++ [start])) ∧
      g.IsWalk (start :: (between ++ [start])) ∧ (start :: between).Nodup ∧ between ⊆ c ∧
      ∀ w, g.IsClosedWalk w → start ∈ w → between.length + 2 ≤ w.length := by
  obtain ⟨hlength, n, -, hcomponent⟩ := exists_isComponent hc
  obtain ⟨start, hstart, hhead⟩ := exists_head_of_mem_cycles hc
  have hmember := hcomponent.of_mem hstart
  have hwithin {p : List String} (hw : g.IsWalk (start :: (p ++ [start]))) : p ⊆ c :=
    fun m hm => (hmember.mem_iff m).2 (hw.mutual hm)
  -- Another member leads to a closed walk, so that the search does not run dry.
  have hcard : 1 < c.toFinset.card := by rwa [List.toFinset_card_of_nodup hcomponent.nodup]
  obtain ⟨m, hm, hne⟩ := Finset.exists_mem_ne hcard start
  obtain ⟨p, hp⟩ :=
    exists_isWalk_of_mutual hne ((hmember.mem_iff m).1 (List.mem_toFinset.1 hm))
  obtain ⟨v, n, hclose, htrail, hn, hedge, hsub, hshortest⟩ :=
    exists_closeFrom (.initial g c start) hstart hp (hwithin hp) (Nat.le_add_left _ _)
  obtain ⟨l, rfl⟩ := List.getLast?_eq_some_iff.1 htrail.starts
  have hreverse : (l ++ [start]).reverse = start :: l.reverse := List.reverse_concat
  have hwalk := htrail.isWalk_concat hn hedge
  rw [hreverse] at hclose hwalk
  refine ⟨start, l.reverse, hhead, hclose, hwalk, ?_, hwithin hwalk, fun w hw hs => ?_⟩
  · rw [← hreverse, List.nodup_reverse]
    exact htrail.nodup
  · obtain ⟨p, hp, hlength⟩ := hw.exists_from hs
    have := hshortest p hp (hwithin hp)
    rw [List.length_append, List.length_singleton] at this
    rw [List.length_reverse]
    omega

/-- For each cycle the search finds a closed walk from its first member, without falling back on
naming all members: along edges, through members only, none of them twice, and no closed walk
through that member is shorter. -/
theorem shortest_closed_walk_found (hc : c ∈ g.cycles nodes) :
    ∃ start between, c.head? = some start ∧
      g.closeFrom c start c.length [[start]] [] = some (start :: (between ++ [start])) ∧
      g.closedWalk c = some (start :: (between ++ [start])) ∧
      g.IsClosedWalk (start :: (between ++ [start])) ∧ (start :: between).Nodup ∧
      (start :: between) ⊆ c ∧ ∀ w, g.IsClosedWalk w → start ∈ w →
        (start :: (between ++ [start])).length ≤ w.length := by
  obtain ⟨start, between, hhead, hclose, hwalk, hnodup, hsub, hshortest⟩ :=
    exists_closeFrom_of_mem_cycles hc
  refine ⟨start, between, hhead, hclose, closedWalk_eq_of_closeFrom hhead hclose,
    isClosedWalk_of_isWalk hwalk, hnodup, ?_, fun w hw hs => ?_⟩
  · exact List.cons_subset.2 ⟨List.mem_of_mem_head? hhead, hsub⟩
  · rw [List.length_cons, List.length_append, List.length_singleton]
    exact hshortest w hw hs

/-- A component with a short and a long way around, an edge from a member to itself and an edge that
leaves it. -/
def detourGraph : Graph := [("a", ["x", "b", "c"]), ("b", ["c"]), ("c", ["c", "b", "a"])]

/-- The short way is taken, and none is shorter. -/
theorem detourGraph_closedWalk :
    ["a", "b", "c"] ∈ detourGraph.cycles ["a", "b", "c"] ∧
      detourGraph.closedWalk ["a", "b", "c"] = some ["a", "c", "a"] ∧
      detourGraph.IsClosedWalk ["a", "c", "a"] ∧
      ∀ w, detourGraph.IsClosedWalk w → "a" ∈ w → 3 ≤ w.length := by
  have hcomponents : (detourGraph.search ["a", "b", "c"]).components =
      [["x"], ["c", "b", "a"]] := by decide +kernel
  have hcycle : ["a", "b", "c"] ∈ detourGraph.cycles ["a", "b", "c"] := by
    refine mem_cycles_iff.2 ⟨["c", "b", "a"], ?_, by decide, ?_⟩
    · rw [hcomponents]
      exact List.mem_cons_of_mem _ List.mem_cons_self
    · simp [sortByPosition, List.mergeSort, position, List.idxOf_cons]
  have hwalk : detourGraph.closedWalk ["a", "b", "c"] = some ["a", "c", "a"] := by decide +kernel
  obtain ⟨start, between, hhead, -, hfound, hclosed, -, -, hshortest⟩ :=
    shortest_closed_walk_found hcycle
  obtain rfl := Option.some.inj hhead
  obtain he := Option.some.inj (hfound.symm.trans hwalk)
  rw [he] at hclosed hshortest
  exact ⟨hcycle, hwalk, hclosed, hshortest⟩

end Components

end ExportLint.Graph
