import ExportLint.Proofs.ReachableNodes
import ExportLint.Proofs.Repetitions
import ExportLint.Proofs.SearchLength
import Mathlib.Data.List.Nodup

/-!
# What a search for components knows

The stack of a search lies in layers: one for each visit, with the node that is visited below and
the nodes above it whose visits have ended. Those nodes and the visited one lead to each other, and
what they lead to next has been found and does not stand on the stack before the lowest number that
the visit knows. So where that is the number of the visited node, nothing on the way from its layer
leads below it, and its layer is its component.
-/
namespace ExportLint.Graph.Search

variable {g : Graph} {found found' nodes : List String}
  {whole whole' stack above : List (String × Nat)} {visits : List Visit}
  {components : List (List String)} {v w : Visit} {low low' : Nat} {n t : String} {s s' : Search}

section Layers

/-- A target was found, and stands before no number on the stack. -/
structure Settled (found : List String) (whole : List (String × Nat)) (low : Nat) (t : String) :
    Prop where
  found : t ∈ found
  above : ∀ j, (t, j) ∈ whole → low ≤ j

theorem Settled.mono (h : Settled found whole low t) (hlow : low' ≤ low) :
    Settled found whole low' t :=
  ⟨h.found, fun j hj => Nat.le_trans hlow (h.above j hj)⟩

/-- The layer of a visit: the nodes above the visited one. -/
structure Layer (g : Graph) (found : List String) (whole : List (String × Nat)) (v : Visit)
    (above : List (String × Nat)) : Prop where
  mutual_ : ∀ e ∈ above, g.Mutual v.node e.1
  low_le : v.low ≤ v.number
  low_reached : ∃ y, (y, v.low) ∈ whole ∧ g.Leads v.node y
  rest : ∀ t ∈ v.rest, t ∈ g.next v.node
  tried : ∀ t ∈ g.next v.node, t ∈ v.rest ∨ Settled found whole v.low t
  done : ∀ e ∈ above, ∀ t ∈ g.next e.1, Settled found whole v.low t

/-- A stack lies in the layers of visits, each of which came from the next one. -/
inductive Layered (g : Graph) (found : List String) (whole : List (String × Nat)) :
    List Visit → List (String × Nat) → Prop
  | nil : Layered g found whole [] []
  | cons {v : Visit} {visits : List Visit} {above below : List (String × Nat)}
      (layer : Layer g found whole v above)
      (parent : ∀ p ∈ visits.head?, g.Leads p.node v.node)
      (rest : Layered g found whole visits below) :
      Layered g found whole (v :: visits) (above ++ (v.node, v.number) :: below)

theorem Layered.mem (h : Layered g found whole visits stack) (hv : v ∈ visits) :
    (v.node, v.number) ∈ stack := by
  induction h with
  | nil => exact absurd hv List.not_mem_nil
  | cons _ _ _ ih =>
    rcases List.mem_cons.1 hv with rfl | hv
    · exact List.mem_append_right _ List.mem_cons_self
    · exact List.mem_append_right _ (List.mem_cons_of_mem _ (ih hv))

theorem Layered.low_le (h : Layered g found whole visits stack) (hv : v ∈ visits) :
    v.low ≤ v.number := by
  induction h with
  | nil => exact absurd hv List.not_mem_nil
  | cons layer _ _ ih =>
    rcases List.mem_cons.1 hv with rfl | hv
    · exact layer.low_le
    · exact ih hv

/-- All that is on the stack leads to the latest visit. -/
theorem Layered.leads (h : Layered g found whole visits stack) (hv : v ∈ visits.head?) :
    ∀ e ∈ stack, g.Leads e.1 v.node := by
  induction h generalizing v with
  | nil => cases hv
  | @cons p visits above below layer parent rest ih =>
    cases hv
    intro e he
    rcases List.mem_append.1 he with he | he
    · exact (layer.mutual_ e he).2
    · rcases List.mem_cons.1 he with rfl | he
      · exact .refl _
      · cases rest with
        | nil => cases he
        | cons _ _ _ => exact (ih rfl e he).trans (parent _ rfl)

theorem Layered.eq_nil (h : Layered g found whole [] stack) : stack = [] := by
  cases h
  rfl

theorem Layered.exists_layer (h : Layered g found whole (v :: visits) stack) :
    ∃ above below, stack = above ++ (v.node, v.number) :: below ∧ Layer g found whole v above ∧
      (∀ p ∈ visits.head?, g.Leads p.node v.node) ∧ Layered g found whole visits below := by
  cases h with
  | cons layer parent rest => exact ⟨_, _, rfl, layer, parent, rest⟩

/-- The stack may change as long as what a visit knows to reach stays, and nothing comes before. -/
theorem Layer.congr (h : Layer g found whole v above) (hfound : found ⊆ found')
    (hnew : ∀ e ∈ whole', e ∈ whole ∨ v.low ≤ e.2)
    (hold : ∀ y, (y, v.low) ∈ whole → (y, v.low) ∈ whole') : Layer g found' whole' v above := by
  have hsettled {t : String} (ht : Settled found whole v.low t) : Settled found' whole' v.low t :=
    ⟨hfound ht.found, fun j hj => (hnew _ hj).elim (ht.above j) id⟩
  obtain ⟨y, hy, hleads⟩ := h.low_reached
  exact ⟨h.mutual_, h.low_le, ⟨y, hold y hy, hleads⟩, h.rest,
    fun t ht => (h.tried t ht).imp_right hsettled, fun e he t ht => hsettled (h.done e he t ht)⟩

theorem Layered.congr (h : Layered g found whole visits stack) (hfound : found ⊆ found')
    (hnew : ∀ v ∈ visits, ∀ e ∈ whole', e ∈ whole ∨ v.low ≤ e.2)
    (hold : ∀ v ∈ visits, ∀ y, (y, v.low) ∈ whole → (y, v.low) ∈ whole') :
    Layered g found' whole' visits stack := by
  induction h with
  | nil => exact .nil
  | cons layer parent rest ih =>
    obtain ⟨hnew, hnews⟩ := List.forall_mem_cons.1 hnew
    obtain ⟨hold, holds⟩ := List.forall_mem_cons.1 hold
    exact .cons (layer.congr hfound hnew hold) parent (ih hnews holds)

end Layers

section Steps

/-- Nodes are found once, and stay on the stack until their component is known. -/
structure Consistent (g : Graph) (found : List String) (stack : List (String × Nat))
    (components : List (List String)) : Prop where
  names : (stack.map (·.1)).Nodup
  numbers : stack.Pairwise fun e f => f.2 < e.2
  bounded : ∀ e ∈ stack, e.1 ∈ found ∧ e.2 < found.length
  closed : ∀ a ∈ components.flatten, ∀ b ∈ g.next a, b ∈ components.flatten
  isComponent : ∀ c ∈ components, ∃ n, g.IsComponent n c
  nodup : components.flatten.Nodup
  mem_flatten : ∀ n, n ∈ components.flatten ↔ n ∈ found ∧ n ∉ stack.map (·.1)

/-- What holds of a search from some nodes after any number of steps. -/
structure Sound (g : Graph) (nodes : List String) (s : Search) : Prop where
  layered : Layered g s.found s.stack s.visits s.stack
  consistent : Consistent g s.found s.stack s.components
  starts : s.starts ⊆ nodes
  covered : ∀ r ∈ nodes, r ∈ s.starts ∨ r ∈ s.found
  reached : ∀ n ∈ s.found, ∃ r ∈ nodes, g.Leads r n

theorem sound_start (g : Graph) (nodes : List String) : Sound g nodes { starts := nodes } where
  layered := .nil
  consistent := ⟨List.nodup_nil, .nil, by simp, by simp, by simp, List.nodup_nil, by simp⟩
  starts := List.Subset.refl nodes
  covered r hr := .inl hr
  reached := by simp

theorem Consistent.enter (h : Consistent g found stack components) (hn : n ∉ found) :
    Consistent g (n :: found) ((n, found.length) :: stack) components where
  names := by
    refine List.nodup_cons.2 ⟨fun hm => ?_, h.names⟩
    obtain ⟨e, he, rfl⟩ := List.mem_map.1 hm
    exact hn (h.bounded e he).1
  numbers := List.pairwise_cons.2 ⟨fun e he => (h.bounded e he).2, h.numbers⟩
  bounded := by
    refine List.forall_mem_cons.2 ⟨⟨List.mem_cons_self, Nat.lt_succ_self _⟩, fun e he => ?_⟩
    exact ⟨List.mem_cons_of_mem _ (h.bounded e he).1, Nat.lt_succ_of_lt (h.bounded e he).2⟩
  closed := h.closed
  isComponent := h.isComponent
  nodup := h.nodup
  mem_flatten m := by
    rw [h.mem_flatten, List.map_cons, List.mem_cons, List.mem_cons]
    constructor
    · rintro ⟨hm, hstack⟩
      exact ⟨.inr hm, not_or.2 ⟨fun he : m = n => hn (he ▸ hm), hstack⟩⟩
    · rintro ⟨rfl | hm, hstack⟩
      · exact absurd (.inl rfl) hstack
      · exact ⟨hm, fun hs => hstack (.inr hs)⟩

/-- A new node lies in a layer of its own. -/
theorem Layered.enter (h : Layered g (n :: found) ((n, found.length) :: stack) visits stack)
    (hparent : ∀ p ∈ visits.head?, g.Leads p.node n) :
    Layered g (n :: found) ((n, found.length) :: stack)
      (⟨n, found.length, found.length, g.next n⟩ :: visits) ((n, found.length) :: stack) := by
  have layer : Layer g (n :: found) ((n, found.length) :: stack)
      ⟨n, found.length, found.length, g.next n⟩ [] :=
    ⟨by simp, Nat.le_refl _, ⟨n, List.mem_cons_self, .refl n⟩, fun _ ht => ht,
      fun _ ht => .inl ht, by simp⟩
  exact .cons layer hparent h

/-- Layers stay as they are below a new node. -/
theorem Layered.below_new (h : Layered g found stack visits whole)
    (hc : Consistent g found stack components) (hsub : whole ⊆ stack) :
    Layered g (n :: found) ((n, found.length) :: stack) visits whole := by
  refine h.congr (List.subset_cons_self _ _) (fun w hw e he => ?_)
    fun w _ y hy => List.mem_cons_of_mem _ hy
  rcases List.mem_cons.1 he with rfl | he
  · have hbound := (hc.bounded _ (hsub (h.mem hw))).2
    exact .inr (Nat.le_trans (h.low_le hw) (Nat.le_of_lt hbound))
  · exact .inl he

theorem Sound.start_skip {starts : List String} (h : Sound g nodes s)
    (hs : s.starts = n :: starts) (hn : n ∈ s.found) : Sound g nodes { s with starts } where
  layered := h.layered
  consistent := h.consistent
  starts := fun r hr => h.starts (hs ▸ List.mem_cons_of_mem n hr)
  covered r hr := by
    rcases h.covered r hr with hm | hm
    · rw [hs] at hm
      rcases List.mem_cons.1 hm with rfl | hm
      · exact .inr hn
      · exact .inl hm
    · exact .inr hm
  reached := h.reached

theorem Sound.start_enter {starts : List String} (h : Sound g nodes s)
    (hs : s.starts = n :: starts) (hv : s.visits = []) (hn : n ∉ s.found) :
    Sound g nodes (enter g { s with starts } n) where
  layered := by
    refine (h.layered.below_new h.consistent (List.Subset.refl _)).enter ?_
    rw [hv]
    exact fun p hp => by cases hp
  consistent := h.consistent.enter hn
  starts := fun r hr => h.starts (hs ▸ List.mem_cons_of_mem n hr)
  covered r hr := by
    rcases h.covered r hr with hm | hm
    · rw [hs] at hm
      rcases List.mem_cons.1 hm with rfl | hm
      · exact .inr List.mem_cons_self
      · exact .inl hm
    · exact .inr (List.mem_cons_of_mem n hm)
  reached := List.forall_mem_cons.2
    ⟨⟨n, h.starts (hs ▸ List.mem_cons_self), .refl n⟩, h.reached⟩

/-- A target has been tried once the visit knows what it stands for on the stack. -/
theorem Layer.try_ {rest : List String} (h : Layer g found whole v above)
    (hrest : v.rest = t :: rest) (hle : low ≤ v.low) (hreached : low = v.low ∨ (t, low) ∈ whole)
    (ht : Settled found whole low t) : Layer g found whole { v with rest, low } above where
  mutual_ := h.mutual_
  low_le := Nat.le_trans hle h.low_le
  low_reached := by
    rcases hreached with rfl | hreached
    · exact h.low_reached
    · exact ⟨t, hreached, .of_mem (h.rest t (hrest ▸ List.mem_cons_self))⟩
  rest u hu := h.rest u (hrest ▸ List.mem_cons_of_mem t hu)
  tried u hu := by
    rcases h.tried u hu with hm | hm
    · rw [hrest] at hm
      rcases List.mem_cons.1 hm with rfl | hm
      · exact .inr ht
      · exact .inl hm
    · exact .inr (hm.mono hle)
  done e he u hu := (h.done e he u hu).mono hle

theorem Layered.try_ {rest : List String} (h : Layered g found whole (v :: visits) stack)
    (hrest : v.rest = t :: rest) (hle : low ≤ v.low) (hreached : low = v.low ∨ (t, low) ∈ whole)
    (ht : Settled found whole low t) :
    Layered g found whole ({ v with rest, low } :: visits) stack := by
  obtain ⟨above, below, rfl, layer, parent, hbelow⟩ := h.exists_layer
  exact .cons (layer.try_ hrest hle hreached ht) parent hbelow

/-- The number of a target on the stack, if it is lower than what is known. -/
theorem low_of_lookup (hn : (stack.map (·.1)).Nodup)
    (hlow : low' = (stack.lookup t).elim low (min low)) :
    low' ≤ low ∧ (low' = low ∨ (t, low') ∈ stack) ∧ ∀ j, (t, j) ∈ stack → low' ≤ j := by
  subst hlow
  have hmem (j : Nat) : (t, j) ∈ stack ↔ stack.lookup t = some j :=
    (lookup_eq_some_iff_of_nodup hn).symm
  simp only [hmem]
  cases stack.lookup t with
  | none => exact ⟨Nat.le_refl _, .inl rfl, fun j hj => by cases hj⟩
  | some i =>
    refine ⟨Nat.min_le_left _ _, ?_, fun j hj => ?_⟩
    · rw [Option.elim_some, Option.some.injEq]
      omega
    · cases hj
      exact Nat.min_le_right _ _

/-- What is still to be tried is a target of the visited node. -/
theorem Sound.edge {rest : List String} (h : Sound g nodes s) (hv : s.visits = v :: visits)
    (hrest : v.rest = t :: rest) : t ∈ g.next v.node := by
  obtain ⟨above, below, -, layer, -⟩ := (hv ▸ h.layered).exists_layer
  exact layer.rest t (hrest ▸ List.mem_cons_self)

theorem Sound.try_found {rest : List String} (h : Sound g nodes s) (hv : s.visits = v :: visits)
    (hrest : v.rest = t :: rest) (ht : t ∈ s.found)
    (hlow : low = (s.stack.lookup t).elim v.low (min v.low)) :
    Sound g nodes { s with visits := { v with rest, low } :: visits } where
  layered := by
    obtain ⟨hle, hreached, habove⟩ := low_of_lookup h.consistent.names hlow
    exact (hv ▸ h.layered).try_ hrest hle hreached ⟨ht, habove⟩
  consistent := h.consistent
  starts := h.starts
  covered := h.covered
  reached := h.reached

theorem Sound.try_enter {rest : List String} (h : Sound g nodes s) (hv : s.visits = v :: visits)
    (hrest : v.rest = t :: rest) (ht : t ∉ s.found) :
    Sound g nodes (enter g { s with visits := { v with rest } :: visits } t) where
  layered := by
    have hlayered := h.layered.below_new (n := t) h.consistent (List.Subset.refl _)
    rw [hv] at hlayered
    have hsettled : Settled (t :: s.found) ((t, s.found.length) :: s.stack) v.low t := by
      refine ⟨List.mem_cons_self, fun j hj => ?_⟩
      rcases List.mem_cons.1 hj with he | hj
      · cases he
        have hmem := h.layered.mem (hv ▸ List.mem_cons_self)
        have hle := h.layered.low_le (hv ▸ List.mem_cons_self)
        exact Nat.le_trans hle (Nat.le_of_lt (h.consistent.bounded _ hmem).2)
      · exact absurd (h.consistent.bounded _ hj).1 ht
    have hedge : g.Leads v.node t := .of_mem (h.edge hv hrest)
    refine (hlayered.try_ hrest (Nat.le_refl _) (.inl rfl) hsettled).enter fun p hp => ?_
    cases hp
    exact hedge
  consistent := h.consistent.enter ht
  starts := h.starts
  covered r hr := (h.covered r hr).imp_right (List.mem_cons_of_mem t)
  reached := by
    refine List.forall_mem_cons.2 ⟨?_, h.reached⟩
    have hmem := h.layered.mem (hv ▸ List.mem_cons_self)
    obtain ⟨r, hr, hleads⟩ := h.reached _ (h.consistent.bounded _ hmem).1
    exact ⟨r, hr, hleads.trans (.of_mem (h.edge hv hrest))⟩

end Steps

section Ends

variable {below : List (String × Nat)}

/-- Nodes are taken off the stack down to the visited one. -/
theorem popTo_eq (hn : ((above ++ (n, low) :: below).map (·.1)).Nodup) :
    popTo n (above ++ (n, low) :: below) = (above.map (·.1) ++ [n], below) := by
  induction above with
  | nil => simp [popTo]
  | cons e above ih =>
    obtain ⟨hne, hn⟩ := List.nodup_cons.1 hn
    have hname : e.1 ≠ n := fun he => hne (by simp [he])
    rw [List.cons_append, popTo, if_neg hname, ih hn]
    rfl

/-- What is done stands in its component or on the stack above the visited node. -/
theorem Consistent.mem_of_settled (h : Consistent g found (above ++ (n, low) :: below) components)
    (ht : Settled found (above ++ (n, low) :: below) low t) :
    t ∈ components.flatten ∨ t ∈ above.map (·.1) ++ [n] := by
  by_cases hm : t ∈ (above ++ (n, low) :: below).map (·.1)
  · refine .inr ?_
    obtain ⟨e, he, rfl⟩ := List.mem_map.1 hm
    rw [List.mem_append]
    rcases List.mem_append.1 he with he' | he'
    · exact .inl (List.mem_map_of_mem he')
    · rcases List.mem_cons.1 he' with rfl | he'
      · exact .inr (List.mem_singleton_self _)
      · -- Below the visited node the numbers are lower.
        have hless := (List.pairwise_append.1 h.numbers).2.1
        have hlow := (List.pairwise_cons.1 hless).1 e he'
        exact absurd (ht.above e.2 he) (Nat.not_le_of_lt hlow)
  · exact .inl ((h.mem_flatten t).2 ⟨ht.found, hm⟩)

/-- The nodes of a layer, the visited one last. -/
def layerNodes (above : List (String × Nat)) (v : Visit) : List String :=
  above.map (·.1) ++ [v.node]

/-- Where a visit ends and reaches nothing before its node, its layer leads to nothing but itself
and the components that are known. -/
theorem Layer.closed (h : Layer g found (above ++ (v.node, v.number) :: below) v above)
    (hc : Consistent g found (above ++ (v.node, v.number) :: below) components)
    (hrest : v.rest = []) (hlow : v.low = v.number) {a b : String}
    (ha : a ∈ components.flatten ∨ a ∈ layerNodes above v) (hb : b ∈ g.next a) :
    b ∈ components.flatten ∨ b ∈ layerNodes above v := by
  rcases ha with ha | ha
  · exact .inl (hc.closed a ha b hb)
  · have hsettled : Settled found (above ++ (v.node, v.number) :: below) v.low b := by
      rcases List.mem_append.1 ha with ha | ha
      · obtain ⟨e, he, rfl⟩ := List.mem_map.1 ha
        exact h.done e he b hb
      · rw [List.mem_singleton.1 ha] at hb
        refine (h.tried b hb).resolve_left ?_
        rw [hrest]
        exact List.not_mem_nil
    exact hc.mem_of_settled (hsettled.mono (Nat.le_of_eq hlow.symm))

/-- So its layer is its component. -/
theorem Layer.isComponent (h : Layer g found (above ++ (v.node, v.number) :: below) v above)
    (hc : Consistent g found (above ++ (v.node, v.number) :: below) components)
    (hrest : v.rest = []) (hlow : v.low = v.number) :
    g.IsComponent v.node (layerNodes above v) := by
  have hnames : (layerNodes above v).Nodup := by
    refine hc.names.sublist ?_
    rw [layerNodes, List.map_append]
    exact List.Sublist.append_left (List.Sublist.cons_cons _ (List.nil_sublist _)) _
  refine ⟨hnames, fun m => ⟨fun hm => ?_, fun hm => ?_⟩⟩
  · rcases List.mem_append.1 hm with hm | hm
    · obtain ⟨e, he, rfl⟩ := List.mem_map.1 hm
      exact h.mutual_ e he
    · rw [List.mem_singleton.1 hm]
      exact .refl v.node
  · have hnode : v.node ∈ layerNodes above v :=
      List.mem_append_right _ (List.mem_singleton_self _)
    have hmem := hm.1.of_closed (fun a ha b hb => h.closed hc hrest hlow ha hb) (.inr hnode)
    refine hmem.resolve_left fun hknown => ?_
    -- A known component holds all it leads to, but the visited node is still on the stack.
    have hvisited := hm.2.of_closed hc.closed hknown
    refine ((hc.mem_flatten v.node).1 hvisited).2 ?_
    rw [List.map_append, List.map_cons]
    exact List.mem_append_right _ List.mem_cons_self

/-- The layer is taken off the stack as a component. -/
theorem Consistent.pop (hc : Consistent g found (above ++ (v.node, v.number) :: below) components)
    (h : Layer g found (above ++ (v.node, v.number) :: below) v above)
    (hrest : v.rest = []) (hlow : v.low = v.number) :
    Consistent g found below (components ++ [layerNodes above v]) := by
  have hflatten (m : String) : m ∈ (components ++ [layerNodes above v]).flatten ↔
      m ∈ components.flatten ∨ m ∈ layerNodes above v := by
    simp
  have hstack : (above ++ (v.node, v.number) :: below).map (·.1) =
      layerNodes above v ++ below.map (·.1) := by
    simp [layerNodes]
  have hsub : below.Sublist (above ++ (v.node, v.number) :: below) :=
    (List.sublist_cons_self _ _).trans (List.sublist_append_right _ _)
  have hnames := hc.names
  rw [hstack] at hnames
  have hdisjoint := List.disjoint_of_nodup_append hnames
  refine ⟨hc.names.sublist (hsub.map _), hc.numbers.sublist hsub,
    fun e he => hc.bounded e (hsub.subset he), fun a ha b hb => ?_, fun c hm => ?_, ?_,
    fun m => ?_⟩
  · rw [hflatten] at ha ⊢
    exact h.closed hc hrest hlow ha hb
  · rcases List.mem_append.1 hm with hm | hm
    · exact hc.isComponent c hm
    · rw [List.mem_singleton.1 hm]
      exact ⟨v.node, h.isComponent hc hrest hlow⟩
  · rw [List.flatten_append, List.flatten_singleton, List.nodup_append']
    refine ⟨hc.nodup, (h.isComponent hc hrest hlow).nodup, fun m hm hm' => ?_⟩
    refine ((hc.mem_flatten m).1 hm).2 ?_
    rw [hstack]
    exact List.mem_append_left _ hm'
  · rw [hflatten, hc.mem_flatten, hstack, List.mem_append, not_or]
    constructor
    · rintro (⟨hm, -, hbelow⟩ | hm)
      · exact ⟨hm, hbelow⟩
      · refine ⟨?_, hdisjoint hm⟩
        have hmem : m ∈ (above ++ (v.node, v.number) :: below).map (·.1) := by
          rw [hstack]
          exact List.mem_append_left _ hm
        obtain ⟨e, he, rfl⟩ := List.mem_map.1 hmem
        exact (hc.bounded e he).1
    · rintro ⟨hm, hbelow⟩
      by_cases hlayer : m ∈ layerNodes above v
      · exact .inr hlayer
      · exact .inl ⟨hm, hlayer, hbelow⟩

/-- The numbers of the visits below are lower. -/
theorem Layered.lt_of_numbers (h : Layered g found whole visits below)
    (hn : (above ++ (n, low) :: below).Pairwise fun e f => f.2 < e.2) (hw : w ∈ visits) :
    w.number < low := by
  have hless := (List.pairwise_append.1 hn).2.1
  exact (List.pairwise_cons.1 hless).1 _ (h.mem hw)

/-- What stands before the visited node on the stack stands below it. -/
theorem mem_below_of_lt (hn : (above ++ (n, low) :: below).Pairwise fun e f => f.2 < e.2)
    {e : String × Nat} (he : e ∈ above ++ (n, low) :: below) (hlt : e.2 < low) : e ∈ below := by
  rcases List.mem_append.1 he with he | he
  · have hless := (List.pairwise_append.1 hn).2.2 e he (n, low) List.mem_cons_self
    exact absurd hlt (Nat.lt_asymm hless)
  · rcases List.mem_cons.1 he with rfl | he
    · exact absurd hlt (Nat.lt_irrefl _)
    · exact he

/-- Without the layer that is taken off, the layers below stay. -/
theorem Layered.pop (h : Layered g found (above ++ (n, low) :: below) visits below)
    (hn : (above ++ (n, low) :: below).Pairwise fun e f => f.2 < e.2) :
    Layered g found below visits below := by
  refine h.congr (List.Subset.refl _) (fun w _ e he => .inl ?_) fun w hw y hy => ?_
  · exact List.mem_append_right _ (List.mem_cons_of_mem _ he)
  · exact mem_below_of_lt hn hy (Nat.lt_of_le_of_lt (h.low_le hw) (h.lt_of_numbers hn hw))

theorem Layered.pass_eq (h : Layered g found whole visits below)
    (hlow : ∀ w ∈ visits, w.number < low) : pass low visits = visits := by
  cases visits with
  | nil => rfl
  | cons p visits =>
    have hle := h.low_le List.mem_cons_self
    have hlt := hlow p List.mem_cons_self
    rw [pass, Nat.min_eq_left (by omega)]

/-- The layer of a visit that has ended joins the layer of a visit that its node leads back to. -/
theorem Layer.join {p : Visit} {above' : List (String × Nat)} (h : Layer g found whole v above)
    (h' : Layer g found whole p above') (hrest : v.rest = []) (hmutual : g.Mutual p.node v.node) :
    Layer g found whole { p with low := min p.low v.low }
      (above ++ (v.node, v.number) :: above') where
  mutual_ e he := by
    rcases List.mem_append.1 he with he | he
    · exact hmutual.trans (h.mutual_ e he)
    · rcases List.mem_cons.1 he with rfl | he
      · exact hmutual
      · exact h'.mutual_ e he
  low_le := Nat.le_trans (Nat.min_le_left _ _) h'.low_le
  low_reached := by
    dsimp only
    rcases Nat.le_total p.low v.low with hle | hle
    · rw [Nat.min_eq_left hle]
      exact h'.low_reached
    · obtain ⟨y, hy, hleads⟩ := h.low_reached
      rw [Nat.min_eq_right hle]
      exact ⟨y, hy, hmutual.1.trans hleads⟩
  rest := h'.rest
  tried t ht := (h'.tried t ht).imp_right (·.mono (Nat.min_le_left _ _))
  done e he t ht := by
    rcases List.mem_append.1 he with he | he
    · exact (h.done e he t ht).mono (Nat.min_le_right _ _)
    · rcases List.mem_cons.1 he with rfl | he
      · have hsettled : Settled found whole v.low t := by
          refine (h.tried t ht).resolve_left ?_
          rw [hrest]
          exact List.not_mem_nil
        exact hsettled.mono (Nat.min_le_right _ _)
      · exact (h'.done e he t ht).mono (Nat.min_le_left _ _)

/-- A visit that reaches something before its node hands its layer on to the visit that it came
from. -/
theorem Layered.hand_on (h : Layered g found whole visits below)
    (hwhole : whole = above ++ (v.node, v.number) :: below) (layer : Layer g found whole v above)
    (parent : ∀ p ∈ visits.head?, g.Leads p.node v.node) (hrest : v.rest = [])
    (hn : whole.Pairwise fun e f => f.2 < e.2) (hlow : v.low ≠ v.number) :
    Layered g found whole (pass v.low visits) whole := by
  obtain ⟨y, hy, hleads⟩ := layer.low_reached
  have hlt : v.low < v.number := Nat.lt_of_le_of_ne layer.low_le hlow
  rw [hwhole] at hn hy
  have hbelow := mem_below_of_lt hn hy hlt
  cases visits with
  | nil =>
    cases h
    cases hbelow
  | cons p visits =>
    have hback := hleads.trans (h.leads rfl _ hbelow)
    obtain ⟨above', below', rfl, layer', parent', rest'⟩ := h.exists_layer
    have hcons := Layered.cons (layer.join layer' hrest ⟨parent p rfl, hback⟩) parent' rest'
    rwa [List.append_assoc, List.cons_append, ← hwhole] at hcons

/-- The end of a visit. -/
theorem Sound.finish (h : Sound g nodes s) (hv : s.visits = v :: visits) (hrest : v.rest = []) :
    Sound g nodes (s.finish v visits) := by
  have hlayered := h.layered
  have hc := h.consistent
  rw [hv] at hlayered
  obtain ⟨above, below, hstack, layer, parent, hbelow⟩ := hlayered.exists_layer
  by_cases hlow : v.low = v.number
  · rw [hstack] at hc layer hbelow
    have hpass := hbelow.pass_eq fun w hw => hlow ▸ hbelow.lt_of_numbers hc.numbers hw
    have hpop := popTo_eq hc.names
    rw [Search.finish, if_pos hlow]
    dsimp only
    rw [hstack, hpop, hpass]
    exact ⟨hbelow.pop hc.numbers, hc.pop layer hrest hlow, h.starts, h.covered, h.reached⟩
  · rw [Search.finish, if_neg hlow]
    exact ⟨hbelow.hand_on hstack layer parent hrest hc.numbers hlow, hc, h.starts, h.covered,
      h.reached⟩

end Ends

/-- Every step keeps what a search knows. -/
theorem Sound.step? (h : Sound g nodes s) (hs : s.step? g = some s') : Sound g nodes s' := by
  rw [Search.step?] at hs
  split at hs
  · rename_i hv
    split at hs
    · cases hs
    · rename_i n starts hstarts
      cases hs
      split
      · rename_i hn
        exact h.start_skip hstarts (List.contains_iff_mem.1 hn)
      · rename_i hn
        exact h.start_enter hstarts hv (by simpa using hn)
  · rename_i v visits hv
    split at hs
    · rename_i hrest
      cases hs
      exact h.finish hv hrest
    · rename_i t rest hrest
      cases hs
      rw [tryTarget]
      split
      · rename_i ht
        exact h.try_found (v := v) hv hrest (List.contains_iff_mem.1 ht) rfl
      · rename_i ht
        exact h.try_enter hv hrest (by simpa using ht)

/-- A search that is over has found what its nodes lead to, and each of those is in a component. -/
theorem Sound.mem_flatten_iff (h : Sound g nodes s) (hs : s.step? g = none) :
    n ∈ s.components.flatten ↔ ∃ r ∈ nodes, g.Leads r n := by
  have hover : s.visits = [] ∧ s.starts = [] := by
    rw [Search.step?] at hs
    split at hs
    · split at hs
      · exact ⟨‹_›, ‹_›⟩
      · cases hs
    · split at hs <;> cases hs
  have hstack : s.stack = [] := by
    have hlayered := h.layered
    rw [hover.1] at hlayered
    exact hlayered.eq_nil
  have hfound (m : String) : m ∈ s.components.flatten ↔ m ∈ s.found := by
    rw [h.consistent.mem_flatten, hstack]
    simp
  constructor
  · exact fun hn => h.reached n ((hfound n).1 hn)
  · rintro ⟨r, hr, hleads⟩
    have hstart : r ∈ s.found := by
      refine (h.covered r hr).resolve_left ?_
      rw [hover.2]
      exact List.not_mem_nil
    exact hleads.of_closed h.consistent.closed ((hfound r).2 hstart)

end ExportLint.Graph.Search

namespace ExportLint.Graph

variable {g : Graph} {nodes : List String}

theorem sound_search (g : Graph) (nodes : List String) :
    Search.Sound g nodes (g.search nodes) :=
  Search.run_induction (fun _ _ h hs => h.step? hs) _ (Search.sound_start g nodes)

/-- A search puts each node that its start leads to into one component. -/
theorem mem_flatten_search_iff {n : String} :
    n ∈ (g.search nodes).components.flatten ↔ ∃ r ∈ nodes, g.Leads r n :=
  (sound_search g nodes).mem_flatten_iff (step?_search g nodes)

end ExportLint.Graph
