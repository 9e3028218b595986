import ExportLint.Proofs.MergedRules

/-!
# Settings that come of a base are absorbed by it

Overrides are merged into a base one after the other. As long as the settings keep the shape of the
base and no list of rules names a rule twice, merging the result into the base again changes
nothing.
-/
namespace ExportLint.Config

open Json (Members Plain)

variable {ns : List String} {rs os : List Json} {base data data' overrides : Members}

/-- Settings that their base absorbs. -/
structure Extends (ns : List String) (rs : List Json) (base data : Members) : Prop where
  keys : base.keys <+: data.keys
  rules : ∀ os, data.get? "rules" = some (.arr os) → ExtendsRules ns rs [] os
  values : ∀ k d w, k ≠ "rules" → base.get? k = some d → data.get? k = some w → Absorbs k d w

/-- Settings of the shape of their base. All rules have names. -/
structure HasShape (rs : List Json) (base data : Members) : Prop where
  named : ∃ os names, data.get? "rules" = some (.arr os) ∧ List.Forall₂ HasName names os
  rules : ∀ os, data.get? "rules" = some (.arr os) → ∀ r ∈ rs, ∀ o ∈ os, Shaped "" r o
  values : ∀ k d w, k ≠ "rules" → base.get? k = some d → data.get? k = some w → Shaped k d w

/-- A base with named rules, none of them twice. -/
structure IsBase (ns : List String) (rs : List Json) (base : Members) : Prop where
  plain : Plain (.obj base)
  rules : base.get? "rules" = some (.arr rs)
  named : List.Forall₂ HasName ns rs
  nodup : ns.Nodup

/-- The names of the rules that overrides state. -/
def ruleNames (overrides : Json) : List String :=
  match overrides.get? "rules" with
  | some (.arr items) => statedNames items
  | _ => []

/-- Settings that extend a base are absorbed by it. -/
theorem Extends.mergeMembers_eq (hb : IsBase ns rs base) (hd : Plain (.obj data))
    (h : Extends ns rs base data) : mergeMembers base data = .ok data := by
  refine (mergeMembers_eq_self_iff hd.1).2 ⟨h.keys, fun k d w hk hw => ?_⟩
  by_cases hr : k = "rules"
  · subst hr
    rw [hb.rules] at hk
    cases hk
    cases w with
    | arr os =>
      have hindex := ruleIndex_eq hb.named 0
      have hrules := mergeRules_eq_self hb.named hb.nodup (h.rules os hw)
      rw [Absorbs, mergeValue, if_pos rfl, hindex]
      simp only [bind, Except.bind]
      rw [← indexOf, hrules]
    | _ => rfl
  · exact h.values k d w hr hk hw

/-- Data of its own shape absorbs itself. -/
theorem absorbs_self {key : String} {d w : Json} (h : Shaped key d w) (hw : w = d)
    (hd : Plain d) : Absorbs key d d := by
  induction h with
  | leaf hobj hrules => exact absorbs_of_leaf hobj hrules _
  | @object key ds ws h ih =>
    cases hw
    have hself : mergeMembers ds ds = .ok ds :=
      (mergeMembers_eq_self_iff hd.1).2 ⟨List.prefix_refl _, fun k d w hk hw => by
        rw [hk] at hw
        cases hw
        exact ih k d d hk hk rfl (hd.of_get? hk)⟩
    rw [Absorbs, mergeValue, hself]
    rfl

theorem HasName.unique {s t : String} {r : Json} (hs : HasName s r) (ht : HasName t r) : s = t := by
  have h := hs.ruleName_eq.symm.trans ht.ruleName_eq
  cases h
  rfl

theorem hasName_of_getElem? (h : List.Forall₂ HasName ns rs) {i : Nat} {n : String} {r : Json}
    (hn : ns[i]? = some n) (hr : rs[i]? = some r) : HasName n r := by
  obtain ⟨hi, rfl⟩ := List.getElem?_eq_some_iff.1 hn
  obtain ⟨hi', rfl⟩ := List.getElem?_eq_some_iff.1 hr
  exact h.get hi hi'

theorem ExtendsRules.refl (hrs : List.Forall₂ HasName ns rs) (hplain : ∀ r ∈ rs, Plain r)
    (hshape : ∀ r ∈ rs, ∀ o ∈ rs, Shaped "" r o) (todo : List String) :
    ExtendsRules ns rs todo rs where
  standard i n r hn hr := by
    have hm := List.mem_of_getElem? hr
    exact ⟨r, hr, hasName_of_getElem? hrs hn hr, absorbs_self (hshape r hm r hm) rfl (hplain r hm),
      fun _ => hshape r hm r hm⟩
  extra i o hi ho := by
    rw [List.getElem?_eq_none hi] at ho
    cases ho

/-- A base of its own shape extends itself. -/
theorem Extends.refl (hb : IsBase ns rs base) (hs : HasShape rs base base) :
    Extends ns rs base base where
  keys := List.prefix_refl _
  rules os hos := by
    rw [hb.rules] at hos
    cases hos
    exact .refl hb.named (Json.withNumbers_arr_iff.1 (hb.plain.of_get? hb.rules))
      (hs.rules rs hb.rules) []
  values k d w hr hk hw := by
    rw [hk] at hw
    cases hw
    exact absorbs_self (hs.values k d d hr hk hk) rfl (hb.plain.of_get? hk)

/-- The rules behind the standard ones have other names. -/
theorem ExtendsRules.exists_names (hrs : List.Forall₂ HasName ns rs)
    (h : ExtendsRules ns rs [] os) {names : List String} (hos : List.Forall₂ HasName names os) :
    ∃ es, names = ns ++ es ∧ ∀ e ∈ es, e ∉ ns := by
  have hlen : ns.length ≤ names.length := by
    rw [hrs.length_eq, hos.length_eq]
    exact h.length_le hrs
  have htake : names.take ns.length = ns := by
    refine List.ext_getElem (by rw [List.length_take]; omega) fun i hi hi' => ?_
    have hi₂ : i < rs.length := by rwa [← hrs.length_eq]
    have hi₃ : i < names.length := by omega
    obtain ⟨o, ho, hname, -⟩ := h.standard i _ _ (List.getElem?_eq_getElem hi')
      (List.getElem?_eq_getElem hi₂)
    rw [List.getElem_take]
    exact (hasName_of_getElem? hos (List.getElem?_eq_getElem hi₃) ho).unique hname
  refine ⟨names.drop ns.length, ?_, fun e he hmem => ?_⟩
  · conv_lhs => rw [← List.take_append_drop ns.length names, htake]
  · obtain ⟨i, hi⟩ := List.mem_iff_getElem?.1 he
    rw [List.getElem?_drop] at hi
    have hlt : ns.length + i < os.length := by
      rw [← hos.length_eq]
      exact (List.getElem?_eq_some_iff.1 hi).1
    obtain ⟨name, hname, hextra⟩ := h.extra (ns.length + i) _ (by rw [hrs.length_eq]; omega)
      (List.getElem?_eq_getElem hlt)
    have hstated := (hasName_of_getElem? hos hi (List.getElem?_eq_getElem hlt)).ruleName_eq
    rw [hname] at hstated
    cases hstated
    exact hextra e hmem rfl

theorem ExtendsRules.withShape (h : ExtendsRules ns rs [] os)
    (hs : ∀ r ∈ rs, ∀ o ∈ os, Shaped "" r o) (todo : List String) : ExtendsRules ns rs todo os where
  standard i n r hn hr := by
    obtain ⟨o, ho, hname, habsorbs, -⟩ := h.standard i n r hn hr
    exact ⟨o, ho, hname, habsorbs,
      fun _ => hs r (List.mem_of_getElem? hr) o (List.mem_of_getElem? ho)⟩
  extra := h.extra

/-- Overrides merged into settings that extend a base give settings that extend it. -/
theorem Extends.merged (hb : IsBase ns rs base) (h : Extends ns rs base data)
    (hs : HasShape rs base data) (hd : Plain (.obj data)) (ho : Plain (.obj overrides))
    (honce : (ruleNames (.obj overrides)).Nodup) (hm : mergeMembers data overrides = .ok data') :
    Extends ns rs base data' := by
  have hmerges := merges_of_mergeMembers ho.1 hm
  have hd' := plain_mergeMembers data overrides data' hd ho.2 hm
  refine ⟨h.keys.trans ⟨_, hmerges.keys_eq.symm⟩, fun os' hos' => ?_, fun k d w hr hk hw => ?_⟩
  · obtain ⟨os, names, hos, hnames⟩ := hs.named
    have hrules := h.rules os hos
    by_cases hgiven : "rules" ∈ overrides.keys
    · obtain ⟨o, hget⟩ := Members.exists_get?_of_mem_keys hgiven
      obtain ⟨w, hw, hget'⟩ := hmerges.given "rules" o (Json.mem_of_get? hget)
      rw [hos'] at hget'
      cases hget'
      rw [hos] at hw
      cases o with
      | arr items =>
        obtain ⟨es, rfl, hes⟩ := hrules.exists_names hb.named hnames
        rw [mergeValue, if_pos rfl] at hw
        obtain ⟨index, hindex, hw⟩ := bind_eq_ok_iff.1 hw
        obtain ⟨merged, hmerged, he⟩ := bind_eq_ok_iff.1 hw
        cases (ruleIndex_eq hnames 0).symm.trans hindex
        cases he
        have hstated : ruleNames (.obj overrides) = statedNames items := by
          rw [ruleNames, Json.get?, hget]
        rw [hstated] at honce
        exact ExtendsRules.merged hb.named hes (hrules.withShape (hs.rules os hos) _) honce
          (Json.withNumbers_arr_iff.1 (hd.of_get? hos))
          (Json.withNumbers_arr_iff.1 (ho.of_get? hget)) hmerged
      | _ => cases hw
    · rw [hmerges.kept _ hgiven, hos] at hos'
      cases hos'
      exact hrules
  · obtain ⟨u, hu⟩ := Members.exists_get?_of_mem_keys
      (h.keys.subset (Members.mem_keys_of_mem (Json.mem_of_get? hk)))
    have habsorbs := h.values k d u hr hk hu
    by_cases hgiven : k ∈ overrides.keys
    · obtain ⟨o, hget⟩ := Members.exists_get?_of_mem_keys hgiven
      obtain ⟨w', hw', hget'⟩ := hmerges.given k o (Json.mem_of_get? hget)
      rw [hw] at hget'
      cases hget'
      rw [hu] at hw'
      exact absorbs_merged k d u o w (hs.values k d u hr hk hu) habsorbs (hd.of_get? hu)
        (ho.of_get? hget) (hd'.of_get? hw) hw'
    · rw [hmerges.kept k hgiven, hu] at hw
      cases hw
      exact habsorbs

end ExportLint.Config
