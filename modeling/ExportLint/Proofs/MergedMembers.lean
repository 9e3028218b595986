import ExportLint.Proofs.Attempts
import ExportLint.Proofs.PlainData

/-!
# What merging gives, member by member

Overrides with keys of their own are merged one by one, and none of them touches what another one
is merged into. So the merged object has the keys of the base, then the new ones, and each value is
merged from the two that have its key.
-/
namespace ExportLint.Config

open Json (Members Plain)

variable {base overrides merged : Members} {key : String} {d w v w' : Json}

theorem merge_obj (base os : Members) :
    merge (.obj base) (.obj os) = Json.obj <$> mergeMembers base os := by
  cases os <;> rfl

/-- An object that comes of a base and overrides. -/
structure Merges (base overrides merged : Members) : Prop where
  keys_eq : merged.keys = base.keys ++ overrides.keys.filter (· ∉ base.keys)
  given : ∀ k v, (k, v) ∈ overrides →
    ∃ w, mergeValue k (base.get? k) v = .ok w ∧ merged.get? k = some w
  kept : ∀ k, k ∉ overrides.keys → merged.get? k = base.get? k

theorem merges_of_mergeMembers (hn : overrides.keys.Nodup)
    (h : mergeMembers base overrides = .ok merged) : Merges base overrides merged := by
  induction overrides generalizing base with
  | nil =>
    cases h
    exact ⟨by simp, fun k v hm => (List.not_mem_nil hm).elim, fun _ _ => rfl⟩
  | cons m rest ih =>
    obtain ⟨k, v⟩ := m
    obtain ⟨hk, hrest⟩ := List.nodup_cons.1 hn
    rw [mergeMembers] at h
    obtain ⟨w, hw, h⟩ := bind_eq_ok_iff.1 h
    have hmerges := ih hrest h
    have hne : ∀ other ∈ Members.keys rest, other ≠ k := fun other ho he => hk (he ▸ ho)
    refine ⟨?_, fun other u hm => ?_, fun other ho => ?_⟩
    · have hfilter : (Members.keys rest).filter (· ∉ (base.set k w).keys) =
          (Members.keys rest).filter (· ∉ base.keys) :=
        List.filter_congr fun other ho => by simp [Members.mem_keys_set, hne other ho]
      rw [hmerges.keys_eq, hfilter, Members.keys_cons]
      by_cases hb : k ∈ base.keys
      · rw [Members.keys_set_of_mem w hb, List.filter_cons_of_neg (by simpa using hb)]
      · rw [Members.set_of_not_mem w hb, Members.keys_append,
          List.filter_cons_of_pos (by simpa using hb), List.append_assoc]
        rfl
    · rcases List.mem_cons.1 hm with he | hm
      · cases he
        refine ⟨w, hw, ?_⟩
        rw [hmerges.kept _ hk, Members.get?_set, if_pos rfl]
      · obtain ⟨u', hu, hget⟩ := hmerges.given other u hm
        rw [Members.get?_set, if_neg (hne other (Members.mem_keys_of_mem hm))] at hu
        exact ⟨u', hu, hget⟩
    · obtain ⟨ho, hrest⟩ := not_or.1 (List.mem_cons.not.1 ho)
      rw [hmerges.kept other hrest, Members.get?_set, if_neg ho]

/-- Members can be merged if each of them can. -/
theorem exists_mergeMembers_of_nodup (hn : overrides.keys.Nodup)
    (h : ∀ k v, (k, v) ∈ overrides → ∃ w, mergeValue k (base.get? k) v = .ok w) :
    ∃ merged, mergeMembers base overrides = .ok merged := by
  induction overrides generalizing base with
  | nil => exact ⟨base, rfl⟩
  | cons m rest ih =>
    obtain ⟨k, v⟩ := m
    obtain ⟨hk, hrest⟩ := List.nodup_cons.1 hn
    obtain ⟨w, hw⟩ := h k v List.mem_cons_self
    have hnext : ∃ merged, mergeMembers (base.set k w) rest = .ok merged := by
      refine ih hrest fun other u hm => ?_
      have hne : other ≠ k := by
        rintro rfl
        exact hk (Members.mem_keys_of_mem hm)
      rw [Members.get?_set, if_neg hne]
      exact h other u (List.mem_cons_of_mem _ hm)
    obtain ⟨merged, hmerged⟩ := hnext
    refine ⟨merged, ?_⟩
    rw [mergeMembers, hw]
    exact hmerged

section Plain

theorem plain_set {ms : Members} (hms : Plain (.obj ms)) (hv : Plain v) (key : String) :
    Plain (.obj (ms.set key v)) := by
  refine Json.withNumbers_obj_iff.2 ⟨Members.nodup_keys_set v hms.1, fun m hm => ?_⟩
  rcases Json.mem_of_mem_set hm with hm | rfl
  · exact (Json.withNumbers_obj_iff.1 hms).2 m hm
  · exact hv

theorem plain_getD {rules : List Json} (h : ∀ r ∈ rules, Plain r) (i : Nat) :
    Plain (rules[i]?.getD .null) := by
  cases hi : rules[i]? with
  | none => trivial
  | some r => exact h r (List.mem_of_getElem? hi)

mutual

/-- Plain data that is merged is plain. -/
theorem plain_mergeMembers (base : Members) : ∀ (ms : List (String × Json)) (merged : Members),
    Plain (.obj base) → Json.PlainMembers ms → mergeMembers base ms = .ok merged →
    Plain (.obj merged)
  | [], _, hbase, _, h => by
    cases h
    exact hbase
  | (k, v) :: rest, merged, hbase, hms, h => by
    rw [mergeMembers] at h
    obtain ⟨w, hw, h⟩ := bind_eq_ok_iff.1 h
    have hplain := plain_mergeValue k (base.get? k) v w (fun u hu => hbase.of_get? hu) hms.1 hw
    exact plain_mergeMembers (base.set k w) rest merged (plain_set hbase hplain k) hms.2 h
termination_by structural ms => ms

theorem plain_mergeValue (key : String) (old : Option Json) : ∀ v w : Json,
    (∀ u, old = some u → Plain u) → Plain v → mergeValue key old v = .ok w → Plain w
  | .obj ms, w, hold, hv, h => by
    unfold mergeValue at h
    split at h
    · rename_i base
      obtain ⟨merged, hmerged, he⟩ := bind_eq_ok_iff.1 h
      cases he
      exact plain_mergeMembers base ms merged (hold _ rfl) hv.2 hmerged
    · cases h
      exact hv
  | .arr items, w, hold, hv, h => by
    unfold mergeValue at h
    split at h
    · rename_i rules
      split at h
      · obtain ⟨index, -, h⟩ := bind_eq_ok_iff.1 h
        obtain ⟨merged, hmerged, he⟩ := bind_eq_ok_iff.1 h
        cases he
        exact Json.itemsWithNumbers_iff.2
          (plain_mergeRules index rules items merged (Json.withNumbers_arr_iff.1 (hold _ rfl)) hv
            hmerged)
      · cases h
        exact hv
    · cases h
      exact hv
  | .null, _, _, hv, h | .bool _, _, _, hv, h | .int _, _, _, hv, h | .real _, _, _, hv, h
  | .str _, _, _, hv, h => by
    cases h
    exact hv
termination_by structural v => v

theorem plain_mergeRules (index : List (Json × Nat)) (rules : List Json) :
    ∀ os merged : List Json, (∀ r ∈ rules, Plain r) → Json.PlainItems os →
      mergeRules index rules os = .ok merged → ∀ r ∈ merged, Plain r
  | [], _, hrules, _, h => by
    cases h
    exact hrules
  | o :: os, merged, hrules, hos, h => by
    rw [mergeRules] at h
    obtain ⟨name, -, h⟩ := bind_eq_ok_iff.1 h
    split at h
    · refine plain_mergeRules index (rules ++ [o]) os merged (fun r hr => ?_) hos.2 h
      rcases List.mem_append.1 hr with hr | hr
      · exact hrules r hr
      · rw [List.mem_singleton.1 hr]
        exact hos.1
    · rename_i i _
      obtain ⟨w, hw, h⟩ := bind_eq_ok_iff.1 h
      have hplain := plain_mergeRule _ o w (plain_getD hrules i) hos.1 hw
      refine plain_mergeRules index (rules.set i w) os merged (fun r hr => ?_) hos.2 h
      rcases List.mem_or_eq_of_mem_set hr with hr | rfl
      · exact hrules r hr
      · exact hplain
termination_by structural os => os

theorem plain_mergeRule (rule : Json) : ∀ o w : Json, Plain rule → Plain o →
    mergeRule rule o = .ok w → Plain w
  | .obj ms, w, hrule, ho, h => by
    unfold mergeRule at h
    split at h
    · rename_i base
      obtain ⟨merged, hmerged, he⟩ := bind_eq_ok_iff.1 h
      cases he
      exact plain_mergeMembers base ms merged hrule ho.2 hmerged
    · cases h
  | .arr _, _, _, _, h | .null, _, _, _, h | .bool _, _, _, _, h | .int _, _, _, _, h
  | .real _, _, _, _, h | .str _, _, _, _, h => by cases h
termination_by structural o => o

end

end Plain

section Absorbing

/-- Merging a value into the standard one gives the value itself. -/
def Absorbs (key : String) (d w : Json) : Prop := mergeValue key (some d) w = .ok w

/-- An object is absorbed by one whose keys it begins with, if its values are. -/
theorem mergeMembers_eq_self_iff {ds ws : Members} (hn : ws.keys.Nodup) :
    mergeMembers ds ws = .ok ws ↔ ds.keys <+: ws.keys ∧
      ∀ k d w, ds.get? k = some d → ws.get? k = some w → Absorbs k d w := by
  constructor
  · intro h
    have hmerges := merges_of_mergeMembers hn h
    refine ⟨⟨_, hmerges.keys_eq.symm⟩, fun k d w hd hw => ?_⟩
    obtain ⟨w', hw', hget⟩ := hmerges.given k w ((Members.get?_eq_some_iff hn).1 hw)
    rw [hw] at hget
    cases hget
    rwa [hd] at hw'
  · rintro ⟨⟨rest, hkeys⟩, habsorbs⟩
    have hvalue : ∀ k w, (k, w) ∈ ws → mergeValue k (ds.get? k) w = .ok w := by
      intro k w hm
      cases hd : ds.get? k with
      | none => cases w <;> rfl
      | some d => exact habsorbs k d w hd ((Members.get?_eq_some_iff hn).2 hm)
    obtain ⟨merged, hmerged⟩ := exists_mergeMembers_of_nodup hn fun k w hm => ⟨w, hvalue k w hm⟩
    have hmerges := merges_of_mergeMembers hn hmerged
    have hsame : merged.keys = ws.keys := by
      have hdisjoint := hkeys ▸ hn
      have hold : ds.keys.filter (· ∉ ds.keys) = [] :=
        List.filter_eq_nil_iff.2 fun k hk => by simpa using hk
      have hnew : rest.filter (· ∉ ds.keys) = rest :=
        List.filter_eq_self.2 fun k hk => by
          simpa using fun hd => (List.nodup_append.1 hdisjoint).2.2 k hd k hk rfl
      rw [hmerges.keys_eq, ← hkeys, List.filter_append, hold, hnew, List.nil_append]
    rw [hmerged]
    congr 1
    refine Members.ext_of_keys (hsame ▸ hn) hsame fun k hk => ?_
    obtain ⟨w, hw⟩ := Members.exists_get?_of_mem_keys (hsame ▸ hk)
    have hm := (Members.get?_eq_some_iff hn).1 hw
    obtain ⟨w', hw', hget⟩ := hmerges.given k w hm
    rw [hvalue k w hm] at hw'
    cases hw'
    rw [hget, hw]

/-- Only objects and lists of rules are merged. -/
theorem absorbs_of_leaf (hobj : ∀ ds, d ≠ .obj ds) (hrules : key = "rules" → ∀ rs, d ≠ .arr rs)
    (w : Json) : Absorbs key d w := by
  cases w with
  | obj ws =>
    cases d with
    | obj ds => exact absurd rfl (hobj ds)
    | _ => rfl
  | arr os =>
    cases d with
    | arr rs =>
      have hkey : key ≠ "rules" := fun hk => hrules hk rs rfl
      rw [Absorbs, mergeValue, if_neg hkey]
    | _ => rfl
  | _ => rfl

/-- What is no object takes the place of one. -/
theorem mergeValue_of_not_object (hv : ∀ vs, v ≠ .obj vs) (ws : Members) :
    mergeValue key (some (.obj ws)) v = .ok v := by
  cases v with
  | obj vs => exact absurd rfl (hv vs)
  | _ => rfl

/-- A value has objects where the standard one has some. Rules stand nowhere below. -/
inductive Shaped : String → Json → Json → Prop
  | object {key : String} {ds ws : Members}
      (h : ∀ k d w, ds.get? k = some d → ws.get? k = some w → Shaped k d w) :
      Shaped key (.obj ds) (.obj ws)
  | leaf {key : String} {d w : Json} (hobj : ∀ ds, d ≠ .obj ds)
      (hrules : key = "rules" → ∀ rs, d ≠ .arr rs) : Shaped key d w

/-- A standard value is still absorbed when overrides have been merged into a value of its shape. -/
theorem absorbs_merged (key : String) (d w v w' : Json) (hshape : Shaped key d w)
    (ha : Absorbs key d w) (hw : Plain w) (hv : Plain v) (hw' : Plain w')
    (h : mergeValue key (some w) v = .ok w') : Absorbs key d w' := by
  cases hshape with
  | leaf hobj hrules => exact absorbs_of_leaf hobj hrules w'
  | @object _ ds ws hshape =>
    by_cases hobj : ∃ vs, v = .obj vs
    · obtain ⟨vs, rfl⟩ := hobj
      obtain ⟨ws', hws', he⟩ := bind_eq_ok_iff.1 h
      cases he
      obtain ⟨self, hself, he⟩ := bind_eq_ok_iff.1 ha
      cases he
      obtain ⟨hkeys, hvalues⟩ := (mergeMembers_eq_self_iff hw.1).1 hself
      have hmerges := merges_of_mergeMembers hv.1 hws'
      have hbehind : ds.keys <+: ws'.keys := hkeys.trans ⟨_, hmerges.keys_eq.symm⟩
      have hnext : mergeMembers ds ws' = .ok ws' := by
        refine (mergeMembers_eq_self_iff hw'.1).2 ⟨hbehind, fun k e u hd hu => ?_⟩
        have hk := hkeys.subset (Members.mem_keys_of_mem (Json.mem_of_get? hd))
        obtain ⟨u₀, hu₀⟩ := Members.exists_get?_of_mem_keys hk
        by_cases hgiven : k ∈ Members.keys vs
        · obtain ⟨o, ho⟩ := Members.exists_get?_of_mem_keys hgiven
          have hm := Json.mem_of_get? ho
          obtain ⟨u', hu', hget⟩ := hmerges.given k o hm
          rw [hu] at hget
          cases hget
          rw [hu₀] at hu'
          have hsize : sizeOf o < sizeOf (Json.obj vs) := by
            have hlt := List.sizeOf_lt_of_mem hm
            simp only [Prod.mk.sizeOf_spec, Json.obj.sizeOf_spec] at hlt ⊢
            omega
          exact absorbs_merged k e u₀ o u (hshape k e u₀ hd hu₀) (hvalues k e u₀ hd hu₀)
            (hw.of_get? hu₀) (hv.of_get? ho) (hw'.of_get? hu) hu'
        · rw [hmerges.kept k hgiven, hu₀] at hu
          cases hu
          exact hvalues k e _ hd hu₀
      rw [Absorbs, mergeValue, hnext]
      rfl
    · have hnot : ∀ vs, v ≠ .obj vs := fun vs he => hobj ⟨vs, he⟩
      rw [mergeValue_of_not_object hnot] at h
      cases h
      exact mergeValue_of_not_object hnot ds
termination_by sizeOf v

end Absorbing

end ExportLint.Config
