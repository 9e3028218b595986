import ExportLint.Proofs.SettingsAbsorption
import ExportLint.Proofs.SettingsLoading

/-!
# Valid settings have the shape of the standard ones

Settings that can be read as a configuration have an object wherever the standard settings have one,
and a list of rules with names.
-/
namespace ExportLint

namespace Config

open Json (Members Plain)

variable {key : String} {d v w : Json} {data : Members} {root : String}

section Flat

/-- A value into which nothing is merged. -/
def isLeaf (key : String) : Json → Bool
  | .obj _ => false
  | .arr _ => key != "rules"
  | _ => true

/-- An object into whose values nothing is merged. -/
def isFlatObject : Json → Bool
  | .obj ds => ds.all fun m => isLeaf m.1 m.2
  | _ => false

theorem shaped_of_isLeaf (h : isLeaf key d = true) (w : Json) : Shaped key d w := by
  refine .leaf (fun ds he => ?_) fun hk rs he => ?_
  · subst he
    cases h
  · subst he hk
    simp [isLeaf] at h

theorem shaped_of_isFlatObject (h : isFlatObject d = true) (ws : Members) :
    Shaped key d (.obj ws) := by
  cases d with
  | obj ds =>
    refine .object fun k d w hd _ => shaped_of_isLeaf ?_ w
    exact List.all_eq_true.1 h _ (Json.mem_of_get? hd)
  | _ => cases h

/-- Every member of an object is a leaf, or a flat object under one of some keys. -/
def isShallow (keys : List String) : Json → Bool
  | .obj ds => ds.all fun m => isLeaf m.1 m.2 || (keys.contains m.1 && isFlatObject m.2)
  | _ => false

/-- An object has the shape of a shallow one if it has objects under those keys. -/
theorem shaped_of_isShallow {keys : List String} {ws : Members} (h : isShallow keys d = true)
    (hobj : ∀ k ∈ keys, ∀ w, ws.get? k = some w → ∃ ms, w = .obj ms) :
    Shaped key d (.obj ws) := by
  cases d with
  | obj ds =>
    refine .object fun k d w hd hw => ?_
    have hm := List.all_eq_true.1 h _ (Json.mem_of_get? hd)
    rw [Bool.or_eq_true, Bool.and_eq_true, List.contains_iff_mem] at hm
    rcases hm with hleaf | ⟨hk, hflat⟩
    · exact shaped_of_isLeaf hleaf w
    · obtain ⟨ms, rfl⟩ := hobj k hk w hw
      exact shaped_of_isFlatObject hflat ms
  | _ => cases h

end Flat

section Reading

theorem exists_object_of_convention {c : Convention} (h : Convention.read v = .valid c) :
    ∃ ms, v = .obj ms := by
  obtain ⟨ms, rfl, -⟩ := Schema.exists_object_of_record h
  exact ⟨ms, rfl⟩

/-- The keys of the conventions. -/
def conventionKeys : List String := (Named.all : List ExportKind).map Conventions.fieldOf

theorem shaped_of_conventions {c : Conventions} (h : Conventions.read w = .valid c) :
    Shaped key Conventions.standard.toJson w := by
  obtain ⟨ws, rfl, -⟩ := Schema.exists_object_of_record h
  have hshallow : isShallow conventionKeys Conventions.standard.toJson = true := by decide +kernel
  refine shaped_of_isShallow hshallow fun k hk v hv => ?_
  obtain ⟨kind, -, rfl⟩ := List.mem_map.1 hk
  exact exists_object_of_convention (Schema.read_of_fieldOr (Conventions.read_obj_iff.1 h kind) hv)

/-- A rule that can be read has a name, and its options are an object. -/
theorem exists_name_of_rule {rule : RuleSetting} (h : RuleSetting.read v = .valid rule) :
    ∃ (ms : Members) (s : String), v = .obj ms ∧ ms.get? "name" = some (.str s) ∧
      ∀ w, ms.get? "options" = some w → ∃ os, w = .obj os := by
  obtain ⟨ms, rfl, -⟩ := Schema.exists_object_of_record h
  obtain ⟨hname, -, -, -, hoptions⟩ := RuleSetting.read_obj_iff.1 h
  have hstr : ∃ s, Members.get? ms "name" = some (.str s) := by
    cases hget : Members.get? ms "name" with
    | none =>
      have hsame : Schema.underscored "name" = "name" := by decide +kernel
      rw [Schema.field, Schema.lookup?, hget, hsame, hget] at hname
      cases hname
    | some v =>
      rw [Schema.field, Schema.lookup?, hget] at hname
      cases v with
      | str s => exact ⟨s, rfl⟩
      | _ => cases hname
  obtain ⟨s, hs⟩ := hstr
  refine ⟨ms, s, rfl, hs, fun w hw => ?_⟩
  have hread := Schema.read_of_fieldOr hoptions hw
  cases w with
  | obj os => exact ⟨os, rfl⟩
  | _ => cases hread

theorem hasShape_of_read {c : Config} (h : Config.read (.obj data) = .valid c)
    (hrules : ∃ v, data.get? "rules" = some v) :
    HasShape standardRules (standardData root) data := by
  obtain ⟨-, hscan, hlist, hconventions, hfixing, hreporting⟩ := Config.read_obj_iff.1 h
  obtain ⟨v, hv⟩ := hrules
  obtain ⟨os, rfl, hitems⟩ : ∃ os, v = .arr os ∧
      Schema.itemsFrom RuleSetting.read 0 os = .valid c.rules := by
    have hread := Schema.read_of_fieldOr hlist hv
    cases v with
    | arr os => exact ⟨os, rfl, hread⟩
    | _ => cases hread
  have hread := Schema.exists_read_of_itemsFrom hitems
  refine ⟨⟨os, statedNames os, hv, forall₂_statedNames fun o ho => ?_⟩, fun os' hos' r hr o ho => ?_,
    fun k d w hk hd hw => ?_⟩
  · obtain ⟨rule, hrule⟩ := hread o ho
    obtain ⟨ms, s, rfl, hs, -⟩ := exists_name_of_rule hrule
    exact ⟨s, ms, rfl, hs⟩
  · rw [hv] at hos'
    cases hos'
    obtain ⟨rule, hrule⟩ := hread o ho
    obtain ⟨ms, s, rfl, -, hoptions⟩ := exists_name_of_rule hrule
    have hall : standardRules.all (isShallow ["options"]) = true := by decide +kernel
    refine shaped_of_isShallow (List.all_eq_true.1 hall r hr) fun k hk w hw => ?_
    rw [List.mem_singleton.1 hk] at hw
    exact hoptions w hw
  · have hm := Json.mem_of_get? hd
    simp only [standardData, List.mem_cons, Prod.mk.injEq, List.not_mem_nil, or_false] at hm
    rcases hm with ⟨rfl, rfl⟩ | ⟨rfl, rfl⟩ | ⟨rfl, rfl⟩ | ⟨rfl, rfl⟩ | ⟨rfl, rfl⟩ | ⟨rfl, rfl⟩
    · exact shaped_of_isLeaf rfl w
    · obtain ⟨ws, rfl, -⟩ := Schema.exists_object_of_record (Schema.read_of_fieldOr hscan hw)
      exact shaped_of_isFlatObject (by decide +kernel) ws
    · exact absurd rfl hk
    · exact shaped_of_conventions (Schema.read_of_fieldOr hconventions hw)
    · obtain ⟨ws, rfl, -⟩ := Schema.exists_object_of_record (Schema.read_of_fieldOr hfixing hw)
      exact shaped_of_isFlatObject (by decide +kernel) ws
    · obtain ⟨ws, rfl, -⟩ := Schema.exists_object_of_record (Schema.read_of_fieldOr hreporting hw)
      exact shaped_of_isFlatObject (by decide +kernel) ws

end Reading

section Base

/-- The standard rules, by their names. -/
def standardNames : List String := statedNames standardRules

theorem hasName_standardRules : List.Forall₂ HasName standardNames standardRules := by
  have hall : standardRules.all (fun r => (statedName? r).isSome) = true := by decide +kernel
  refine forall₂_statedNames fun r hr => ?_
  obtain ⟨s, hs⟩ := Option.isSome_iff_exists.1 (List.all_eq_true.1 hall r hr)
  exact ⟨s, hasName_of_statedName? hs⟩

theorem plain_standardData (root : String) : Plain (.obj (standardData root)) := by
  have hdepth : 10 < 10 ^ Json.digitLimit :=
    Nat.lt_of_lt_of_le (by decide : 10 < 10 ^ 2) (Nat.pow_le_pow_right (by omega) (by decide))
  have hscan : Plain ScanOptions.standard.toJson := by
    refine ⟨by decide +kernel, ?_⟩
    simp [ScanOptions.standard, Json.optional, Json.MembersWithNumbers, Json.strings,
      Json.WithNumbers, Json.ItemsWithNumbers, hdepth]
  have hrules : Plain (.arr standardRules) := by
    simp [standardRules, quietRule, Json.WithNumbers, Json.ItemsWithNumbers,
      Json.MembersWithNumbers, Json.strings]
  have hconventions : Plain Conventions.standard.toJson := by
    simp [Conventions.toJson, Convention.toJson, Json.WithNumbers, Json.MembersWithNumbers]
  have hfixing : Plain (FixPolicy.toJson {}) := by
    simp [FixPolicy.toJson, Json.optional, Json.WithNumbers, Json.MembersWithNumbers]
  have hreporting : Plain (ReportingOptions.toJson {}) := by
    simp [ReportingOptions.toJson, Json.optional, Json.WithNumbers, Json.MembersWithNumbers]
  have hkeys : (standardData root).keys.Nodup := by
    simp [standardData]
  exact ⟨hkeys, trivial, hscan, hrules, hconventions, hfixing, hreporting, trivial⟩

theorem isBase_standardData (root : String) :
    IsBase standardNames standardRules (standardData root) where
  plain := plain_standardData root
  rules := rfl
  named := hasName_standardRules
  nodup := by decide +kernel

/-- The standard settings can be read, so they have their own shape. -/
theorem hasShape_standardData (root : String) :
    HasShape standardRules (standardData root) (standardData root) :=
  hasShape_of_read (c := ⟨root, .standard, _, .standard, {}, {}⟩) rfl ⟨_, rfl⟩

end Base

end Config

end ExportLint
