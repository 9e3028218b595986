import ExportLint.Config.Default
import ExportLint.Proofs.MergedMembers
import ExportLint.Proofs.ReadSettings
import ExportLint.Proofs.StandardShape

/-!
# Keys that are not heard

A field that a base gives under its own key is read from there, and the other spelling of its key is
passed over. Overrides are merged as their keys stand, so what they say under the other spelling of
a key of the base is not heard. The other members come through: merging what is heard gives what is
heard of the merged settings, and both are read alike.
-/
namespace ExportLint.Config

open Json (Members Legible)

variable {base ms os merged : Members} {key k : String} {v w : Json} {old : Option Json}

/-- A key is the other spelling of a key that the base has. -/
def isShadowed (base : Members) (key : String) : Bool :=
  !base.keys.contains key && (base.keys.map Schema.underscored).contains key

mutual

/-- The members that are not shadowed by a base, nor anything in them by what the base has there. -/
def heardMembers (base : Members) : List (String × Json) → List (String × Json)
  | [] => []
  | (k, v) :: ms =>
    if isShadowed base k then heardMembers base ms
    else (k, heardValue (base.get? k) v) :: heardMembers base ms

/-- What is heard of a value, where a base has another one. -/
def heardValue (old : Option Json) : Json → Json
  | .obj ms =>
    match old with
    | some (.obj base) => .obj (heardMembers base ms)
    | _ => .obj ms
  | v => v

end

theorem not_isShadowed_of_mem (h : key ∈ base.keys) : isShadowed base key = false := by
  simp [isShadowed, h]

section Values

theorem heardValue_eq_self (h : ∀ base, old ≠ some (.obj base)) (v : Json) :
    heardValue old v = v := by
  cases v with
  | obj ms =>
    unfold heardValue
    split
    · exact absurd rfl (h _)
    · rfl
  | _ => rfl

theorem heardValue_none (v : Json) : heardValue none v = v :=
  heardValue_eq_self (fun _ h => by cases h) v

/-- Members that are not shadowed are found. -/
theorem get?_heardMembers : Members.get? (heardMembers base ms) key =
    if isShadowed base key then none else (ms.get? key).map (heardValue (base.get? key)) := by
  induction ms with
  | nil => exact (ite_self none).symm
  | cons m ms ih =>
    obtain ⟨k, v⟩ := m
    rw [heardMembers, Members.get?_cons]
    by_cases hk : key = k
    · subst hk
      rw [if_pos rfl]
      split
      · rename_i h
        rw [ih, if_pos h]
      · rw [Members.get?_cons, if_pos rfl]
        rfl
    · rw [if_neg hk, ← ih]
      split
      · rfl
      · rw [Members.get?_cons, if_neg hk]

theorem heardMembers_set_of_shadowed (h : isShadowed base key = true) (ms : Members) (v : Json) :
    heardMembers base (ms.set key v) = heardMembers base ms := by
  induction ms with
  | nil => simp [Members.set, heardMembers, h]
  | cons m ms ih =>
    obtain ⟨k, w⟩ := m
    rw [Members.set]
    split
    · rename_i hk
      subst hk
      rw [heardMembers, if_pos h, heardMembers, if_pos h]
    · rw [heardMembers, heardMembers, ih]

theorem heardMembers_set (h : isShadowed base key = false) (ms : Members) (v : Json) :
    heardMembers base (ms.set key v) =
      Members.set (heardMembers base ms) key (heardValue (base.get? key) v) := by
  induction ms with
  | nil => simp [Members.set, heardMembers, h]
  | cons m ms ih =>
    obtain ⟨k, w⟩ := m
    rw [Members.set]
    split
    · rename_i hk
      subst hk
      rw [heardMembers, heardMembers, if_neg (by simp [h]), if_neg (by simp [h]), Members.set,
        if_pos rfl]
    · rename_i hk
      rw [heardMembers, heardMembers]
      split
      · exact ih
      · rw [Members.set, if_neg hk, ih]

mutual

/-- All of a base is heard beside itself. -/
theorem heardValue_self : ∀ v : Json, Legible v → heardValue (some v) v = v
  | .obj base, hv => by
    rw [heardValue, heardMembers_of_mem base base (fun m hm => Members.mem_keys_of_mem hm)
      (fun m hm => (Members.get?_eq_some_iff hv.1).2 hm) hv.2]
  | .null, _ | .bool _, _ | .int _, _ | .real _, _ | .str _, _ | .arr _, _ => rfl

theorem heardMembers_of_mem (base : Members) : ∀ ms : List (String × Json),
    (∀ m ∈ ms, m.1 ∈ base.keys) → (∀ m ∈ ms, base.get? m.1 = some m.2) →
    Json.LegibleMembers ms → heardMembers base ms = ms
  | [], _, _, _ => rfl
  | (k, v) :: ms, hkeys, hvalues, hms => by
    obtain ⟨hk, hkeys⟩ := List.forall_mem_cons.1 hkeys
    obtain ⟨hv, hvalues⟩ := List.forall_mem_cons.1 hvalues
    rw [heardMembers, if_neg (by simp [not_isShadowed_of_mem hk]), hv, heardValue_self v hms.1,
      heardMembers_of_mem base ms hkeys hvalues hms.2]

end

theorem heardMembers_self (h : Legible (.obj base)) : heardMembers base base = base := by
  have hself := heardValue_self _ h
  rw [heardValue] at hself
  exact Json.obj.inj hself

end Values

section Merging

theorem mergeValue_none (key : String) (v : Json) : mergeValue key none v = .ok v := by
  cases v <;> rfl

mutual

/-- Merging what is heard gives what is heard of the merged members. The members merged so far are
of other keys, so the base is still found under the keys to come. -/
theorem mergeMembers_heard (base cur : Members) (hbase : Legible (.obj base)) :
    ∀ ms : List (String × Json), Json.LegibleMembers ms → (Members.keys ms).Nodup →
    (∀ k ∈ Members.keys ms, cur.get? k = base.get? k) →
    mergeMembers (heardMembers base cur) (heardMembers base ms) =
      heardMembers base <$> mergeMembers cur ms
  | [], _, _, _ => rfl
  | (k, v) :: ms, hms, hn, hcur => by
    obtain ⟨hk, hn⟩ := List.nodup_cons.1 hn
    obtain ⟨hkcur, hcur⟩ := List.forall_mem_cons.1 hcur
    have hrest (w : Json) : ∀ other ∈ Members.keys ms,
        (cur.set k w).get? other = base.get? other := by
      intro other ho
      have hne : other ≠ k := fun he => hk (he ▸ ho)
      rw [Members.get?_set, if_neg hne, hcur other ho]
    cases hshadow : isShadowed base k with
    | true =>
      have hnone : base.get? k = none := by
        rw [Members.get?_eq_none_iff]
        intro hmem
        rw [not_isShadowed_of_mem hmem] at hshadow
        cases hshadow
      have ih := mergeMembers_heard base (cur.set k v) hbase ms hms.2 hn (hrest v)
      rw [heardMembers_set_of_shadowed hshadow] at ih
      rw [heardMembers, if_pos hshadow, ih, mergeMembers, hkcur, hnone, mergeValue_none]
      rfl
    | false =>
      have hold : Members.get? (heardMembers base cur) k = base.get? k := by
        rw [get?_heardMembers, hshadow, if_neg Bool.false_ne_true, hkcur]
        cases hget : base.get? k with
        | none => rfl
        | some u => rw [Option.map_some, heardValue_self u (hbase.of_get? hget)]
      have hvalue := mergeValue_heard k (base.get? k) (fun u hu => hbase.of_get? hu) v hms.1
      rw [heardMembers, hshadow, if_neg Bool.false_ne_true, mergeMembers, mergeMembers, hold,
        hvalue, hkcur]
      cases mergeValue k (base.get? k) v with
      | error e => rfl
      | ok w =>
        have ih := mergeMembers_heard base (cur.set k w) hbase ms hms.2 hn (hrest w)
        rw [heardMembers_set hshadow] at ih
        exact ih

theorem mergeValue_heard (key : String) (old : Option Json)
    (hold : ∀ u, old = some u → Legible u) : ∀ v : Json, Legible v →
    mergeValue key old (heardValue old v) = heardValue old <$> mergeValue key old v
  | .obj ms, hv => by
    cases old with
    | none => rfl
    | some u =>
      cases u with
      | obj base =>
        have ih := mergeMembers_heard base base (hold _ rfl) ms hv.2 hv.1 fun _ _ => rfl
        rw [heardMembers_self (hold _ rfl)] at ih
        rw [heardValue, mergeValue, mergeValue, ih]
        cases mergeMembers base ms <;> rfl
      | _ => rfl
  | .arr items, _ => by
    cases old with
    | none => rfl
    | some u =>
      cases u with
      | arr rules =>
        rw [heardValue_eq_self (fun _ h => by cases h), mergeValue]
        split
        · cases ruleIndex 0 rules with
          | error e => rfl
          | ok index =>
            simp only [bind, Except.bind]
            cases mergeRules index rules items <;> rfl
        · rfl
      | _ => rfl
  | .null, _ | .bool _, _ | .int _, _ | .real _, _ | .str _, _ => rfl

end

/-- An object that comes of a base and overrides that a text can hold. -/
def Overridden (base merged : Members) : Prop :=
  ∃ os, Legible (.obj os) ∧ mergeMembers base os = .ok merged

theorem Overridden.keys_subset (h : Overridden base merged) : base.keys ⊆ merged.keys := by
  obtain ⟨os, hos, hmerged⟩ := h
  rw [(merges_of_mergeMembers hos.1 hmerged).keys_eq]
  exact List.subset_append_left _ _

/-- What is an object in the base and is one still has been merged like the whole. -/
theorem Overridden.section_ {b ns : Members} (h : Overridden base merged)
    (hb : base.get? key = some (.obj b)) (hm : merged.get? key = some (.obj ns)) :
    Overridden b ns := by
  obtain ⟨os, hos, hmerged⟩ := h
  have hmerges := merges_of_mergeMembers hos.1 hmerged
  cases hget : Members.get? os key with
  | none =>
    rw [hmerges.kept key (Members.get?_eq_none_iff.1 hget), hb] at hm
    cases hm
    exact ⟨[], ⟨List.nodup_nil, trivial⟩, rfl⟩
  | some v =>
    obtain ⟨w, hw, hwget⟩ := hmerges.given key v (Json.mem_of_get? hget)
    rw [hm] at hwget
    cases hwget
    rw [hb] at hw
    cases v with
    | obj vs =>
      obtain ⟨merged, hmerged, he⟩ := bind_eq_ok_iff.1 hw
      cases he
      exact ⟨vs, hos.of_get? hget, hmerged⟩
    | _ => cases hw

end Merging

section Reading

open Schema (lookup? field fieldOr underscored)

variable {α : Type} {read : Schema.Reader α} {default : α}

/-- What the base has is found under its own key. -/
theorem Overridden.exists_lookup? (h : Overridden base ms) (hk : key ∈ base.keys) :
    ∃ v, ms.get? key = some v ∧ lookup? ms key = some (key, v) ∧
      lookup? (heardMembers base ms) key = some (key, heardValue (base.get? key) v) := by
  obtain ⟨v, hv⟩ := Members.exists_get?_of_mem_keys (h.keys_subset hk)
  have hheard : Members.get? (heardMembers base ms) key =
      some (heardValue (base.get? key) v) := by
    rw [get?_heardMembers, not_isShadowed_of_mem hk, if_neg Bool.false_ne_true, hv]
    rfl
  exact ⟨v, hv, by rw [lookup?, hv], by rw [lookup?, hheard]⟩

theorem Overridden.field_heard (h : Overridden base ms) (hk : key ∈ base.keys)
    (hread : ∀ v, ms.get? key = some v → read (heardValue (base.get? key) v) = read v) :
    field (heardMembers base ms) key read = field ms key read := by
  obtain ⟨v, hv, hfull, hheard⟩ := h.exists_lookup? hk
  rw [field, field, hfull, hheard]
  dsimp only
  rw [hread v hv]

theorem Overridden.fieldOr_heard (h : Overridden base ms) (hk : key ∈ base.keys)
    (hread : ∀ v, ms.get? key = some v → read (heardValue (base.get? key) v) = read v) :
    fieldOr (heardMembers base ms) key default read = fieldOr ms key default read := by
  obtain ⟨v, hv, hfull, hheard⟩ := h.exists_lookup? hk
  rw [fieldOr, fieldOr, hfull, hheard]
  dsimp only
  rw [hread v hv]

/-- A key that is neither one of the base nor shadowed by it. -/
def isFree (base : Members) (key : String) : Bool :=
  !base.keys.contains key && !isShadowed base key

theorem get?_heardMembers_of_isFree (h : isFree base key = true) :
    Members.get? (heardMembers base ms) key = ms.get? key := by
  rw [isFree, Bool.and_eq_true, Bool.not_eq_true', Bool.not_eq_true', ← Bool.not_eq_true,
    List.contains_iff_mem] at h
  rw [get?_heardMembers, h.2, if_neg Bool.false_ne_true, Members.get?_eq_none_iff.2 h.1]
  cases ms.get? key with
  | none => rfl
  | some v => rw [Option.map_some, heardValue_none]

theorem fieldOr_of_isFree (h : isFree base key = true) (h' : isFree base (underscored key) = true) :
    fieldOr (heardMembers base ms) key default read = fieldOr ms key default read := by
  rw [fieldOr, fieldOr, lookup?, lookup?, get?_heardMembers_of_isFree h,
    get?_heardMembers_of_isFree h']

/-- What is heard of a value is read like the value, if that is so for objects. -/
theorem read_heardValue {b : Members} (h : ∀ ns, v = .obj ns →
    read (.obj (heardMembers b ns)) = read (.obj ns)) :
    read (heardValue (some (.obj b)) v) = read v := by
  cases v with
  | obj ns => exact h ns rfl
  | _ => rfl

theorem heardValue_of_flat (h : isFlatObject (.obj base) = true) (key : String) (v : Json) :
    heardValue (base.get? key) v = v := by
  refine heardValue_eq_self (fun b hb => ?_) v
  have hleaf := List.all_eq_true.1 h _ (Json.mem_of_get? hb)
  cases hleaf

theorem Overridden.field_flat (h : Overridden base ms) (hflat : isFlatObject (.obj base) = true)
    (hk : key ∈ base.keys) : field (heardMembers base ms) key read = field ms key read :=
  h.field_heard hk fun v _ => by rw [heardValue_of_flat hflat]

theorem Overridden.fieldOr_flat (h : Overridden base ms) (hflat : isFlatObject (.obj base) = true)
    (hk : key ∈ base.keys) :
    fieldOr (heardMembers base ms) key default read = fieldOr ms key default read :=
  h.fieldOr_heard hk fun v _ => by rw [heardValue_of_flat hflat]

theorem Overridden.read_scan (hbase : ScanOptions.standard.toJson = .obj base)
    (h : Overridden base ms) :
    ScanOptions.read (.obj (heardMembers base ms)) = ScanOptions.read (.obj ms) := by
  have hflat : isFlatObject (.obj base) = true := by
    rw [← hbase]
    decide +kernel
  have hkeys : base.keys = ["include", "exclude", "recursive", "maxDepth", "followSymlinks"] := by
    cases hbase
    rfl
  simp only [ScanOptions.read, Schema.record]
  rw [h.fieldOr_flat hflat (by simp [hkeys]), h.fieldOr_flat hflat (by simp [hkeys]),
    h.fieldOr_flat hflat (by simp [hkeys]), h.fieldOr_flat hflat (by simp [hkeys]),
    h.fieldOr_flat hflat (by simp [hkeys])]

theorem Overridden.read_convention {c : Convention} (hbase : c.toJson = .obj base)
    (h : Overridden base ms) :
    Convention.read (.obj (heardMembers base ms)) = Convention.read (.obj ms) := by
  cases hbase
  have hflat : isFlatObject c.toJson = true := rfl
  simp only [Convention.read, Schema.record]
  rw [h.field_flat hflat (by simp), h.field_flat hflat (by simp)]

theorem Overridden.read_conventions (hbase : Conventions.standard.toJson = .obj base)
    (h : Overridden base ms) :
    Conventions.read (.obj (heardMembers base ms)) = Conventions.read (.obj ms) := by
  have hfield (key : String) (k : ExportKind) (hkey : Conventions.fieldOf k = key)
      {default : Convention} : fieldOr (heardMembers base ms) key default Convention.read =
        fieldOr ms key default Convention.read := by
    have hget : base.get? key = some (Conventions.standard.forKind k).toJson := by
      cases hbase
      subst hkey
      cases k <;> rfl
    refine h.fieldOr_heard (Members.mem_keys_of_mem (Json.mem_of_get? hget)) fun v hv => ?_
    rw [hget]
    refine read_heardValue fun ns hns => (h.section_ hget ?_).read_convention rfl
    rw [hv, hns]
  simp only [Conventions.read, Schema.record]
  rw [hfield "interfaces" .interface rfl, hfield "types" .typeAlias rfl,
    hfield "components" .component rfl, hfield "functions" .function rfl,
    hfield "classes" .classDef rfl, hfield "constants" .constant rfl]

theorem Overridden.read_fixing (hbase : FixPolicy.toJson {} = .obj base)
    (h : Overridden base ms) :
    FixPolicy.read (.obj (heardMembers base ms)) = FixPolicy.read (.obj ms) := by
  cases hbase
  have hflat : isFlatObject (FixPolicy.toJson {}) = true := rfl
  simp only [FixPolicy.read, Schema.record]
  rw [h.fieldOr_flat hflat (by decide), h.fieldOr_flat hflat (by decide),
    h.fieldOr_flat hflat (by decide), fieldOr_of_isFree (by decide +kernel) (by decide +kernel)]

theorem Overridden.read_reporting (hbase : ReportingOptions.toJson {} = .obj base)
    (h : Overridden base ms) :
    ReportingOptions.read (.obj (heardMembers base ms)) = ReportingOptions.read (.obj ms) := by
  cases hbase
  have hflat : isFlatObject (ReportingOptions.toJson {}) = true := rfl
  simp only [ReportingOptions.read, Schema.record]
  rw [h.fieldOr_flat hflat (by decide), fieldOr_of_isFree (by decide +kernel) (by decide +kernel),
    h.fieldOr_flat hflat (by decide)]

/-- Settings are read as what is heard of them beside the standard ones. -/
theorem Overridden.read_config {root : String} (h : Overridden (standardData root) ms) :
    Config.read (.obj (heardMembers (standardData root) ms)) = Config.read (.obj ms) := by
  have hkey (key : String) (hk : key ∈ ["rootPath", "scanOptions", "rules", "namingConventions",
      "autoFix", "reporting"]) : key ∈ Members.keys (standardData root) := hk
  have hsection {β : Type} {readPart : Schema.Reader β} {key : String} {b : Members}
      (hb : Members.get? (standardData root) key = some (.obj b))
      (hpart : ∀ ns, Overridden b ns → readPart (.obj (heardMembers b ns)) = readPart (.obj ns)) :
      ∀ v, ms.get? key = some v →
        readPart (heardValue (Members.get? (standardData root) key) v) = readPart v := by
    intro v hv
    rw [hb]
    refine read_heardValue fun ns hns => hpart ns (h.section_ hb ?_)
    rw [hv, hns]
  have hroot (v : Json) : heardValue (Members.get? (standardData root) "rootPath") v = v :=
    heardValue_eq_self (fun b hb => by cases hb) v
  have hrules (v : Json) : heardValue (Members.get? (standardData root) "rules") v = v :=
    heardValue_eq_self (fun b hb => by cases hb) v
  simp only [Config.read, Schema.record]
  rw [h.field_heard (hkey _ (by simp)) fun v _ => by rw [hroot],
    h.fieldOr_heard (hkey "scanOptions" (by simp)) (hsection rfl fun ns hns => hns.read_scan rfl),
    h.fieldOr_heard (hkey "rules" (by simp)) fun v _ => by rw [hrules],
    h.fieldOr_heard (hkey "namingConventions" (by simp))
      (hsection rfl fun ns hns => hns.read_conventions rfl),
    h.fieldOr_heard (hkey "autoFix" (by simp)) (hsection rfl fun ns hns => hns.read_fixing rfl),
    h.fieldOr_heard (hkey "reporting" (by simp))
      (hsection rfl fun ns hns => hns.read_reporting rfl)]

end Reading

end ExportLint.Config
