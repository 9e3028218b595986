import ExportLint.Config.Check
import ExportLint.Config.Merge

/-!
# Merging sound settings

Merging compares rules by their names, also in lists far down. It fails where a name is a list or an
object, and where something that is no object would override a rule without a name. Settings that
are sound hold neither. Merged into each other, they give sound settings again.
-/
namespace ExportLint

namespace Json

mutual

/-- A property of a value and its key holds of every member of a value, at any depth. -/
def allMembers (p : String → Json → Bool) : Json → Bool
  | .obj ms => allMembersOf p ms
  | .arr vs => allMembersIn p vs
  | _ => true

def allMembersOf (p : String → Json → Bool) : List (String × Json) → Bool
  | [] => true
  | (k, v) :: ms => p k v && allMembers p v && allMembersOf p ms

def allMembersIn (p : String → Json → Bool) : List Json → Bool
  | [] => true
  | v :: vs => allMembers p v && allMembersIn p vs

end

variable {p : String → Json → Bool}

theorem allMembersOf_iff {ms : List (String × Json)} :
    allMembersOf p ms = true ↔ ∀ m ∈ ms, p m.1 m.2 = true ∧ allMembers p m.2 = true := by
  induction ms with
  | nil => simp [allMembersOf]
  | cons m ms ih => simp [allMembersOf, ih]

theorem allMembersIn_iff {vs : List Json} :
    allMembersIn p vs = true ↔ ∀ v ∈ vs, allMembers p v = true := by
  induction vs with
  | nil => simp [allMembersIn]
  | cons v vs ih => simp [allMembersIn, ih]

theorem mem_of_get? {ms : Members} {key : String} {v : Json} (h : ms.get? key = some v) :
    (key, v) ∈ ms := by
  induction ms with
  | nil => cases h
  | cons m ms ih =>
    obtain ⟨k, w⟩ := m
    rw [Members.get?_cons] at h
    split at h
    · rename_i hk
      cases h
      exact hk ▸ List.mem_cons_self
    · exact List.mem_cons_of_mem _ (ih h)

theorem get?_ne_none_of_mem {ms : Members} {key : String} {v : Json} (h : (key, v) ∈ ms) :
    ms.get? key ≠ none := by
  induction ms with
  | nil => cases h
  | cons m ms ih =>
    obtain ⟨k, w⟩ := m
    rw [Members.get?_cons]
    split
    · simp
    · rename_i hk
      rcases List.mem_cons.1 h with he | h
      · cases he
        exact absurd rfl hk
      · exact ih h

theorem mem_of_mem_set {ms : Members} {key : String} {v : Json} {m : String × Json}
    (h : m ∈ ms.set key v) : m ∈ ms ∨ m = (key, v) := by
  induction ms with
  | nil => exact .inr (List.mem_singleton.1 h)
  | cons n ms ih =>
    obtain ⟨k, w⟩ := n
    simp only [Members.set] at h
    split at h
    · rename_i hk
      rcases List.mem_cons.1 h with rfl | h
      · exact .inr (by rw [hk])
      · exact .inl (List.mem_cons_of_mem _ h)
    · rcases List.mem_cons.1 h with rfl | h
      · exact .inl List.mem_cons_self
      · exact (ih h).imp_left (List.mem_cons_of_mem _)

/-- A member stays when a key is set, perhaps with another value. -/
theorem exists_mem_set {ms : Members} {other : String} {w : Json} (h : (other, w) ∈ ms)
    (key : String) (v : Json) : ∃ w', (other, w') ∈ ms.set key v := by
  have hget := get?_ne_none_of_mem h
  obtain ⟨w', hw'⟩ : ∃ w', (ms.set key v).get? other = some w' := by
    rw [Members.get?_set]
    split
    · exact ⟨v, rfl⟩
    · exact Option.ne_none_iff_exists'.1 hget
  exact ⟨w', mem_of_get? hw'⟩

end Json

namespace Config

open Json (allMembers allMembersOf allMembersIn)

/-- A value may be the name of a rule. Where names are asked for, null is none. -/
def isName (named : Bool) (v : Json) : Bool := mayName v && !(named && v.isNull)

/-- An entry of a list of rules. Either all rules have names, or all entries are objects. -/
def isRule (named : Bool) : Json → Bool
  | .obj ms => (ms.all fun m => m.1 != "name" || isName named m.2) &&
      (!named || ms.any fun m => m.1 == "name")
  | _ => named

/-- A list holds rules only. -/
def holdsRules (named : Bool) : Json → Bool
  | .arr vs => vs.all (isRule named)
  | _ => true

/-- The keys whose values are read as patterns. -/
def patternKeys : List String := ["pattern", "defaultExport", "namedExport"]

/-- A text is told to be a pattern, or to be none. -/
def isJudged : Json → Bool
  | .str s => (isPattern s).isOk
  | _ => true

/-- A member that can be merged and checked. -/
def fits (named : Bool) (key : String) (v : Json) : Bool :=
  (key != "rules" || holdsRules named v) && (!patternKeys.contains key || isJudged v)

/-- Settings whose members can all be merged and checked. -/
def isSound (named : Bool) (v : Json) : Bool := v.allMembers (fits named)

variable {named : Bool} {rules items : List Json}

theorem fits_iff {key : String} {v : Json} : fits named key v = true ↔
    (key = "rules" → holdsRules named v = true) ∧
      (key ∈ patternKeys → isJudged v = true) := by
  simp only [fits, Bool.and_eq_true, Bool.or_eq_true, bne_iff_ne, ne_eq, Bool.not_eq_true',
    ← Bool.not_eq_true, List.contains_iff_mem, ← Decidable.imp_iff_not_or]

theorem isRule_obj_iff {ms : List (String × Json)} : isRule named (.obj ms) = true ↔
    (∀ v, ("name", v) ∈ ms → isName named v = true) ∧
      (named = true → ∃ v, ("name", v) ∈ ms) := by
  simp only [isRule, Bool.and_eq_true, List.all_eq_true, Bool.or_eq_true, bne_iff_ne,
    Bool.not_eq_true', List.any_eq_true, beq_iff_eq, Prod.forall, Prod.exists,
    exists_and_right, exists_eq_right]
  constructor
  · rintro ⟨hnames, hnamed⟩
    exact ⟨fun v hv => (hnames _ v hv).resolve_left fun h => h rfl,
      fun h => hnamed.resolve_left (by simp [h])⟩
  · rintro ⟨hnames, hnamed⟩
    refine ⟨fun k v hv => ?_, ?_⟩
    · by_cases hk : k = "name"
      · subst hk
        exact .inr (hnames v hv)
      · exact .inl hk
    · cases named with
      | false => exact .inl rfl
      | true => exact .inr (hnamed rfl)

/-- The names of a merged object come from the two that are merged, and none is lost. -/
structure KeepsNames (base overrides merged : List (String × Json)) : Prop where
  from_ : ∀ Q : Json → Prop, (∀ v, Q v → mayName v = true) → (∀ v, ("name", v) ∈ base → Q v) →
    (∀ v, ("name", v) ∈ overrides → Q v) → ∀ v, ("name", v) ∈ merged → Q v
  kept : ∀ v, ("name", v) ∈ base → ∃ w, ("name", w) ∈ merged

/-- A rule that is merged with one is a rule. -/
theorem KeepsNames.isRule {base overrides merged : List (String × Json)}
    (h : KeepsNames base overrides merged) (hb : isRule named (.obj base) = true)
    (ho : isRule named (.obj overrides) = true) : isRule named (.obj merged) = true := by
  rw [isRule_obj_iff] at hb ho ⊢
  refine ⟨h.from_ _ (fun v hv => ?_) hb.1 ho.1, fun hn => ?_⟩
  · rw [isName, Bool.and_eq_true] at hv
    exact hv.1
  · obtain ⟨v, hv⟩ := hb.2 hn
    exact h.kept v hv

/-- Every rule of an index is an object at its position. If names are asked for, none is null. -/
def Indexes (named : Bool) (index : List (Json × Nat)) (rules : List Json) : Prop :=
  ∀ x ∈ index, (∃ ms, rules[x.2]? = some (.obj ms)) ∧ (named = true → x.1.isNull = false)

theorem Indexes.append {index : List (Json × Nat)} (h : Indexes named index rules) (r : Json) :
    Indexes named index (rules ++ [r]) := by
  intro x hx
  obtain ⟨⟨ms, hms⟩, hnull⟩ := h x hx
  have hlt := (List.getElem?_eq_some_iff.1 hms).1
  exact ⟨⟨ms, by rw [List.getElem?_append_left hlt, hms]⟩, hnull⟩

/-- An object may take the place of a rule. -/
theorem Indexes.set {index : List (Json × Nat)} (h : Indexes named index rules) (i : Nat)
    (ms : List (String × Json)) : Indexes named index (rules.set i (.obj ms)) := by
  intro x hx
  obtain ⟨⟨ms', hms'⟩, hnull⟩ := h x hx
  refine ⟨?_, hnull⟩
  rw [List.getElem?_set]
  split
  · rename_i he
    subst he
    rw [if_pos (List.getElem?_eq_some_iff.1 hms').1]
    exact ⟨ms, rfl⟩
  · exact ⟨ms', hms'⟩

theorem exists_ruleName {v : Json} (h : isRule named v = true) : ∃ name, ruleName v = .ok name ∧
    (∀ ms, v = .obj ms → named = true → name.isNull = false) := by
  cases v with
  | obj ms =>
    obtain ⟨hnames, hnamed⟩ := isRule_obj_iff.1 h
    have hget : (Json.obj ms).get? "name" = Json.Members.get? ms "name" := rfl
    rw [ruleName, hget]
    cases hname : Json.Members.get? ms "name" with
    | none =>
      refine ⟨.null, rfl, fun _ _ hn => ?_⟩
      obtain ⟨v, hv⟩ := hnamed hn
      exact absurd hname (Json.get?_ne_none_of_mem hv)
    | some name =>
      have hok := hnames name (Json.mem_of_get? hname)
      rw [isName, Bool.and_eq_true, Bool.not_eq_true'] at hok
      refine ⟨name, by simp [hok.1], fun _ _ hn => ?_⟩
      simpa [hn] using hok.2
  | _ => exact ⟨.null, rfl, fun _ h => by cases h⟩

theorem exists_ruleIndex (h : ∀ r ∈ rules, isRule named r = true) (before : List Json) :
    ∃ index, ruleIndex before.length rules = .ok index ∧
      Indexes named index (before ++ rules) := by
  induction rules generalizing before with
  | nil => exact ⟨[], rfl, fun x hx => (List.not_mem_nil hx).elim⟩
  | cons r rules ih =>
    obtain ⟨hr, hrules⟩ := List.forall_mem_cons.1 h
    obtain ⟨index, hindex, hall⟩ := ih hrules (before ++ [r])
    rw [List.length_append, List.length_singleton] at hindex
    rw [List.append_assoc, List.singleton_append] at hall
    cases r with
    | obj ms =>
      obtain ⟨name, hname, hnull⟩ := exists_ruleName hr
      refine ⟨(name, before.length) :: index, ?_, ?_⟩
      · rw [ruleIndex, hname, hindex]
        rfl
      · intro x hx
        rcases List.mem_cons.1 hx with rfl | hx
        · exact ⟨⟨ms, by simp⟩, hnull ms rfl⟩
        · exact hall x hx
    | _ => exact ⟨index, hindex, hall⟩

theorem equal_null {v : Json} (h : v.isNull = false) : v.equal .null = false := by
  cases v <;> simp_all [Json.equal, Json.isNull]

/-- What a name stands for in an index is an object. Null stands for nothing if names are asked
for. -/
theorem positionOf?_eq_some {index : List (Json × Nat)} (h : Indexes named index rules)
    {name : Json} {i : Nat} (hi : positionOf? index name = some i) :
    (∃ ms, rules[i]? = some (.obj ms)) ∧ (named = true → name ≠ .null) := by
  obtain ⟨x, hx, rfl⟩ := Option.map_eq_some_iff.1 hi
  obtain ⟨hobj, hnull⟩ := h x (List.mem_reverse.1 (List.mem_of_find?_eq_some hx))
  refine ⟨hobj, fun hn => ?_⟩
  rintro rfl
  have hequal := List.find?_some hx
  rw [equal_null (hnull hn)] at hequal
  cases hequal

/-- A sound entry of a list of rules. -/
def IsSoundRule (named : Bool) (r : Json) : Prop :=
  isRule named r = true ∧ isSound named r = true

theorem isSound_obj_iff {ms : List (String × Json)} : isSound named (.obj ms) = true ↔
    ∀ m ∈ ms, fits named m.1 m.2 = true ∧ isSound named m.2 = true := by
  rw [isSound, allMembers, Json.allMembersOf_iff]
  rfl

theorem isSound_arr_iff {vs : List Json} : isSound named (.arr vs) = true ↔
    ∀ v ∈ vs, isSound named v = true := by
  rw [isSound, allMembers, Json.allMembersIn_iff]
  rfl

/-- What has a name, or need not have one, is an object. -/
theorem exists_obj_of_ruleName {o name : Json} (ho : isRule named o = true)
    (h : ruleName o = .ok name) (hnull : named = true → name ≠ .null) : ∃ ms, o = .obj ms := by
  cases o with
  | obj ms => exact ⟨ms, rfl⟩
  | _ =>
    cases h
    exact absurd rfl (hnull ho)

theorem isSound_set {ms : Json.Members} {key : String} {v : Json}
    (hms : isSound named (.obj ms) = true) (hf : fits named key v = true)
    (hv : isSound named v = true) : isSound named (.obj (ms.set key v)) = true := by
  rw [isSound_obj_iff] at hms ⊢
  intro m hm
  rcases Json.mem_of_mem_set hm with hm | rfl
  · exact hms m hm
  · exact ⟨hf, hv⟩

theorem KeepsNames.refl (base : List (String × Json)) : KeepsNames base [] base :=
  ⟨fun _ _ hb _ => hb, fun v hv => ⟨v, hv⟩⟩

/-- One member is merged, and then the others. -/
theorem KeepsNames.cons {base rest merged : List (String × Json)} {key : String} {v w : Json}
    (h : KeepsNames (Json.Members.set base key w) rest merged)
    (hw : mayName v = true → w = v) : KeepsNames base ((key, v) :: rest) merged where
  from_ Q hQ hb ho := by
    refine h.from_ Q hQ (fun u hu => ?_) fun u hu => ho u (List.mem_cons_of_mem _ hu)
    rcases Json.mem_of_mem_set hu with hu | hu
    · exact hb u hu
    · obtain ⟨rfl, rfl⟩ := Prod.mk.inj hu
      have hv := ho v List.mem_cons_self
      rw [hw (hQ v hv)]
      exact hv
  kept v hv := by
    obtain ⟨u, hu⟩ := Json.exists_mem_set hv key w
    exact h.kept u hu

mutual

/-- Sound members can be merged, and make sound members. -/
theorem exists_mergeMembers (base : Json.Members) : ∀ ms : List (String × Json),
    isSound named (.obj base) = true → isSound named (.obj ms) = true →
    ∃ merged, mergeMembers base ms = .ok merged ∧ isSound named (.obj merged) = true ∧
      KeepsNames base ms merged
  | [], hb, _ => ⟨base, rfl, hb, .refl base⟩
  | (k, v) :: rest, hb, hms => by
    obtain ⟨hv, hrest⟩ := List.forall_mem_cons.1 (isSound_obj_iff.1 hms)
    have hold : ∀ w, base.get? k = some w → fits named k w = true ∧ isSound named w = true :=
      fun w hw => isSound_obj_iff.1 hb _ (Json.mem_of_get? hw)
    obtain ⟨w, hw, hfits, hsound, hname⟩ := exists_mergeValue k (base.get? k) v hold hv.1 hv.2
    obtain ⟨merged, hmerged, hsound', hkeeps⟩ := exists_mergeMembers (base.set k w) rest
      (isSound_set hb hfits hsound) (isSound_obj_iff.2 hrest)
    refine ⟨merged, ?_, hsound', hkeeps.cons hname⟩
    rw [mergeMembers, hw]
    exact hmerged

theorem exists_mergeValue (key : String) (old : Option Json) : ∀ v : Json,
    (∀ w, old = some w → fits named key w = true ∧ isSound named w = true) →
    fits named key v = true → isSound named v = true →
    ∃ merged, mergeValue key old v = .ok merged ∧ fits named key merged = true ∧
      isSound named merged = true ∧ (mayName v = true → merged = v)
  | .obj ms, hold, hf, hs => by
    unfold mergeValue
    split
    · rename_i base
      obtain ⟨merged, hmerged, hsound, -⟩ := exists_mergeMembers base ms (hold _ rfl).2 hs
      refine ⟨.obj merged, by rw [hmerged]; rfl, ?_, hsound, fun h => by cases h⟩
      rw [fits_iff]
      exact ⟨fun _ => rfl, fun _ => rfl⟩
    · exact ⟨_, rfl, hf, hs, fun _ => rfl⟩
  | .arr items, hold, hf, hs => by
    unfold mergeValue
    split
    · rename_i rules
      split
      · rename_i hkey
        have hrules := (fits_iff.1 (hold _ rfl).1).1 hkey
        have hitems := (fits_iff.1 hf).1 hkey
        rw [holdsRules, List.all_eq_true] at hrules hitems
        obtain ⟨index, hindex, hall⟩ := exists_ruleIndex hrules []
        have hsound := isSound_arr_iff.1 (hold _ rfl).2
        obtain ⟨merged, hmerged, hsound'⟩ := exists_mergeRules index rules items hall
          (fun r hr => ⟨hrules r hr, hsound r hr⟩)
          fun r hr => ⟨hitems r hr, isSound_arr_iff.1 hs r hr⟩
        refine ⟨.arr merged, ?_, ?_, isSound_arr_iff.2 fun r hr => (hsound' r hr).2,
          fun h => by cases h⟩
        · rw [List.length_nil] at hindex
          rw [hindex]
          simp only [bind, Except.bind]
          rw [hmerged]
        · rw [fits_iff]
          exact ⟨fun _ => List.all_eq_true.2 fun r hr => (hsound' r hr).1, fun _ => rfl⟩
      · exact ⟨_, rfl, hf, hs, fun _ => rfl⟩
    · exact ⟨_, rfl, hf, hs, fun _ => rfl⟩
  | .null, _, hf, hs => ⟨_, rfl, hf, hs, fun _ => rfl⟩
  | .bool _, _, hf, hs => ⟨_, rfl, hf, hs, fun _ => rfl⟩
  | .int _, _, hf, hs => ⟨_, rfl, hf, hs, fun _ => rfl⟩
  | .real _, _, hf, hs => ⟨_, rfl, hf, hs, fun _ => rfl⟩
  | .str _, _, hf, hs => ⟨_, rfl, hf, hs, fun _ => rfl⟩

theorem exists_mergeRules (index : List (Json × Nat)) (rules : List Json) : ∀ items : List Json,
    Indexes named index rules → (∀ r ∈ rules, IsSoundRule named r) →
    (∀ r ∈ items, IsSoundRule named r) →
    ∃ merged, mergeRules index rules items = .ok merged ∧ ∀ r ∈ merged, IsSoundRule named r
  | [], _, hr, _ => ⟨rules, rfl, hr⟩
  | o :: os, hi, hr, ho => by
    obtain ⟨ho, hos⟩ := List.forall_mem_cons.1 ho
    obtain ⟨name, hname, -⟩ := exists_ruleName ho.1
    have hobj : (named = true → name ≠ .null) → ∃ ms, o = .obj ms :=
      exists_obj_of_ruleName ho.1 hname
    rw [mergeRules, hname]
    simp only [bind, Except.bind]
    split
    · have hr' : ∀ r ∈ rules ++ [o], IsSoundRule named r :=
        List.forall_mem_append.2 ⟨hr, List.forall_mem_singleton.2 ho⟩
      exact exists_mergeRules index (rules ++ [o]) os (hi.append o) hr' hos
    · rename_i i hposition
      obtain ⟨⟨base, hbase⟩, hnull⟩ := positionOf?_eq_some hi hposition
      have hb := hr _ (List.mem_of_getElem? hbase)
      obtain ⟨ms, hmerged, hsound⟩ := exists_mergeRule base o hb ho (hobj hnull)
      rw [hbase, Option.getD_some, hmerged]
      refine exists_mergeRules index (rules.set i (.obj ms)) os (hi.set i ms) (fun r hr' => ?_) hos
      rcases List.mem_or_eq_of_mem_set hr' with hr' | rfl
      · exact hr r hr'
      · exact hsound

/-- A rule is merged with an object. -/
theorem exists_mergeRule (base : Json.Members) : ∀ o : Json, IsSoundRule named (.obj base) →
    IsSoundRule named o → (∃ ms, o = .obj ms) →
    ∃ ms, mergeRule (.obj base) o = .ok (.obj ms) ∧ IsSoundRule named (.obj ms)
  | .obj ms, hb, ho, _ => by
    obtain ⟨merged, hmerged, hsound, hkeeps⟩ := exists_mergeMembers base ms hb.2 ho.2
    refine ⟨merged, ?_, hkeeps.isRule hb.1 ho.1, hsound⟩
    rw [mergeRule, hmerged]
    rfl
  | .null, _, _, h => by simp at h
  | .bool _, _, _, h => by simp at h
  | .int _, _, _, h => by simp at h
  | .real _, _, _, h => by simp at h
  | .str _, _, _, h => by simp at h
  | .arr _, _, _, h => by simp at h

end

/-- Sound overrides can be merged into sound settings, and make sound settings. -/
theorem exists_merge {base ms : List (String × Json)} (hb : isSound named (.obj base) = true)
    (hms : isSound named (.obj ms) = true) :
    ∃ merged, merge (.obj base) (.obj ms) = .ok (.obj merged) ∧
      isSound named (.obj merged) = true := by
  cases ms with
  | nil => exact ⟨base, rfl, hb⟩
  | cons m ms =>
    obtain ⟨merged, hmerged, hsound, -⟩ := exists_mergeMembers base (m :: ms) hb hms
    refine ⟨merged, ?_, hsound⟩
    rw [merge, hmerged]
    · rfl
    · simp

end Config

end ExportLint
