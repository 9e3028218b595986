import ExportLint.Naming.Key
import ExportLint.Proofs.SettingsAbsorption

/-!
# Keys in either spelling

A key with an underscore between its words keeps an underscore, or gets a capital or a digit behind
its first letter. So it never becomes a key of small letters alone: what stands under `rules` and
under `name` stays there, and overrides name the same rules in either spelling.
-/
namespace ExportLint

namespace Naming

open Text (Letter.isAsciiUpper Letter.isAsciiDigit)

section Keys

variable {c : Char} {cs : List Char} {key s : String}

/-- Characters that tell words apart. -/
def isMark (c : Char) : Bool := c == '_' || Letter.isAsciiUpper c || Letter.isAsciiDigit c

theorem closeGaps_cons (c : Char) (cs : List Char) : ∃ ds, closeGaps (c :: cs) = c :: ds := by
  rw [closeGaps.eq_def]
  split
  · rename_i h
    cases h
    split
    · exact ⟨_, rfl⟩
    · exact ⟨_, rfl⟩
  · rename_i h
    cases h
    exact ⟨_, rfl⟩
  · rename_i h
    cases h

/-- An underscore stays, or something else marks the word behind it. -/
theorem exists_mark_of_closeGaps (h : '_' ∈ cs) :
    ∃ ds, closeGaps (c :: cs) = c :: ds ∧ ∃ m ∈ ds, isMark m = true := by
  induction cs generalizing c with
  | nil => exact absurd h List.not_mem_nil
  | cons d cs ih =>
    have hstay : d = '_' → ∃ m ∈ closeGaps (d :: cs), isMark m = true := by
      rintro rfl
      obtain ⟨ds, hds⟩ := closeGaps_cons '_' cs
      exact ⟨'_', hds ▸ List.mem_cons_self, rfl⟩
    rw [closeGaps.eq_def]
    split
    · rename_i a b rest he
      cases he
      obtain ⟨ds, hds⟩ := closeGaps_cons b rest
      split
      · rename_i hgap
        rw [Bool.and_eq_true] at hgap
        refine ⟨_, rfl, b, hds ▸ List.mem_cons_self, ?_⟩
        rw [isMark, Bool.or_assoc, hgap.2, Bool.or_true]
      · exact ⟨_, rfl, hstay rfl⟩
    · rename_i he
      cases he
      refine ⟨_, rfl, ?_⟩
      rcases List.mem_cons.1 h with hd | hcs
      · exact hstay hd.symm
      · obtain ⟨ds, hds, m, hm, hmark⟩ := ih (c := d) hcs
        exact ⟨m, hds ▸ List.mem_cons_of_mem _ hm, hmark⟩
    · rename_i he
      cases he

theorem mem_titleFrom (previous before : Option Char) (h : '_' ∈ cs) :
    '_' ∈ Text.CaseMap.titleFrom previous before cs := by
  induction cs generalizing previous before with
  | nil => exact absurd h List.not_mem_nil
  | cons c cs ih =>
    rw [Text.CaseMap.titleFrom, List.mem_append]
    rcases List.mem_cons.1 h with rfl | hcs
    · left
      split
      · rw [Text.CaseMap.lowerBetween, if_neg (fun hsigma => absurd hsigma.1 (by decide))]
        decide
      · decide
    · exact .inr (ih _ _ hcs)

theorem exists_mark_of_lowerFirst {m : Char} (hm : m ∈ cs) (hmark : isMark m = true) :
    ∃ m ∈ lowerFirst (c :: cs), isMark m = true := by
  by_cases hc : c = '_'
  · subst hc
    refine ⟨'_', ?_, rfl⟩
    unfold lowerFirst
    dsimp only
    split
    · exact List.mem_cons_self
    · exact List.mem_append_left _ (by simp)
  · have hne : (c == '_') = false := beq_eq_false_iff_ne.2 hc
    refine ⟨m, ?_, hmark⟩
    simp [lowerFirst, hne, hm]

/-- A key with an underscore in it has a mark in the other spelling too. -/
theorem exists_mark_of_camelCase (h : '_' ∈ key.toList) :
    ∃ m ∈ (camelCase key).toList, isMark m = true := by
  have htitle := mem_titleFrom none none h
  rw [camelCase, String.toList_ofList, Text.CaseMap.title, String.toList_ofList]
  cases hcs : Text.CaseMap.titleFrom none none key.toList with
  | nil => exact absurd (hcs ▸ htitle) List.not_mem_nil
  | cons c cs =>
    rw [hcs] at htitle
    by_cases hc : '_' ∈ cs
    · obtain ⟨ds, hds, m, hm, hmark⟩ := exists_mark_of_closeGaps (c := c) hc
      rw [hds]
      exact exists_mark_of_lowerFirst hm hmark
    · obtain rfl : '_' = c := (List.mem_cons.1 htitle).resolve_right hc
      obtain ⟨ds, hds⟩ := closeGaps_cons '_' cs
      refine ⟨'_', ?_, rfl⟩
      rw [hds, lowerFirst]
      split
      · exact List.mem_cons_self
      · exact List.mem_append_left _ (by simp)

theorem mem_of_hasInnerUnderscore (h : hasInnerUnderscore key = true) : '_' ∈ key.toList := by
  rw [hasInnerUnderscore, List.contains_iff_mem, Text.dropTrailing, List.mem_reverse] at h
  have hdrop := List.mem_reverse.1 ((List.dropWhile_sublist _).subset h)
  exact (List.dropWhile_sublist _).subset hdrop

/-- A key without marks is spelled in one way. -/
theorem settingKey_eq_iff (hs : ∀ c ∈ s.toList, isMark c = false) :
    settingKey key = s ↔ key = s := by
  rw [settingKey]
  split
  · rename_i hinner
    have hmem := mem_of_hasInnerUnderscore hinner
    obtain ⟨m, hm, hmark⟩ := exists_mark_of_camelCase hmem
    refine iff_of_false ?_ ?_
    · rintro rfl
      rw [hs m hm] at hmark
      cases hmark
    · rintro rfl
      exact absurd (hs '_' hmem) (by decide)
  · exact Iff.rfl

end Keys

section Members

open Json (Members Plain)

variable {key : String} {v : Json}

theorem get?_foldl_camelizeMembers (hkey : ∀ c ∈ key.toList, isMark c = false)
    (hne : key ≠ "options") {ms acc : Members} (hn : ms.keys.Nodup) :
    ((camelizeMembers ms).foldl (fun acc m => acc.set m.1 m.2) acc).get? key =
      ((ms.get? key).map camelizeKeys).or (acc.get? key) := by
  induction ms generalizing acc with
  | nil => rfl
  | cons m ms ih =>
    obtain ⟨k, w⟩ := m
    obtain ⟨hk, hms⟩ := List.nodup_cons.1 hn
    rw [camelizeMembers, List.foldl_cons, ih hms, Members.get?_set, Members.get?_cons]
    by_cases he : key = k
    · subst he
      rw [if_pos ((settingKey_eq_iff hkey).2 rfl).symm, if_pos rfl, if_neg hne,
        Members.get?_eq_none_iff.2 hk]
      rfl
    · rw [if_neg fun h => he ((settingKey_eq_iff hkey).1 h.symm).symm, if_neg he]

/-- Under a key without marks the same value stands, with its keys in camel case. -/
theorem get?_camelizeKeys (hkey : key.toList.any isMark = false) (hne : key ≠ "options")
    (hv : Plain v) : (camelizeKeys v).get? key = (v.get? key).map camelizeKeys := by
  cases v with
  | obj ms =>
    have hkey : ∀ c ∈ key.toList, isMark c = false := by simpa using hkey
    rw [camelizeKeys, Json.get?, Json.get?, Members.ofList,
      get?_foldl_camelizeMembers hkey hne hv.1, Members.get?_nil, Option.or_none]
  | _ => rfl

theorem camelizeItems_eq_map (vs : List Json) : camelizeItems vs = vs.map camelizeKeys := by
  induction vs with
  | nil => rfl
  | cons v vs ih => rw [camelizeItems, ih, List.map_cons]

mutual

/-- Plain data is plain in either spelling. -/
theorem plain_camelizeKeys : ∀ v : Json, Plain v → Plain (camelizeKeys v)
  | .obj ms, hv => by
    rw [camelizeKeys]
    refine Json.withNumbers_obj_iff.2 ⟨Members.nodup_keys_ofList _, fun m hm => ?_⟩
    exact Json.membersWithNumbers_iff.1 (plain_camelizeMembers ms hv.2) m
      (Members.mem_of_mem_ofList hm)
  | .arr vs, hv => plain_camelizeItems vs hv
  | .null, hv | .bool _, hv | .int _, hv | .real _, hv | .str _, hv => hv

theorem plain_camelizeMembers : ∀ ms : List (String × Json), Json.PlainMembers ms →
    Json.PlainMembers (camelizeMembers ms)
  | [], _ => trivial
  | (k, v) :: ms, hms => by
    rw [camelizeMembers]
    refine ⟨?_, plain_camelizeMembers ms hms.2⟩
    split
    · exact hms.1
    · exact plain_camelizeKeys v hms.1

theorem plain_camelizeItems : ∀ vs : List Json, Json.PlainItems vs →
    Json.PlainItems (camelizeItems vs)
  | [], _ => trivial
  | v :: vs, hvs => ⟨plain_camelizeKeys v hvs.1, plain_camelizeItems vs hvs.2⟩

end

end Members

end Naming

namespace Config

open Json (Plain)
open Naming (camelizeKeys isMark)

variable {o v : Json} {s : String}

theorem camelizeKeys_eq_str_iff : camelizeKeys v = .str s ↔ v = .str s := by
  cases v <;> simp [camelizeKeys]

theorem statedName?_eq_some_iff : statedName? o = some s ↔ o.get? "name" = some (.str s) := by
  rw [statedName?]
  split
  · rename_i t ht
    rw [ht, Option.some.injEq, Option.some.injEq, Json.str.injEq]
  · rename_i hnot
    exact iff_of_false (by simp) fun h => hnot s h

theorem statedName?_camelizeKeys (ho : Plain o) :
    statedName? (camelizeKeys o) = statedName? o := by
  apply Option.ext
  intro s
  rw [statedName?_eq_some_iff, statedName?_eq_some_iff,
    Naming.get?_camelizeKeys (by decide) (by decide) ho]
  simp [camelizeKeys_eq_str_iff]

/-- Overrides state the same rules in either spelling. -/
theorem ruleNames_camelizeKeys (hv : Plain v) : ruleNames (camelizeKeys v) = ruleNames v := by
  rw [ruleNames, ruleNames, Naming.get?_camelizeKeys (by decide) (by decide) hv]
  cases hget : v.get? "rules" with
  | none => rfl
  | some w =>
    cases w with
    | arr items =>
      have hitems : ∀ o ∈ items, Plain o := by
        cases v with
        | obj ms => exact Json.withNumbers_arr_iff.1 (hv.of_get? hget)
        | _ => cases hget
      rw [Option.map_some, camelizeKeys, Naming.camelizeItems_eq_map]
      dsimp only
      rw [statedNames, statedNames, List.filterMap_map]
      exact List.filterMap_congr fun o ho => statedName?_camelizeKeys (hitems o ho)
    | _ => rfl

end Config

end ExportLint
