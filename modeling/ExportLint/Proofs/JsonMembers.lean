import ExportLint.Proofs.SettingsMerging
import Mathlib.Data.List.Nodup

/-!
# The keys of an object

Setting a key adds it at the end if it is new, so the keys of an object that is built from members
are all different. With such keys a member is found exactly if it is there.
-/
namespace ExportLint.Json.Members

/-- The keys of an object, in the order of its members. -/
def keys (ms : Members) : List String := ms.map (·.1)

variable {ms : Members} {key other : String} {v w : Json}

@[simp] theorem keys_nil : keys [] = [] := rfl

@[simp] theorem keys_cons (m : String × Json) (ms : Members) :
    keys (m :: ms) = m.1 :: keys ms := rfl

@[simp] theorem keys_append (ms ns : Members) : keys (ms ++ ns) = keys ms ++ keys ns :=
  List.map_append

theorem mem_keys_of_mem (h : (key, v) ∈ ms) : key ∈ keys ms := List.mem_map_of_mem h

theorem exists_get?_of_mem_keys (h : key ∈ keys ms) : ∃ v, ms.get? key = some v := by
  obtain ⟨m, hm, rfl⟩ := List.mem_map.1 h
  exact Option.ne_none_iff_exists'.1 (get?_ne_none_of_mem hm)

theorem get?_eq_none_iff : ms.get? key = none ↔ key ∉ keys ms := by
  constructor
  · intro h hm
    obtain ⟨v, hv⟩ := exists_get?_of_mem_keys hm
    rw [hv] at h
    cases h
  · intro h
    cases hget : ms.get? key with
    | none => rfl
    | some v => exact absurd (mem_keys_of_mem (mem_of_get? hget)) h

/-- In an object without a key twice, what is there is what is found. -/
theorem get?_eq_some_iff (h : (keys ms).Nodup) : ms.get? key = some v ↔ (key, v) ∈ ms := by
  refine ⟨mem_of_get?, fun hm => ?_⟩
  induction ms with
  | nil => cases hm
  | cons m ms ih =>
    obtain ⟨hkey, hms⟩ := List.nodup_cons.1 h
    rcases List.mem_cons.1 hm with rfl | hm
    · rw [get?_cons, if_pos rfl]
    · have hne : key ≠ m.1 := by
        rintro rfl
        exact hkey (mem_keys_of_mem hm)
      rw [get?_cons, if_neg hne]
      exact ih hms hm

/-- Two objects with the same keys and the same values are the same. -/
theorem ext_of_keys {ns : Members} (hn : (keys ms).Nodup) (hk : keys ms = keys ns)
    (h : ∀ k ∈ keys ms, ms.get? k = ns.get? k) : ms = ns := by
  induction ms generalizing ns with
  | nil => exact (List.map_eq_nil_iff.1 hk.symm).symm
  | cons m ms ih =>
    cases ns with
    | nil => cases hk
    | cons n ns =>
      obtain ⟨hm, hms⟩ := List.nodup_cons.1 hn
      rw [keys_cons, keys_cons, List.cons.injEq] at hk
      have hvalue : some m.2 = some n.2 := by
        have hfirst := h m.1 List.mem_cons_self
        rwa [get?_cons, if_pos rfl, get?_cons, if_pos hk.1] at hfirst
      have hrest : ms = ns := by
        refine ih hms hk.2 fun k hmem => ?_
        have hne : k ≠ m.1 := by
          rintro rfl
          exact hm hmem
        have hnext := h k (List.mem_cons_of_mem _ hmem)
        rwa [get?_cons, if_neg hne, get?_cons, if_neg (hk.1 ▸ hne)] at hnext
      rw [hrest, Prod.ext hk.1 (Option.some.inj hvalue)]

theorem set_of_not_mem (v : Json) (h : key ∉ keys ms) : ms.set key v = ms ++ [(key, v)] := by
  induction ms with
  | nil => rfl
  | cons m ms ih =>
    obtain ⟨hne, hms⟩ := not_or.1 (List.mem_cons.not.1 h)
    rw [set, if_neg (Ne.symm hne), ih hms, List.cons_append]

theorem keys_set_of_mem (v : Json) (h : key ∈ keys ms) : keys (ms.set key v) = keys ms := by
  induction ms with
  | nil => cases h
  | cons m ms ih =>
    rw [set]
    split
    · rfl
    · rename_i hne
      rw [keys_cons, keys_cons, ih ((List.mem_cons.1 h).resolve_left (Ne.symm hne))]

/-- A key that is set is a key, and no other key comes or goes. -/
theorem mem_keys_set : other ∈ keys (ms.set key v) ↔ other = key ∨ other ∈ keys ms := by
  by_cases h : key ∈ keys ms
  · rw [keys_set_of_mem v h]
    refine ⟨.inr, ?_⟩
    rintro (rfl | hm)
    · exact h
    · exact hm
  · simp [set_of_not_mem v h, or_comm]

theorem nodup_keys_set (v : Json) (h : (keys ms).Nodup) : (keys (ms.set key v)).Nodup := by
  by_cases hm : key ∈ keys ms
  · rwa [keys_set_of_mem v hm]
  · rw [set_of_not_mem v hm, keys_append]
    refine List.nodup_append.2 ⟨h, List.nodup_singleton _, ?_⟩
    rintro k hk _ hb rfl
    rw [List.mem_singleton.1 hb] at hk
    exact hm hk

variable {acc : Members}

theorem nodup_keys_foldl_set (l : List (String × Json)) (h : (keys acc).Nodup) :
    (keys (l.foldl (fun acc m => acc.set m.1 m.2) acc)).Nodup := by
  induction l generalizing acc with
  | nil => exact h
  | cons m l ih => exact ih (nodup_keys_set m.2 h)

theorem mem_of_mem_foldl_set {l : List (String × Json)} {m : String × Json}
    (h : m ∈ l.foldl (fun acc m => acc.set m.1 m.2) acc) : m ∈ acc ∨ m ∈ l := by
  induction l generalizing acc with
  | nil => exact .inl h
  | cons n l ih =>
    rcases ih h with hm | hm
    · rcases mem_of_mem_set hm with hm | rfl
      · exact .inl hm
      · exact .inr List.mem_cons_self
    · exact .inr (List.mem_cons_of_mem _ hm)

theorem foldl_set_of_nodup {l : List (String × Json)} (h : (keys (acc ++ l)).Nodup) :
    l.foldl (fun acc m => acc.set m.1 m.2) acc = acc ++ l := by
  induction l generalizing acc with
  | nil => exact (List.append_nil acc).symm
  | cons m l ih =>
    have hkey : m.1 ∉ keys acc := by
      rw [keys_append, keys_cons] at h
      exact fun hm => (List.nodup_append.1 h).2.2 _ hm _ List.mem_cons_self rfl
    rw [List.append_cons] at h ⊢
    rw [List.foldl_cons, set_of_not_mem m.2 hkey]
    exact ih h

/-- No key stands twice in an object that is built from members. -/
theorem nodup_keys_ofList (l : List (String × Json)) : (keys (ofList l)).Nodup :=
  nodup_keys_foldl_set l List.nodup_nil

theorem mem_of_mem_ofList {l : List (String × Json)} {m : String × Json} (h : m ∈ ofList l) :
    m ∈ l :=
  (mem_of_mem_foldl_set h).resolve_left (List.not_mem_nil)

/-- Members with keys of their own make an object as they stand. -/
theorem ofList_of_nodup {l : List (String × Json)} (h : (keys l).Nodup) : ofList l = l :=
  foldl_set_of_nodup h

end ExportLint.Json.Members
