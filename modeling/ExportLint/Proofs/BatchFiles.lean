import ExportLint.Fix.Run
import ExportLint.Proofs.Repetitions

/-!
# The files of a batch

A batch goes through its files one by one. Every file comes once, with all of its edits.
-/
namespace ExportLint.Fix

variable {edits : List Edit}

theorem mem_byFile {g : String × List Edit} (h : g ∈ byFile edits) :
    g.1 ∈ edits.map (·.file) ∧ g.2 = edits.filter fun e => e.file == g.1 := by
  obtain ⟨f, hf, rfl⟩ := List.mem_map.1 h
  exact ⟨List.mem_eraseDups.1 hf, rfl⟩

theorem mem_byFile_of_mem {e : Edit} (h : e ∈ edits) :
    (e.file, edits.filter fun x => x.file == e.file) ∈ byFile edits :=
  List.mem_map.2 ⟨e.file, List.mem_eraseDups.2 (List.mem_map_of_mem h), rfl⟩

/-- Every file has edits, all of them its own. -/
theorem own_of_mem_byFile {g : String × List Edit} (h : g ∈ byFile edits) :
    g.2 ≠ [] ∧ ∀ e ∈ g.2, e.file = g.1 := by
  obtain ⟨hf, hg⟩ := mem_byFile h
  obtain ⟨e, he, hef⟩ := List.mem_map.1 hf
  rw [hg]
  constructor
  · intro hn
    have := List.filter_eq_nil_iff.1 hn e he
    simp [hef] at this
  · intro x hx
    simpa using (List.mem_filter.1 hx).2

theorem pairwise_byFile (edits : List Edit) :
    (byFile edits).Pairwise fun g h => g.1 ≠ h.1 := by
  rw [byFile, List.pairwise_map]
  exact nodup_eraseDups _

/-- A batch for one file has one group of edits. -/
theorem byFile_of_one_file {file : String} (hne : edits ≠ []) (h : ∀ e ∈ edits, e.file = file) :
    byFile edits = [(file, edits)] := by
  have hd : (edits.map (·.file)).eraseDups = [file] := by
    cases edits with
    | nil => exact absurd rfl hne
    | cons e es =>
      rw [List.map_cons, List.eraseDups_cons, h e List.mem_cons_self]
      have hn : ((es.map (·.file)).filter fun f => !f == file) = [] := by
        rw [List.filter_eq_nil_iff]
        intro f hf
        obtain ⟨x, hx, rfl⟩ := List.mem_map.1 hf
        simp [h x (List.mem_cons_of_mem _ hx)]
      rw [hn, List.eraseDups_nil]
  have hall : (edits.filter fun e => e.file == file) = edits :=
    List.filter_eq_self.2 fun e he => by simp [h e he]
  simp only [byFile, hd, List.map_cons, List.map_nil, hall]

section Fibers

variable {α κ : Type} [DecidableEq κ] {key : α → κ} {keys : List κ} {l : List α}

/-- The members of a list, by their keys, are all of its members. -/
theorem perm_flatMap_filter (hk : keys.Nodup) (hc : ∀ a ∈ l, key a ∈ keys) :
    (keys.flatMap fun k => l.filter fun a => key a == k).Perm l := by
  induction keys generalizing l with
  | nil =>
    have hl : l = [] := List.eq_nil_iff_forall_not_mem.2 fun a ha => by simpa using hc a ha
    rw [hl]
    rfl
  | cons k ks ih =>
    obtain ⟨hk, hks⟩ := List.nodup_cons.1 hk
    -- What has another key is distributed over the keys that are left.
    have hrest : ∀ a ∈ l.filter (fun a => !key a == k), key a ∈ ks := by
      intro a ha
      obtain ⟨ha, hne⟩ := List.mem_filter.1 ha
      exact (List.mem_cons.1 (hc a ha)).resolve_left (by simpa using hne)
    have hfibers : (ks.flatMap fun k' => l.filter fun a => key a == k') =
        ks.flatMap fun k' => (l.filter fun a => !key a == k).filter fun a => key a == k' := by
      rw [List.flatMap_def, List.flatMap_def]
      congr 1
      apply List.map_congr_left
      intro k' hk'
      rw [List.filter_filter]
      apply List.filter_congr
      intro a _
      by_cases ha : key a = k'
      · have hne : k' ≠ k := fun h => hk (h ▸ hk')
        simp [ha, hne]
      · simp [ha]
    rw [List.flatMap_cons, hfibers]
    exact ((ih hks hrest).append_left _).trans (List.filter_append_perm _ l)

/-- The members with one key keep their order. -/
theorem filter_flatMap_filter (hk : keys.Nodup) {k : κ} (h : k ∈ keys) :
    ((keys.flatMap fun k' => l.filter fun a => key a == k').filter fun a => key a == k) =
      l.filter fun a => key a == k := by
  have hother {k' : κ} (hne : k' ≠ k) :
      ((l.filter fun a => key a == k').filter fun a => key a == k) = [] := by
    rw [List.filter_filter, List.filter_eq_nil_iff]
    intro a _
    by_cases ha : key a = k
    · simp [ha, Ne.symm hne]
    · simp [ha]
  induction keys with
  | nil => cases h
  | cons k' ks ih =>
    obtain ⟨hk', hks⟩ := List.nodup_cons.1 hk
    rw [List.flatMap_cons, List.filter_append]
    rcases List.mem_cons.1 h with rfl | h
    · have hnone : ((ks.flatMap fun k' => l.filter fun a => key a == k').filter
          fun a => key a == k) = [] := by
        rw [List.filter_flatMap, List.flatMap_eq_nil_iff]
        intro k' hm
        exact hother fun he => hk' (he ▸ hm)
      rw [hnone, List.append_nil, List.filter_filter]
      exact List.filter_congr fun a _ => Bool.and_self _
    · have hne : k' ≠ k := fun he => hk' (he ▸ h)
      rw [hother hne, List.nil_append, ih hks h]

end Fibers

end ExportLint.Fix
