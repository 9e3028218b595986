import ExportLint.Proofs.BatchAccounts
import ExportLint.Proofs.RepeatedBatches

/-!
# The edits that are made

Some edits of a run are made, and the others fail. An edit is reported as a success exactly if it is
made, and a file holds what its edits made of it: this is so of a batch for one file, with a backup
or without, also when nothing comes of it.
-/
namespace ExportLint.Fix

variable {lines next : List String} {e : Edit} {xs ys : List (Edit × Nat)}

/-- What an edit makes of some lines, if it is made. -/
inductive Makes (lines : List String) (e : Edit) (next : List String) : Prop where
  | insert {n : Int} (kind : e.kind = .add) (line : e.line = some n)
      (inserts : next = insertLine lines (insertionPoint lines n) e.text)
  | change {before behind : List String} {x : String} (kind : e.kind ≠ .add)
      (line : e.line = some (before.length + 1 : Int)) (at_ : lines = before ++ x :: behind)
      (expected : ∀ t, e.expected = some t → t = x)
      (changes : next = before ++ (if e.kind = .remove then [] else [e.text]) ++ behind)

theorem makes_of_applyEdit (h : applyEdit lines e = .ok next) : Makes lines e next := by
  cases hf : faultOn lines e with
  | some f =>
    rw [applyEdit_of_fault hf] at h
    cases h
  | none =>
    obtain ⟨n, hl, hs⟩ := faultOn_eq_none_iff.1 hf
    by_cases hk : e.kind = .add
    · rw [applyEdit_add hk hl] at h
      exact .insert hk hl (Except.ok.inj h).symm
    · obtain ⟨hn, x, hx, hexp⟩ := hs.resolve_left hk
      obtain ⟨before, behind, hsplit, hlen⟩ := exists_split_at hn hx
      have hfresh : ¬(e.expected.any (· != x)) = true := by
        rcases hexp with hexp | hexp <;> simp [hexp]
      rw [hsplit, applyEdit_replace _ (replacesLine_iff.2 hk) hl hlen, if_neg hfresh, replaced,
        if_neg hfresh] at h
      refine .change hk (hlen ▸ hl) hsplit (fun t ht => ?_) (Except.ok.inj h).symm
      rcases hexp with hexp | hexp <;> rw [ht] at hexp <;> cases hexp
      rfl

/-- The edits of a run that are made. -/
def madeIn : List (Edit × Nat) → List String → List (Edit × Nat)
  | [], _ => []
  | x :: xs, lines =>
    match applyEdit lines x.1 with
    | .ok next => x :: madeIn xs next
    | .error _ => madeIn xs lines

theorem madeIn_append (xs ys : List (Edit × Nat)) (lines : List String) :
    madeIn (xs ++ ys) lines = madeIn xs lines ++ madeIn ys (applyInTurn xs lines).2 := by
  induction xs generalizing lines with
  | nil => rfl
  | cons x xs ih =>
    cases ha : applyEdit lines x.1 <;>
      simp only [List.cons_append, madeIn, applyInTurn, ha, ih]

theorem mem_of_mem_madeIn {x : Edit × Nat} (h : x ∈ madeIn xs lines) : x ∈ xs := by
  induction xs generalizing lines with
  | nil => exact h
  | cons y ys ih =>
    simp only [madeIn] at h
    split at h
    · rcases List.mem_cons.1 h with rfl | h
      · exact List.mem_cons_self
      · exact List.mem_cons_of_mem y (ih h)
    · exact List.mem_cons_of_mem y (ih h)

/-- Insertions that have a line are made. -/
theorem mem_madeIn_of_add {x : Edit × Nat} (h : x ∈ xs) (hk : x.1.kind = .add)
    (hl : x.1.line.isSome = true) : x ∈ madeIn xs lines := by
  obtain ⟨n, hl⟩ := Option.isSome_iff_exists.1 hl
  induction xs generalizing lines with
  | nil => cases h
  | cons y ys ih =>
    simp only [madeIn]
    rcases List.mem_cons.1 h with rfl | h
    · rw [applyEdit_add hk hl]
      exact List.mem_cons_self
    · split
      · exact List.mem_cons_of_mem y (ih h)
      · exact ih h

theorem mem_positions_of_fault {i : Nat} (h : i ∈ (applyInTurn xs lines).1.map Prod.fst) :
    i ∈ xs.map Prod.snd := by
  induction xs generalizing lines with
  | nil => exact h
  | cons x xs ih =>
    simp only [applyInTurn] at h
    split at h
    · exact List.mem_cons_of_mem _ (ih h)
    · rcases List.mem_cons.1 h with rfl | h
      · exact List.mem_cons_self
      · exact List.mem_cons_of_mem _ (ih h)

theorem lookup_of_not_mem {i : Nat} (h : i ∉ xs.map Prod.snd) :
    (applyInTurn xs lines).1.lookup i = none := by
  rw [List.lookup_eq_none_iff]
  intro f hf
  rw [bne_iff_ne]
  rintro rfl
  exact h (mem_positions_of_fault (List.mem_map_of_mem hf))

/-- An edit has no fault exactly if it is made. -/
theorem lookup_eq_none_iff_mem_madeIn (hn : (xs.map Prod.snd).Nodup) {x : Edit × Nat}
    (hx : x ∈ xs) : (applyInTurn xs lines).1.lookup x.2 = none ↔ x ∈ madeIn xs lines := by
  induction xs generalizing lines with
  | nil => cases hx
  | cons y ys ih =>
    obtain ⟨hy, hys⟩ := List.nodup_cons.1 hn
    rcases List.mem_cons.1 hx with rfl | hx
    · cases ha : applyEdit lines x.1 with
      | ok next => simp [applyInTurn, madeIn, ha, lookup_of_not_mem hy]
      | error f =>
        simp only [applyInTurn, madeIn, ha, List.lookup_cons, beq_self_eq_true, reduceCtorEq,
          false_iff]
        exact fun hm => hy (List.mem_map_of_mem (mem_of_mem_madeIn hm))
    · have hne : x.2 ≠ y.2 := fun he => hy (he ▸ List.mem_map_of_mem hx)
      cases ha : applyEdit lines y.1 with
      | ok next =>
        simp only [applyInTurn, madeIn, ha]
        rw [ih hys hx, List.mem_cons]
        exact (or_iff_right fun he => hne (congrArg Prod.snd he)).symm
      | error f =>
        simp only [applyInTurn, madeIn, ha]
        rw [List.lookup_cons, beq_eq_false_iff_ne.2 hne]
        exact ih hys hx

theorem nodup_positions (edits : List Edit) : ((runOrder edits).map Prod.snd).Nodup := by
  have hperm : ((runOrder edits).map Prod.snd).Perm (edits.zipIdx.map Prod.snd) :=
    (List.mergeSort_perm _ _).map _
  rw [hperm.nodup_iff, List.zipIdx_map_snd]
  exact List.nodup_range'

/-- The edits without faults are those that are made. -/
theorem exists_applyEdits_iff {edits : List Edit} (P : Edit → Prop) :
    (∃ r ∈ (applyEdits lines edits).1, r.2 = none ∧ P r.1) ↔
      ∃ x ∈ madeIn (runOrder edits) lines, P x.1 := by
  have hmem {x : Edit × Nat} : x ∈ runOrder edits ↔ x ∈ edits.zipIdx :=
    (List.mergeSort_perm _ _).mem_iff
  simp only [applyEdits, List.mem_map]
  constructor
  · rintro ⟨_, ⟨x, hx, rfl⟩, hnone, hP⟩
    exact ⟨x, (lookup_eq_none_iff_mem_madeIn (nodup_positions edits) (hmem.2 hx)).1 hnone, hP⟩
  · rintro ⟨x, hx, hP⟩
    have hrun := mem_of_mem_madeIn hx
    exact ⟨_, ⟨x, hmem.1 hrun, rfl⟩,
      (lookup_eq_none_iff_mem_madeIn (nodup_positions edits) hrun).2 hx, hP⟩

/-- Outcomes tell of the edits that are made, and a file holds what they made of it. -/
structure Tells (lines : List String) (edits : List Edit) (os : List Outcome)
    (final : List String) : Prop where
  successes : ∀ P : Edit → Prop, (∃ r ∈ os, r.success = true ∧ P r.edit) ↔
    ∃ x ∈ madeIn (runOrder edits) lines, P x.1
  lines : final = (applyInTurn (runOrder edits) lines).2

/-- What a file comes to for which nothing is done. -/
structure Idles (d : Disk) (p : String) (bytes : List UInt8) (os : List Outcome) : Prop where
  fails : ∀ r ∈ os, r.success = false
  keeps : d.readBytes p = .ok bytes

theorem idles_failed {d : Disk} {p : String} {bytes : List UInt8}
    (h : d.readBytes p = .ok bytes) (edits : List Edit) (message : String)
    (backup : Option String) : Idles d p bytes (failed edits message backup) := by
  refine ⟨fun r hr => ?_, h⟩
  obtain ⟨e, -, rfl⟩ := List.mem_map.1 hr
  rfl

/-- The outcomes for a file, and what it holds: either nothing is done, or the file holds what the
edits that are reported as successes made of it. -/
def Settles (d : Disk) (p : String) (bytes : List UInt8) (lines : List String)
    (edits : List Edit) (os : List Outcome) : Prop :=
  Idles d p bytes os ∨ ∃ final, Tells lines edits os final ∧ d.readBytes p = .ok (bytesOf final)

/-- The edits of a file that is not empty settle it. -/
theorem settles_editLines {d : Disk} {p : String} {bytes : List UInt8}
    (h : d.readBytes p = .ok bytes) (hne : bytes ≠ []) (lines : List String)
    (backup : Option String) (edits : List Edit) :
    Settles (editLines d p lines backup edits).2 p bytes lines edits
      (editLines d p lines backup edits).1 := by
  obtain ⟨f, hf, rfl⟩ := Disk.readBytes_eq_ok_iff_openFile.1 h
  rw [editLines_eq hf]
  by_cases hany : (applyEdits lines edits).1.any (·.2.isNone) = true
  · rw [if_pos hany]
    cases f with
    | ordinary old =>
      right
      refine ⟨(applyEdits lines edits).2, ⟨fun P => ?_, rfl⟩,
        Disk.readBytes_of_openFile (Disk.writes_put hf _).openFile⟩
      rw [← exists_applyEdits_iff]
      constructor
      · rintro ⟨_, hr, hs, hP⟩
        obtain ⟨x, hx, rfl⟩ := List.mem_map.1 hr
        exact ⟨x, hx, Option.isNone_iff_eq_none.1 hs, hP⟩
      · rintro ⟨x, hx, hnone, hP⟩
        exact ⟨_, List.mem_map_of_mem hx, Option.isNone_iff_eq_none.2 hnone, hP⟩
    | readOnly old => exact .inl (idles_failed h _ _ _)
    | null => exact absurd rfl hne
  · rw [if_neg hany]
    left
    refine ⟨fun r hr => ?_, h⟩
    obtain ⟨x, hx, rfl⟩ := List.mem_map.1 hr
    rw [List.any_eq_true, not_exists] at hany
    exact Bool.eq_false_iff.2 fun hs => hany x ⟨hx, hs⟩

section OneFile

variable {d : Disk} {now : Moment} {c : Config} {o : Options} {file : String}
  {bytes : List UInt8} {edits skipped : List Edit}

theorem settles_editFile (root : String) (directory : Option Path)
    (hb : d.readBytes (Path.parse file).text = .ok bytes) (hne : bytes ≠ [])
    (hr : d.readLines (Path.parse file).text = .ok lines) :
    Settles (editFile d root directory file edits).2 (Path.parse file).text bytes lines edits
      (editFile d root directory file edits).1 := by
  delta editFile
  dsimp only
  rw [hr]
  cases directory with
  | none => exact settles_editLines hb hne _ _ _
  | some directory =>
    dsimp only
    cases hbackup : backUp d root directory (Path.parse file) with
    | mk t made =>
      cases t with
      | error e => exact .inl (idles_failed ((backUp_error hbackup).readBytes hb) _ _ _)
      | ok t => exact settles_editLines ((backUp_ok hb hbackup).2.readBytes_source hb) hne _ _ _

/-- A batch of edits of one file that is not empty settles them. -/
theorem settles_applyAll (now : Moment) (c : Config) (o : Options) (skipped : List Edit)
    (hb : d.readBytes (Path.parse file).text = .ok bytes) (hne : bytes ≠ [])
    (hr : d.readLines (Path.parse file).text = .ok lines) (hfile : ∀ e ∈ edits, e.file = file) :
    Settles (applyAll d now c o edits skipped).2 (Path.parse file).text bytes lines
      (applicable edits) (applyAll d now c o edits skipped).1.results := by
  rw [applyAll_eq]
  dsimp only [Batch.ofResults]
  have happlicable : ∀ e ∈ applicable edits, e.file = file :=
    fun e he => hfile e (mem_applicable_iff.1 he).1
  generalize applicable edits = es at happlicable
  by_cases hnil : es = []
  · subst hnil
    have hnone : byFile ([] : List Edit) = [] := rfl
    rw [hnone]
    simp only [applyFiles, List.isEmpty_nil, Bool.not_true, Bool.and_false, Bool.false_eq_true,
      if_false, editFiles]
    exact .inl ⟨fun r hr => (List.not_mem_nil hr).elim, hb⟩
  · have hone (d' : Disk) (directory : Option Path) :
        editFiles d' c.rootPath directory [(file, es)] =
          editFile d' c.rootPath directory file es := by
      simp only [editFiles, List.append_nil]
    rw [byFile_of_one_file hnil happlicable]
    simp only [applyFiles]
    split
    · split
      · rename_i e _
        simp only [List.flatMap_cons, List.flatMap_nil, List.append_nil]
        exact .inl (idles_failed hb _ _ _)
      · rename_i made hmade
        have hread := (Disk.addsDirectories_of_makeDirectories hmade).readBytes hb
        rw [hone]
        exact settles_editFile _ _ hread hne (readLines_of_readBytes_eq hr (hread.trans hb.symm))
    · rw [hone]
      exact settles_editFile _ _ hb hne hr

end OneFile

end ExportLint.Fix
