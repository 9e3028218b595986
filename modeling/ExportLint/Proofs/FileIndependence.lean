import ExportLint.Proofs.BatchAccounts

/-!
# Files of a batch are independent

A batch pools the edits of all of its files before it sorts them by files again. Repetitions and
conflicts concern edits of one path only, and editing a file changes what is at its own place and
nothing else. So if no two paths lead to the same file, every file comes out of a batch without
backups as if it had been fixed alone, whatever stands in the way of the others.
-/
namespace ExportLint

namespace Disk

variable {d d' : Disk}

/-- One file system is another one with other contents of its files. -/
structure SameTree (d d' : Disk) : Prop where
  here : d'.here = d.here
  entry : ∀ q, d'.entryAt? q = d.entryAt? q ∨
    ∃ b b', d.entryAt? q = some (.file b) ∧ d'.entryAt? q = some (.file b')

namespace SameTree

theorem refl (d : Disk) : SameTree d d := ⟨rfl, fun _ => .inl rfl⟩

theorem grows (h : SameTree d d') : Grows d d' where
  here := h.here
  directory q hq := by
    rcases h.entry q with he | ⟨b, _, hb, -⟩
    · rw [he, hq]
    · rw [hb] at hq
      cases hq
  file q b hq := by
    rcases h.entry q with he | ⟨_, b', -, hb'⟩
    · exact ⟨b, by rw [he, hq]⟩
    · exact ⟨b', hb'⟩
  link q t := by
    rcases h.entry q with he | ⟨b, b', hb, hb'⟩
    · rw [he]
    · simp [hb, hb']

/-- Every way through the directories is the same, also where it ends in a failure. -/
theorem follow (h : SameTree d d') {last : Bool} {fuel fuel' links : Nat} {at_ : Place}
    {ss : List String} (hf : d.Enough fuel links ss) (hf' : d'.Enough fuel' links ss) :
    d'.follow last fuel' links at_ ss = d.follow last fuel links at_ ss := by
  induction fuel generalizing fuel' links at_ ss with
  | zero =>
    cases ss with
    | nil => rw [follow_nil, follow_nil]
    | cons s rest => simp [Enough] at hf
  | succ fuel ih =>
    cases ss with
    | nil => rw [follow_nil, follow_nil]
    | cons s rest =>
      cases fuel' with
      | zero => simp [Enough] at hf'
      | succ fuel' =>
        simp only [Disk.follow]
        by_cases hs : s = ".."
        · rw [if_pos hs, if_pos hs]
          exact ih hf.tail hf'.tail
        · rw [if_neg hs, if_neg hs]
          rcases h.entry (at_ ++ [s]) with he | ⟨b, b', hb, hb'⟩
          · rw [he]
            cases hq : d.entryAt? (at_ ++ [s]) with
            | none => rfl
            | some e =>
              cases e with
              | file b => rfl
              | directory => exact ih hf.tail hf'.tail
              | link t =>
                rw [hq] at he
                cases links with
                | zero => rfl
                | succ n => simp only [ih (hf.link hq) (hf'.link he)]
          · simp only [hb, hb']

theorem locate (h : SameTree d d') (last : Bool) (p : String) :
    d'.locate last p = d.locate last p := by
  simp only [Disk.locate, h.here]
  exact h.follow (enough_fuelFor _ _) (enough_fuelFor _ _)

/-- What cannot be opened still cannot, for the same reason. What can be opened is opened as before,
if it is kept. -/
theorem openFile (h : SameTree d d') {p : String} (hk : ∀ f, d.openFile p = .ok f →
    d'.entryAt? (d.resolve p) = d.entryAt? (d.resolve p)) : d'.openFile p = d.openFile p := by
  cases hr : d.openFile p with
  | ok f =>
    refine h.grows.openFile hr ?_
    rw [hk f hr]
    exact (openFile_eq_ok_iff.1 hr).2.2.2
  | error e =>
    rw [← hr]
    simp only [Disk.openFile, Disk.find, h.locate] at hr ⊢
    by_cases hp : p.isEmpty = true
    · simp only [hp, ↓reduceIte]
    · simp only [hp, Bool.false_eq_true, ↓reduceIte] at hr ⊢
      cases hq : d.locate true p with
      | error o => rfl
      | ok q =>
        simp only [hq] at hr ⊢
        rcases h.entry q with he | ⟨b, b', hb, hb'⟩
        · rw [he]
        · simp only [hb, hb'] at hr ⊢
          by_cases hs : endsInSlash p = true
          · simp only [hs, ↓reduceIte]
          · simp [hs] at hr

theorem readBytes (h : SameTree d d') {p : String} (hk : ∀ f, d.openFile p = .ok f →
    d'.entryAt? (d.resolve p) = d.entryAt? (d.resolve p)) : d'.readBytes p = d.readBytes p := by
  rw [Disk.readBytes, Disk.readBytes, h.openFile hk]

theorem readable_iff (h : SameTree d d') {p : String} :
    (∃ b, d'.readBytes p = .ok b) ↔ ∃ b, d.readBytes p = .ok b := by
  constructor
  · rintro ⟨b, hb⟩
    cases hr : d.readBytes p with
    | ok b' => exact ⟨b', rfl⟩
    | error e =>
      have := h.readBytes fun f hf => by
        rw [readBytes_of_openFile hf] at hr
        cases hr
      rw [hb, hr] at this
      cases this
  · rintro ⟨b, hb⟩
    obtain ⟨f, hf, -⟩ := readBytes_eq_ok_iff_openFile.1 hb
    obtain ⟨f', hf'⟩ := h.grows.file _ f (openFile_eq_ok_iff.1 hf).2.2.2
    exact ⟨_, readBytes_of_openFile (h.grows.openFile hf hf')⟩

end SameTree

/-- Two paths lead to the same file. -/
def Meet (d : Disk) (p q : String) : Prop :=
  (∃ b, d.readBytes p = .ok b) ∧ (∃ b, d.readBytes q = .ok b) ∧ d.resolve p = d.resolve q

theorem SameTree.meet_iff (h : SameTree d d') {p q : String} : d'.Meet p q ↔ d.Meet p q := by
  simp only [Meet, h.readable_iff, h.grows.resolve]

/-- Paths are pairwise different, and no two of them lead to the same file. -/
structure Separate (d : Disk) (paths : List String) : Prop where
  nodup : paths.Nodup
  apart : ∀ p ∈ paths, ∀ q ∈ paths, p ≠ q → ¬d.Meet (Path.parse p).text (Path.parse q).text

end Disk

namespace Fix

open Disk

variable {d d' : Disk} {root file : String} {es : List Edit}

section OneFile

theorem sameTree_put {p : String} {f : File} (h : d.openFile p = .ok f) (new : File) :
    SameTree d (d.put (d.resolve p) (.file new)) where
  here := rfl
  entry q := by
    by_cases hq : q = d.resolve p
    · subst hq
      exact .inr ⟨f, new, (openFile_eq_ok_iff.1 h).2.2.2, entryAt?_put_same d _ _⟩
    · exact .inl (entryAt?_put_other d _ hq)

theorem editFile_of_error {f : Failure} {directory : Option Path}
    (h : d.readLines (Path.parse file).text = .error f) :
    editFile d root directory file es = (failed es f.message none, d) := by
  delta editFile
  dsimp only
  rw [h]

/-- Without a backup, editing a file changes what is at its place at most, and that only if the file
can be read. -/
theorem editFile_frame (d : Disk) (root file : String) (es : List Edit) :
    SameTree d (editFile d root none file es).2 ∧
      ∀ q, ((∃ b, d.readBytes (Path.parse file).text = .ok b) →
          q ≠ d.resolve (Path.parse file).text) →
        (editFile d root none file es).2.entryAt? q = d.entryAt? q := by
  cases hr : d.readLines (Path.parse file).text with
  | error e =>
    rw [editFile_of_error hr]
    exact ⟨.refl d, fun _ _ => rfl⟩
  | ok lines =>
    obtain ⟨f, hf⟩ := openFile_of_readLines hr
    rw [editFile_of_readLines hr, editLines_eq hf]
    split
    · split
      · exact ⟨sameTree_put hf _,
          fun q hq => entryAt?_put_other d _ (hq ⟨_, readBytes_of_openFile hf⟩)⟩
      · exact ⟨.refl d, fun _ _ => rfl⟩
    · exact ⟨.refl d, fun _ _ => rfl⟩

/-- Editing a file leaves what other paths lead to. -/
theorem openFile_editFile_other (root : String) (es : List Edit) {p : String}
    (h : ¬d.Meet (Path.parse file).text p) :
    (editFile d root none file es).2.openFile p = d.openFile p := by
  obtain ⟨htree, hkeep⟩ := editFile_frame d root file es
  exact htree.openFile fun f hf => hkeep _ fun hread heq =>
    h ⟨hread, ⟨_, readBytes_of_openFile hf⟩, heq.symm⟩

/-- What editing a file comes to depends on the file alone. -/
theorem editFile_congr (root : String) (es : List Edit)
    (h : d'.openFile (Path.parse file).text = d.openFile (Path.parse file).text) :
    (editFile d' root none file es).1 = (editFile d root none file es).1 ∧
      (editFile d' root none file es).2.readBytes (Path.parse file).text =
        (editFile d root none file es).2.readBytes (Path.parse file).text := by
  have hbytes : d'.readBytes (Path.parse file).text = d.readBytes (Path.parse file).text := by
    rw [Disk.readBytes, Disk.readBytes, h]
  have hlines : d'.readLines (Path.parse file).text = d.readLines (Path.parse file).text := by
    simp only [Disk.readLines, hbytes]
  cases hr : d.readLines (Path.parse file).text with
  | error e =>
    rw [editFile_of_error hr, editFile_of_error (hlines.trans hr)]
    exact ⟨rfl, hbytes⟩
  | ok lines =>
    obtain ⟨f, hf⟩ := openFile_of_readLines hr
    have hf' := h.trans hf
    rw [editFile_of_readLines hr, editFile_of_readLines (hlines.trans hr), editLines_eq hf,
      editLines_eq hf']
    split
    · split
      · refine ⟨rfl, ?_⟩
        dsimp only
        rw [readBytes_of_openFile (writes_put hf' _).openFile,
          readBytes_of_openFile (writes_put hf _).openFile]
      · exact ⟨rfl, hbytes⟩
    · exact ⟨rfl, hbytes⟩

end OneFile

section ManyFiles

variable {files : List (String × List Edit)}

/-- Editing files leaves what other paths lead to. -/
theorem readBytes_editFiles_other {p : String}
    (h : ∀ g ∈ files, ¬d.Meet (Path.parse g.1).text p) :
    (editFiles d root none files).2.readBytes p = d.readBytes p := by
  induction files generalizing d with
  | nil => rfl
  | cons g rest ih =>
    have htree := (editFile_frame d root g.1 g.2).1
    simp only [editFiles]
    rw [ih fun g' hg' => by rw [htree.meet_iff]; exact h g' (List.mem_cons_of_mem g hg')]
    rw [Disk.readBytes, Disk.readBytes, openFile_editFile_other root g.2 (h g List.mem_cons_self)]

theorem filter_own {os : List Outcome} (h : ∀ r ∈ os, r.edit.file = file) :
    (os.filter fun r => r.edit.file == file) = os :=
  List.filter_eq_self.2 fun r hr => by simp [h r hr]

theorem filter_others {os : List Outcome} (h : ∀ r ∈ os, r.edit.file ≠ file) :
    (os.filter fun r => r.edit.file == file) = [] :=
  List.filter_eq_nil_iff.2 fun r hr => by simpa using h r hr

theorem file_of_mem_editFile {directory : Option Path} (hown : ∀ e ∈ es, e.file = file)
    {r : Outcome} (hr : r ∈ (editFile d root directory file es).1) : r.edit.file = file := by
  refine hown _ ?_
  rw [← map_edit_editFile d root directory file es]
  exact List.mem_map_of_mem hr

/-- What is reported of several files is about one of them. -/
theorem exists_file_of_mem_editFiles {directory : Option Path}
    (hown : ∀ g ∈ files, ∀ e ∈ g.2, e.file = g.1) {r : Outcome}
    (hr : r ∈ (editFiles d root directory files).1) : ∃ g ∈ files, r.edit.file = g.1 := by
  have hmem := List.mem_map_of_mem (f := (·.edit)) hr
  rw [map_edit_editFiles] at hmem
  obtain ⟨g, hg, he⟩ := List.mem_flatMap.1 hmem
  exact ⟨g, hg, hown g hg _ he⟩

/-- Among files that are apart, each one is edited as if it were the only one. -/
theorem editFiles_of_mem (root : String) (hown : ∀ g ∈ files, ∀ e ∈ g.2, e.file = g.1)
    (hp : files.Pairwise fun g h =>
      g.1 ≠ h.1 ∧ ¬d.Meet (Path.parse g.1).text (Path.parse h.1).text)
    (hm : (file, es) ∈ files) :
    ((editFiles d root none files).1.filter fun r => r.edit.file == file) =
        (editFile d root none file es).1 ∧
      (editFiles d root none files).2.readBytes (Path.parse file).text =
        (editFile d root none file es).2.readBytes (Path.parse file).text := by
  induction files generalizing d with
  | nil => cases hm
  | cons g rest ih =>
    obtain ⟨hfirst, hrest⟩ := List.pairwise_cons.1 hp
    have htree := (editFile_frame d root g.1 g.2).1
    have hownFirst := hown g List.mem_cons_self
    have hownRest : ∀ g' ∈ rest, ∀ e ∈ g'.2, e.file = g'.1 :=
      fun g' hg' => hown g' (List.mem_cons_of_mem g hg')
    simp only [editFiles, List.filter_append]
    rcases List.mem_cons.1 hm with rfl | hm
    · have hothers : ∀ r ∈ (editFiles (editFile d root none file es).2 root none rest).1,
          r.edit.file ≠ file := by
        intro r hr heq
        obtain ⟨g', hg', hfile⟩ := exists_file_of_mem_editFiles hownRest hr
        exact (hfirst g' hg').1 (heq.symm.trans hfile)
      rw [filter_own fun r hr => file_of_mem_editFile hownFirst hr, filter_others hothers,
        List.append_nil]
      refine ⟨rfl, readBytes_editFiles_other fun g' hg' => ?_⟩
      rw [htree.meet_iff]
      exact fun hmeet => (hfirst g' hg').2 ⟨hmeet.2.1, hmeet.1, hmeet.2.2.symm⟩
    · obtain ⟨hne, hapart⟩ := hfirst _ hm
      obtain ⟨hresults, hbytes⟩ := ih (d := (editFile d root none g.1 g.2).2) hownRest
        (hrest.imp fun h => ⟨h.1, by rw [htree.meet_iff]; exact h.2⟩) hm
      obtain ⟨hsame, hsameBytes⟩ := editFile_congr root es
        (openFile_editFile_other root g.2 hapart)
      have hfirstOthers : ∀ r ∈ (editFile d root none g.1 g.2).1, r.edit.file ≠ file := by
        intro r hr heq
        exact hne ((file_of_mem_editFile hownFirst hr).symm.trans heq)
      rw [filter_others hfirstOthers, List.nil_append, hresults, hbytes, hsame, hsameBytes]
      exact ⟨rfl, rfl⟩

end ManyFiles

section Batch

variable {now : Moment} {c : Config} {o : Options} {edits skipped : List Edit}

theorem applyFiles_of_no_backup (hb : o.createBackup.getD c.fixing.createBackup = false)
    (files : List (String × List Edit)) :
    applyFiles d now c o files =
      ((editFiles d c.rootPath none files).1, none, (editFiles d c.rootPath none files).2) := by
  simp [applyFiles, hb]

/-- An edit conflicts with edits of its own file only. -/
theorem conflictsWith_filter {e : Edit} (he : e.file = file) (edits : List Edit) :
    conflictsWith (edits.filter fun x => x.file == file) e = conflictsWith edits e := by
  rw [conflictsWith, conflictsWith, List.any_filter]
  congr 1
  funext x
  by_cases hx : x.file = file
  · simp [hx]
  · simp [conflict, he, hx, Ne.symm hx]

/-- The edits of a file are told apart by their conflicts as all edits are. -/
theorem filter_conflictsWith (q : Bool → Bool) (edits : List Edit) (file : String) :
    ((edits.eraseDups.filter fun e => q (conflictsWith edits.eraseDups e)).filter
      fun e => e.file == file) =
    (edits.filter fun e => e.file == file).eraseDups.filter fun e =>
      q (conflictsWith (edits.filter fun e => e.file == file).eraseDups e) := by
  rw [eraseDups_filter, List.filter_filter, List.filter_filter]
  apply List.filter_congr
  intro e _
  by_cases he : e.file = file
  · rw [conflictsWith_filter he, Bool.and_comm]
  · rw [beq_false_of_ne he, Bool.false_and, Bool.and_false]

theorem conflicting_filter (edits : List Edit) (file : String) :
    ((conflicting edits).filter fun e => e.file == file) =
      conflicting (edits.filter fun e => e.file == file) :=
  filter_conflictsWith id edits file

theorem applicable_filter (edits : List Edit) (file : String) :
    ((applicable edits).filter fun e => e.file == file) =
      applicable (edits.filter fun e => e.file == file) :=
  filter_conflictsWith not edits file

/-- A batch reports on a file what another one reports. -/
structure Batch.Restricts (b : Batch) (file : String) (alone : Batch) : Prop where
  results : alone.results = b.results.filter fun r => r.edit.file == file
  conflicts : alone.conflicts = b.conflicts.filter fun r => r.edit.file == file
  skipped : alone.skipped = b.skipped.filter fun e => e.file == file

variable {paths : List String}

/-- Sorted by their files, edits of separate paths are apart. -/
theorem pairwise_byFile_of_separate (h : Separate d paths) (hm : ∀ e ∈ edits, e.file ∈ paths) :
    (byFile edits).Pairwise fun g k =>
      g.1 ≠ k.1 ∧ ¬d.Meet (Path.parse g.1).text (Path.parse k.1).text := by
  refine (pairwise_byFile edits).imp_of_mem fun {g k} hg hk hne => ⟨hne, ?_⟩
  obtain ⟨e, he, hge⟩ := List.mem_map.1 (mem_byFile hg).1
  obtain ⟨x, hx, hkx⟩ := List.mem_map.1 (mem_byFile hk).1
  exact h.apart _ (hge ▸ hm e he) _ (hkx ▸ hm x hx) hne

/-- Without backups, the edits of separate files do to each file what its own edits do alone. -/
theorem applyAll_restricts (h : Separate d paths) (hm : ∀ e ∈ edits, e.file ∈ paths)
    (hf : file ∈ paths) (hb : o.createBackup.getD c.fixing.createBackup = false) :
    (applyAll d now c o edits skipped).1.Restricts file
        (applyAll d now c o (edits.filter fun e => e.file == file)
          (skipped.filter fun e => e.file == file)).1 ∧
      (applyAll d now c o edits skipped).2.readBytes (Path.parse file).text =
        (applyAll d now c o (edits.filter fun e => e.file == file)
          (skipped.filter fun e => e.file == file)).2.readBytes (Path.parse file).text := by
  have happ : ∀ e ∈ applicable edits, e.file ∈ paths := fun e he => hm e (mem_applicable_iff.1 he).1
  have hown : ∀ g ∈ byFile (applicable edits), ∀ e ∈ g.2, e.file = g.1 :=
    fun g hg => (own_of_mem_byFile hg).2
  have hconflicts : ((conflicting edits).map conflictOutcome).filter
      (fun r => r.edit.file == file) =
        (conflicting (edits.filter fun e => e.file == file)).map conflictOutcome := by
    rw [List.filter_map, ← conflicting_filter]
    rfl
  simp only [applyAll_eq, applyFiles_of_no_backup hb, ← applicable_filter]
  by_cases hnone : ((applicable edits).filter fun e => e.file == file) = []
  · -- The file has no edits to make, and those of other files leave it alone.
    have hother : ∀ g ∈ byFile (applicable edits), g.1 ≠ file := by
      rintro g hg rfl
      exact (own_of_mem_byFile hg).1 ((mem_byFile hg).2.trans hnone)
    have hresults : ∀ r ∈ (editFiles d c.rootPath none (byFile (applicable edits))).1,
        r.edit.file ≠ file := by
      intro r hr heq
      obtain ⟨g, hg, hfile⟩ := exists_file_of_mem_editFiles hown hr
      exact hother g hg (hfile.symm.trans heq)
    rw [hnone]
    refine ⟨⟨(filter_others hresults).symm, hconflicts.symm, rfl⟩, ?_⟩
    refine readBytes_editFiles_other fun g hg => ?_
    obtain ⟨e, he, hge⟩ := List.mem_map.1 (mem_byFile hg).1
    exact h.apart _ (hge ▸ happ e he) _ hf (hother g hg)
  · -- The file is one of those that are edited.
    have hmem : (file, (applicable edits).filter fun e => e.file == file) ∈
        byFile (applicable edits) := by
      obtain ⟨e, he⟩ := List.exists_mem_of_ne_nil _ hnone
      obtain ⟨he, hfile⟩ := List.mem_filter.1 he
      have := mem_byFile_of_mem he
      rwa [beq_iff_eq.1 hfile] at this
    obtain ⟨hresults, hbytes⟩ := editFiles_of_mem c.rootPath hown
      (pairwise_byFile_of_separate h happ) hmem
    have halone := byFile_of_one_file hnone fun e he => beq_iff_eq.1 (List.mem_filter.1 he).2
    rw [halone]
    simp only [editFiles, List.append_nil]
    exact ⟨⟨hresults.symm, hconflicts.symm, rfl⟩, hbytes⟩

/-- Of the edits that are proposed, those of one file are made as if there were no others. -/
theorem makeAllowed_restricts (h : Separate d paths) (hm : ∀ e ∈ edits, e.file ∈ paths)
    (hf : file ∈ paths) (hb : o.createBackup.getD c.fixing.createBackup = false) :
    (makeAllowed d now c o edits).1.Restricts file
        (makeAllowed d now c o (edits.filter fun e => e.file == file)).1 ∧
      (makeAllowed d now c o edits).2.readBytes (Path.parse file).text =
        (makeAllowed d now c o (edits.filter fun e => e.file == file)).2.readBytes
          (Path.parse file).text := by
  have hshare (q : Edit → Bool) : (edits.filter fun e => e.file == file).filter q =
      (edits.filter q).filter fun e => e.file == file := by
    rw [List.filter_filter, List.filter_filter]
    exact List.filter_congr fun e _ => Bool.and_comm _ _
  simp only [makeAllowed, hshare]
  split
  · refine ⟨⟨?_, rfl, rfl⟩, rfl⟩
    simp only [Batch.ofResults, List.filter_map]
    rfl
  · exact applyAll_restricts h (fun e he => hm e (List.mem_filter.1 he).1) hf hb

/-- The edits for a file are those of its own issues, if the files are different. -/
theorem filter_flatten_edits {categories : Option (List Category)} {conventions : Conventions}
    {issues : List (String × List Issue)} {groups : List (List Edit)}
    (h : (issues.mapM fun f => Fix.edits d conventions categories f.1 f.2) = .ok groups)
    (hn : (issues.map (·.1)).Nodup) {f : String × List Issue} (hf : f ∈ issues)
    {group : List Edit} (hg : Fix.edits d conventions categories f.1 f.2 = .ok group) :
    (groups.flatten.filter fun e => e.file == f.1) = group := by
  have own {f : String × List Issue} {group : List Edit}
      (hg : Fix.edits d conventions categories f.1 f.2 = .ok group) :
      ∀ e ∈ group, e.file = f.1 := fun e he => (exists_editFor hg he).1
  induction issues generalizing groups with
  | nil => cases hf
  | cons first rest ih =>
    rw [List.mapM_cons] at h
    obtain ⟨first', hfirst, h⟩ := bind_eq_ok_iff.1 h
    obtain ⟨rest', hrest, h⟩ := bind_eq_ok_iff.1 h
    cases h
    obtain ⟨hne, hn⟩ := List.nodup_cons.1 hn
    rw [List.flatten_cons, List.filter_append]
    rcases List.mem_cons.1 hf with rfl | hf
    · have hkeep : (first'.filter fun e => e.file == f.1) = first' :=
        List.filter_eq_self.2 fun e he => by simp [own hfirst e he]
      have hdrop : (rest'.flatten.filter fun e => e.file == f.1) = [] := by
        rw [List.filter_eq_nil_iff]
        intro e he heq
        obtain ⟨group', hg', he⟩ := List.mem_flatten.1 he
        obtain ⟨f', hf', hgroup'⟩ := (mem_of_mapM_eq_ok hrest).1 hg'
        refine hne (List.mem_map.2 ⟨f', hf', ?_⟩)
        exact (own hgroup' e he).symm.trans (beq_iff_eq.1 heq)
      rw [hkeep, hdrop, List.append_nil]
      exact Except.ok.inj (hfirst.symm.trans hg)
    · have hdrop : (first'.filter fun e => e.file == f.1) = [] := by
        rw [List.filter_eq_nil_iff]
        intro e he heq
        refine hne (List.mem_map.2 ⟨f, hf, ?_⟩)
        exact (beq_iff_eq.1 heq).symm.trans (own hfirst e he)
      rw [hdrop, List.nil_append]
      exact ih hrest hn hf

/-- Issues of an analysis are fixed without failing. Without backups and on separate files, each
file then holds what it would hold if it had been fixed alone, and what is reported on it is what
would be reported then. -/
theorem separate_files_fixed_alone {issues : List (String × List Issue)}
    (h : ∀ f ∈ issues, ∀ i ∈ f.2, i.Analyzed) (hs : Separate d (issues.map (·.1)))
    (hb : o.createBackup.getD c.fixing.createBackup = false) (now : Moment) :
    ∃ b d', run d now c o issues = .ok (b, d') ∧ ∀ f ∈ issues,
      ∃ alone d₁, run d now c o [f] = .ok (alone, d₁) ∧ b.Restricts f.1 alone ∧
        d'.readBytes (Path.parse f.1).text = d₁.readBytes (Path.parse f.1).text := by
  obtain ⟨groups, hgroups⟩ := exists_edits d c.conventions o.categories h
  have hpaths : ∀ e ∈ groups.flatten, e.file ∈ issues.map (·.1) := by
    intro e he
    obtain ⟨group, hg, he⟩ := List.mem_flatten.1 he
    obtain ⟨f, hf, hgroup⟩ := (mem_of_mapM_eq_ok hgroups).1 hg
    exact List.mem_map.2 ⟨f, hf, (exists_editFor hgroup he).1.symm⟩
  refine ⟨_, _, run_eq now hgroups, fun f hf => ?_⟩
  obtain ⟨group, hgroup⟩ := exists_of_mapM_eq_ok hgroups hf
  have hone : ([f].mapM fun f => Fix.edits d c.conventions o.categories f.1 f.2) = .ok [group] := by
    rw [List.mapM_cons, hgroup]
    rfl
  have hrun := run_eq now hone
  rw [List.flatten_singleton, ← filter_flatten_edits hgroups hs.nodup hf hgroup] at hrun
  exact ⟨_, _, hrun, makeAllowed_restricts hs hpaths (List.mem_map_of_mem hf) hb⟩

/-- A file to fix, a directory, and a file that holds no text. -/
def mixedDisk : Disk where
  here := ["work"]
  entries := [(["work", "a.ts"], .file (.ordinary (bytesOf ["export {a};", "export {a};"]))),
    (["work", "b.ts"], .directory), (["work", "c.ts"], .file (.ordinary [0xff]))]

/-- The same issues for these three and for a file that is missing. -/
def mixedIssues : List (String × List Issue) :=
  spacedIssues.flatMap fun g => ["a.ts", "b.ts", "c.ts", "gone.ts"].map (·, g.2)

theorem mixedIssues_fixed_alone :
    mixedIssues.map (fun f => (f.1, f.2.length)) =
        [("a.ts", 4), ("b.ts", 4), ("c.ts", 4), ("gone.ts", 4)] ∧
      ∃ b d', run mixedDisk ⟨2024, 1, 2, 3, 4, 5, 0, some 0⟩ spacedConfig
          { createBackup := some false } mixedIssues = .ok (b, d') ∧
        ∀ f ∈ mixedIssues, ∃ alone d₁, run mixedDisk ⟨2024, 1, 2, 3, 4, 5, 0, some 0⟩ spacedConfig
            { createBackup := some false } [f] = .ok (alone, d₁) ∧ b.Restricts f.1 alone ∧
          d'.readBytes (Path.parse f.1).text = d₁.readBytes (Path.parse f.1).text := by
  have hpaths : mixedIssues.map (·.1) = ["a.ts", "b.ts", "c.ts", "gone.ts"] := by
    decide +kernel
  have hplaces : ∀ p ∈ ["a.ts", "b.ts", "c.ts", "gone.ts"],
      mixedDisk.resolve (Path.parse p).text = ["work", p] := by
    decide +kernel
  have hseparate : Separate mixedDisk (mixedIssues.map (·.1)) := by
    rw [hpaths]
    refine ⟨by decide, fun p hp q hq hne hmeet => hne ?_⟩
    have hplace := hmeet.2.2
    rw [hplaces p hp, hplaces q hq] at hplace
    simpa using hplace
  have hanalyzed : ∀ f ∈ mixedIssues, ∀ i ∈ f.2, i.Analyzed := by
    intro f hf i hi
    obtain ⟨g, hg, hf⟩ := List.mem_flatMap.1 hf
    obtain ⟨p, -, rfl⟩ := List.mem_map.1 hf
    exact analyzed_of_mem_spacedIssues g hg i hi
  exact ⟨by decide +kernel, separate_files_fixed_alone hanalyzed hseparate rfl _⟩

end Batch

end Fix

end ExportLint
