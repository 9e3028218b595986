import ExportLint.Proofs.SimultaneousEdits

/-!
# Copies of files

A file is copied before it is edited, and no file is edited without its copy. A copy is at the place
of its path, unless a directory is there: then it is in the directory. Apart from the copy and the
file, all files stay as they are.
-/
namespace ExportLint

namespace Disk

variable {d d' d'' : Disk}

/-- Where a copy is: at the place of its path, or in the directory that is there. -/
def copyPlace (d : Disk) (source target : Path) : Place :=
  if d.entryAt? (d.resolve target.text) = some .directory then
    d.resolve (target ++ ⟨"", [source.name]⟩).text
  else d.resolve target.text

/-- A file has been copied. Apart from the copy, files are as they were, except at some places. -/
structure Copied (d d' : Disk) (source target : Path) (old : List UInt8)
    (changed : List Place) : Prop where
  grows : Grows d d'
  holds : d'.Holds (d'.copyPlace source target) old
  apart : d'.copyPlace source target ≠ d.resolve source.text
  keeps : ∀ q, q ≠ d'.copyPlace source target → q ∉ changed → Keeps d d' q
  there : d'.entryAt? (d'.resolve target.text) = some .directory ∨
    d'.readBytes target.text = .ok old

namespace Copied

variable {source target : Path} {old : List UInt8} {changed : List Place}

/-- A copy stays where it is. -/
theorem copyPlace_eq (h : Copied d d' source target old changed) (hg : Grows d' d'') :
    d''.copyPlace source target = d'.copyPlace source target := by
  simp only [copyPlace, hg.resolve]
  rcases h.there with hd | hr
  · rw [if_pos hd, if_pos (hg.directory _ hd)]
  · obtain ⟨f, hf, -⟩ := (readBytes_eq_ok_iff.1 hr).2.2.2
    obtain ⟨f', hf'⟩ := hg.file _ _ hf
    simp [hf, hf']

/-- A copy can be read at its path, unless it went into a directory. -/
theorem readBytes_iff (h : Copied d d' source target old changed) (hg : Grows d' d'')
    {b : List UInt8} : d''.readBytes target.text = .ok b ↔
      d''.entryAt? (d''.resolve target.text) ≠ some .directory ∧
        d''.Holds (d''.copyPlace source target) b := by
  constructor
  · intro hr
    have hb := (readBytes_eq_ok_iff.1 hr).2.2.2
    refine ⟨hb.ne_directory, ?_⟩
    rwa [copyPlace, if_neg hb.ne_directory]
  · intro ⟨hn, hb⟩
    rw [copyPlace, if_neg hn, hg.resolve] at hb
    rw [hg.resolve] at hn
    rcases h.there with hd | hr
    · exact absurd (hg.directory _ hd) hn
    · exact hg.readBytes hr hb

theorem openFile_source (h : Copied d d' source target old []) {f : File}
    (hr : d.openFile source.text = .ok f) : d'.openFile source.text = .ok f :=
  (h.keeps _ (Ne.symm h.apart) List.not_mem_nil).openFile h.grows hr

theorem readBytes_source (h : Copied d d' source target old []) {b : List UInt8}
    (hr : d.readBytes source.text = .ok b) : d'.readBytes source.text = .ok b :=
  (h.keeps _ (Ne.symm h.apart) List.not_mem_nil).readBytes h.grows hr

/-- The source may be written when it has been copied. -/
theorem write (h : Copied d d' source target old changed) {f : File}
    (hw : Writes d' d'' source.text f) :
    Copied d d'' source target old (d.resolve source.text :: changed) := by
  have hp := h.copyPlace_eq hw.grows
  have hs : d'.resolve source.text = d.resolve source.text := h.grows.resolve _
  have hne : d'.copyPlace source target ≠ d'.resolve source.text := by
    rw [hs]
    exact h.apart
  constructor
  · exact h.grows.trans hw.grows
  · rw [hp]
    exact (hw.keeps hne).holds h.holds
  · rw [hp]
    exact h.apart
  · intro q hq hc
    rw [hp] at hq
    rw [List.mem_cons, not_or] at hc
    refine (h.keeps q hq hc.2).trans (hw.keeps ?_)
    rw [hs]
    exact hc.1
  · rcases h.there with hd | hr
    · left
      rw [hw.grows.resolve]
      exact hw.grows.directory _ hd
    · right
      refine (h.readBytes_iff hw.grows).2 ⟨?_, ?_⟩
      · obtain ⟨f, hf, -⟩ := (readBytes_eq_ok_iff.1 hr).2.2.2
        obtain ⟨f', hf'⟩ := hw.grows.file _ _ hf
        rw [hw.grows.resolve, hf']
        simp
      · rw [hp]
        exact (hw.keeps hne).holds h.holds

end Copied

theorem copied_of_copyFile {source target : Path} {old : List UInt8}
    (hr : d.readBytes source.text = .ok old) (h : d.copyFile source target = .ok d') :
    Copied d d' source target old [] := by
  obtain ⟨goal, f, hgoal, hf, hw, hne⟩ := copyFile_spec h
  obtain rfl : f.bytes = old := by
    rw [readBytes_of_openFile hf] at hr
    exact Except.ok.inj hr
  have hp : d'.copyPlace source target = d.resolve goal.text ∧
      (d'.entryAt? (d'.resolve target.text) = some .directory ∨
        d'.readBytes target.text = .ok f.bytes) := by
    simp only [copyPlace, hw.grows.resolve]
    rcases hgoal with ⟨-, rfl⟩ | ⟨hd, rfl⟩
    · rw [hw.entryAt?_same, if_neg (by simp)]
      exact ⟨rfl, .inr (f.bytes_copy ▸ readBytes_of_openFile hw.openFile)⟩
    · have hd' := hw.grows.directory _ (entryAt?_of_isDirectory hd)
      rw [if_pos hd']
      exact ⟨rfl, .inl hd'⟩
  refine ⟨hw.grows, ?_, ?_, ?_, hp.2⟩
  · rw [hp.1]
    exact ⟨f.copy, hw.entryAt?_same, f.bytes_copy⟩
  · rwa [hp.1]
  · intro q hq _
    rw [hp.1] at hq
    exact hw.keeps hq

end Disk

namespace Fix

open Disk

variable {d d' : Disk} {root : String} {directory : Path}

/-- A backup that fails leaves all files as they are. -/
theorem backUp_error {file : Path} {e : WriteError}
    (h : backUp d root directory file = (.error e, d')) : AddsDirectories d d' := by
  simp only [backUp] at h
  split at h
  · cases h
    exact .refl d
  · rename_i made hm
    split at h
    · cases h
    · cases h
      exact addsDirectories_of_makeDirectories hm

/-- A backup is a copy of the file. -/
theorem backUp_ok {file : Path} {t : String} {old : List UInt8}
    (hr : d.readBytes file.text = .ok old) (h : backUp d root directory file = (.ok t, d')) :
    t = (backupPath d root directory file).text ∧
      Copied d d' file (backupPath d root directory file) old [] := by
  simp only [backUp] at h
  split at h
  · cases h
  · rename_i made hm
    have hp := addsDirectories_of_makeDirectories hm
    split at h
    · rename_i copied hc
      simp only [Prod.mk.injEq, Except.ok.injEq] at h
      obtain ⟨ht, rfl⟩ := h
      have hcopied := copied_of_copyFile (hp.readBytes hr) hc
      refine ⟨ht.symm, hp.grows.trans hcopied.grows, hcopied.holds, ?_, ?_, hcopied.there⟩
      · have := hcopied.apart
        rwa [hp.grows.resolve] at this
      · intro q hq hn
        exact (hp.keeps q).trans (hcopied.keeps q hq hn)
    · cases h

theorem editLines_grows (d : Disk) (p : String) (lines : List String) (backup : Option String)
    (edits : List Edit) : Grows d (editLines d p lines backup edits).2 := by
  simp only [editLines, Disk.writeLines]
  split
  · split
    · rename_i hw
      split at hw
      · rename_i d' hw'
        cases hw
        obtain ⟨f, hwrites, -⟩ := writes_of_store hw'
        exact hwrites.grows
      · cases hw
    · exact .refl d
  · exact .refl d

theorem backUp_grows (d : Disk) (root : String) (directory file : Path) :
    Grows d (backUp d root directory file).2 := by
  simp only [backUp]
  split
  · exact .refl d
  · rename_i made hm
    have hp := addsDirectories_of_makeDirectories hm
    split
    · rename_i hc
      obtain ⟨_, _, -, -, hw, -⟩ := copyFile_spec hc
      exact hp.grows.trans hw.grows
    · exact hp.grows

/-- What editing a file comes to, with a backup. -/
theorem editFile_cases (d : Disk) (root : String) (directory : Path) (file : String)
    (edits : List Edit) :
    (∃ message, editFile d root (some directory) file edits = (failed edits message none, d)) ∨
      (∃ e made, backUp d root directory (Path.parse file) = (.error e, made) ∧
        editFile d root (some directory) file edits = (failed edits e.message none, made)) ∨
      ∃ t made lines, backUp d root directory (Path.parse file) = (.ok t, made) ∧
        editFile d root (some directory) file edits =
          editLines made (Path.parse file).text lines (some t) edits := by
  delta editFile
  dsimp only
  cases hr : d.readLines (Path.parse file).text with
  | error e => exact .inl ⟨e.message, rfl⟩
  | ok lines =>
    right
    generalize backUp d root directory (Path.parse file) = made
    obtain ⟨t, made⟩ := made
    cases t with
    | error e => exact .inl ⟨e, made, rfl, rfl⟩
    | ok t => exact .inr ⟨t, made, lines, rfl, rfl⟩

theorem editFile_grows (d : Disk) (root : String) (directory : Path) (file : String)
    (edits : List Edit) : Grows d (editFile d root (some directory) file edits).2 := by
  have hg := backUp_grows d root directory (Path.parse file)
  rcases editFile_cases d root directory file edits with
    ⟨m, h⟩ | ⟨e, made, hb, h⟩ | ⟨t, made, lines, hb, h⟩
  · rw [h]
    exact .refl d
  · rw [hb] at hg
    rw [h]
    exact hg
  · rw [hb] at hg
    rw [h]
    exact hg.trans (editLines_grows _ _ _ _ _)

theorem editFiles_grows (d : Disk) (root : String) (directory : Path)
    (files : List (String × List Edit)) :
    Grows d (editFiles d root (some directory) files).2 := by
  induction files generalizing d with
  | nil => exact .refl d
  | cons g rest ih =>
    simp only [editFiles]
    exact (editFile_grows d root directory g.1 g.2).trans (ih _)

theorem map_edit_failed (edits : List Edit) (message : String) (backup : Option String) :
    (failed edits message backup).map (·.edit) = edits := by
  rw [failed, List.map_map]
  exact List.map_id edits

theorem map_fst_applyEdits (lines : List String) (edits : List Edit) :
    (applyEdits lines edits).1.map Prod.fst = edits := by
  simp only [applyEdits, List.map_map]
  have h : (Prod.fst ∘ fun x : Edit × Nat =>
      (x.1, (applyInTurn (runOrder edits) lines).1.lookup x.2)) = Prod.fst := rfl
  rw [h, List.zipIdx_map_fst]

/-- Every edit of a file has an outcome. -/
theorem map_edit_editLines (d : Disk) (p : String) (lines : List String) (backup : Option String)
    (edits : List Edit) : (editLines d p lines backup edits).1.map (·.edit) = edits := by
  have h := map_fst_applyEdits lines edits
  simp only [editLines]
  split
  · split
    · rw [List.map_map]
      exact h
    · exact map_edit_failed _ _ _
  · rw [List.map_map]
    exact h

theorem backup_editLines {d : Disk} {p : String} {lines : List String} {backup : Option String}
    {edits : List Edit} {o : Outcome} (h : o ∈ (editLines d p lines backup edits).1) :
    o.backup = backup := by
  simp only [editLines] at h
  split at h
  · split at h
    · obtain ⟨x, -, rfl⟩ := List.mem_map.1 h
      rfl
    · obtain ⟨e, -, rfl⟩ := List.mem_map.1 h
      rfl
  · obtain ⟨x, -, rfl⟩ := List.mem_map.1 h
    rfl

/-- The backup path of a file. -/
abbrev target (d : Disk) (root : String) (directory : Path) (file : String) : Path :=
  backupPath d root directory (Path.parse file)

/-- What editing a file that can be read comes to: nothing but directories, or a copy of the file,
and then perhaps an edit of it. -/
structure Edited (d d' : Disk) (root : String) (directory : Path) (file : String)
    (edits : List Edit) (old : List UInt8) (os : List Outcome) : Prop where
  read : d.readBytes (Path.parse file).text = .ok old
  edits : os.map (·.edit) = edits
  backup : (∀ o ∈ os, o.backup = none) ∧ AddsDirectories d d' ∨
    (∀ o ∈ os, o.backup = some (target d root directory file).text) ∧
      Copied d d' (Path.parse file) (target d root directory file) old
        [d.resolve (Path.parse file).text]

theorem editFile_edited (root : String) (directory : Path) {file : String} (edits : List Edit)
    {old : List UInt8} (hr : d.readBytes (Path.parse file).text = .ok old) :
    Edited d (editFile d root (some directory) file edits).2 root directory file edits old
      (editFile d root (some directory) file edits).1 := by
  have none_of_failed (message : String) :
      ∀ o ∈ failed edits message none, o.backup = none := by
    intro o ho
    obtain ⟨e, -, rfl⟩ := List.mem_map.1 ho
    rfl
  rcases editFile_cases d root directory file edits with
    ⟨m, h⟩ | ⟨e, made, hb, h⟩ | ⟨t, made, lines, hb, h⟩ <;> rw [h]
  · exact ⟨hr, map_edit_failed _ _ _, .inl ⟨none_of_failed _, .refl d⟩⟩
  · exact ⟨hr, map_edit_failed _ _ _, .inl ⟨none_of_failed _, backUp_error hb⟩⟩
  · obtain ⟨rfl, hc⟩ := backUp_ok hr hb
    refine ⟨hr, map_edit_editLines _ _ _ _ _, .inr ⟨fun o ho => backup_editLines ho, ?_⟩⟩
    have hr' := hc.readBytes_source hr
    have hkept : Copied d made (Path.parse file) (target d root directory file) old
        [d.resolve (Path.parse file).text] :=
      ⟨hc.grows, hc.holds, hc.apart, fun q hq _ => hc.keeps q hq (by simp), hc.there⟩
    obtain ⟨f, hf, -⟩ := readBytes_eq_ok_iff_openFile.1 hr'
    rw [editLines_eq hf]
    split
    · split
      · exact hc.write (writes_put hf _)
      · exact hkept
    · exact hkept

end Fix

end ExportLint
