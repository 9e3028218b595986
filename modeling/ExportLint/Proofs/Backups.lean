import ExportLint.Proofs.BatchFiles
import ExportLint.Proofs.FileCopies

/-!
# Backups

Every file of a batch is backed up before it changes. But copies of different files may go to one
place: the files outside the root go there under their names alone. Then the last copy stays, and
the backups of the others hold what it holds.
-/
namespace ExportLint

namespace Fix

open Disk

variable {d d' : Disk} {root : String} {directory : Path}

theorem target_eq (hg : Grows d d') (root : String) (directory : Path) (file : String) :
    target d' root directory file = target d root directory file := by
  simp only [target, backupPath, hg.resolve]

/-- The place of the backup that an outcome tells of. -/
def backupPlace? (d : Disk) (root : String) (directory : Path) (o : Outcome) : Option Place :=
  o.backup.map fun _ =>
    d.copyPlace (Path.parse o.edit.file) (target d root directory o.edit.file)

/-- The last outcome that tells of a backup at a place. -/
def lastBackup? (d : Disk) (root : String) (directory : Path) (os : List Outcome) (q : Place) :
    Option Outcome :=
  (os.filter fun o => backupPlace? d root directory o == some q).getLast?

theorem lastBackup?_append (d : Disk) (root : String) (directory : Path) (os os' : List Outcome)
    (q : Place) : lastBackup? d root directory (os ++ os') q =
      (lastBackup? d root directory os' q).or (lastBackup? d root directory os q) := by
  simp only [lastBackup?, List.filter_append, List.getLast?_append]

theorem mem_of_lastBackup? {os : List Outcome} {q : Place} {o : Outcome}
    (h : lastBackup? d root directory os q = some o) :
    o ∈ os ∧ backupPlace? d root directory o = some q := by
  have hm := List.mem_filter.1 (List.mem_of_getLast? h)
  exact ⟨hm.1, by simpa using hm.2⟩

theorem lastBackup?_eq_none_iff {os : List Outcome} {q : Place} :
    lastBackup? d root directory os q = none ↔
      ∀ o ∈ os, backupPlace? d root directory o ≠ some q := by
  simp [lastBackup?]

namespace Edited

variable {file : String} {edits : List Edit} {old : List UInt8} {os : List Outcome}
  {d'' : Disk}

theorem grows (h : Edited d d' root directory file edits old os) : Grows d d' := by
  rcases h.backup with ⟨-, hp⟩ | ⟨-, hc⟩
  · exact hp.grows
  · exact hc.grows

theorem edit_mem (h : Edited d d' root directory file edits old os) {o : Outcome} (ho : o ∈ os) :
    o.edit ∈ edits := by
  rw [← h.edits]
  exact List.mem_map_of_mem ho

theorem exists_outcome (h : Edited d d' root directory file edits old os) (hne : edits ≠ []) :
    ∃ o, o ∈ os := by
  apply List.exists_mem_of_ne_nil
  rintro rfl
  exact hne h.edits.symm

/-- The outcomes of a file tell of no backup, or of the copy that was made. -/
theorem backupPlace? (h : Edited d d' root directory file edits old os) (hg : Grows d' d'')
    (hf : ∀ e ∈ edits, e.file = file) :
    (∀ o ∈ os, Fix.backupPlace? d'' root directory o = none) ∧ (∀ q, Keeps d d' q) ∨
      (∀ o ∈ os, Fix.backupPlace? d'' root directory o =
        some (d'.copyPlace (Path.parse file) (target d root directory file))) ∧
      Copied d d' (Path.parse file) (target d root directory file) old
        [d.resolve (Path.parse file).text] := by
  rcases h.backup with ⟨hn, hp⟩ | ⟨hs, hc⟩
  · refine .inl ⟨fun o ho => ?_, hp.keeps⟩
    simp [Fix.backupPlace?, hn o ho]
  · refine .inr ⟨fun o ho => ?_, hc⟩
    rw [Fix.backupPlace?, hs o ho, Option.map_some, hf _ (h.edit_mem ho),
      target_eq (h.grows.trans hg), hc.copyPlace_eq hg]

end Edited

/-- Files to edit: they can be read, each one is at a place of its own, and has edits of its own. -/
structure Ready (d : Disk) (files : List (String × List Edit)) : Prop where
  own : ∀ g ∈ files, g.2 ≠ [] ∧ ∀ e ∈ g.2, e.file = g.1
  readable : ∀ g ∈ files, ∃ old, d.readBytes (Path.parse g.1).text = .ok old
  distinct : files.Pairwise fun g h =>
    d.resolve (Path.parse g.1).text ≠ d.resolve (Path.parse h.1).text

/-- No backup goes to a place. -/
def Clear (d : Disk) (root : String) (directory : Path) (os : List Outcome) (q : Place) : Prop :=
  ∀ o ∈ os, backupPlace? d root directory o ≠ some q

namespace Ready

variable {file : String} {edits : List Edit} {rest : List (String × List Edit)}
  {old : List UInt8} {os : List Outcome} {d'' : Disk}

/-- Editing the first file leaves the others as they are. -/
theorem keeps (h : Ready d ((file, edits) :: rest))
    (he : Edited d d' root directory file edits old os) (hg : Grows d' d'')
    (hc : ∀ g ∈ rest, Clear d'' root directory os (d.resolve (Path.parse g.1).text))
    {g : String × List Edit} (hgm : g ∈ rest) :
    Keeps d d' (d.resolve (Path.parse g.1).text) := by
  have hown := h.own _ List.mem_cons_self
  rcases he.backupPlace? hg hown.2 with ⟨-, hk⟩ | ⟨hp, hcopied⟩
  · exact hk _
  · obtain ⟨o, ho⟩ := he.exists_outcome hown.1
    have hne : d.resolve (Path.parse g.1).text ≠
        d'.copyPlace (Path.parse file) (target d root directory file) := by
      intro heq
      exact hc g hgm o ho (heq ▸ hp o ho)
    have hd := (List.pairwise_cons.1 h.distinct).1 g hgm
    refine hcopied.keeps _ hne ?_
    simpa using Ne.symm hd

theorem readBytes_eq (h : Ready d ((file, edits) :: rest))
    (he : Edited d d' root directory file edits old os) (hg : Grows d' d'')
    (hc : ∀ g ∈ rest, Clear d'' root directory os (d.resolve (Path.parse g.1).text))
    {g : String × List Edit} (hgm : g ∈ rest) {b : List UInt8}
    (hb : d.readBytes (Path.parse g.1).text = .ok b) :
    d'.readBytes (Path.parse g.1).text = .ok b :=
  (h.keeps he hg hc hgm).readBytes he.grows hb

theorem next (h : Ready d ((file, edits) :: rest))
    (he : Edited d d' root directory file edits old os) (hg : Grows d' d'')
    (hc : ∀ g ∈ rest, Clear d'' root directory os (d.resolve (Path.parse g.1).text)) :
    Ready d' rest where
  own g hgm := h.own g (List.mem_cons_of_mem _ hgm)
  readable g hgm := by
    obtain ⟨b, hb⟩ := h.readable g (List.mem_cons_of_mem _ hgm)
    exact ⟨b, h.readBytes_eq he hg hc hgm hb⟩
  distinct := by
    simp only [he.grows.resolve]
    exact (List.pairwise_cons.1 h.distinct).2

end Ready

/-- What a batch makes of a place: it holds what the last file that was backed up there held, or it
is kept. -/
def PlaceAfter (d d' : Disk) (root : String) (directory : Path) (os : List Outcome)
    (q : Place) : Prop :=
  lastBackup? d' root directory os q = none ∧ Keeps d d' q ∨
    ∃ o old, lastBackup? d' root directory os q = some o ∧
      d.readBytes (Path.parse o.edit.file).text = .ok old ∧ d'.Holds q old

/-- What a batch makes of a file: it is kept, or its outcomes tell of a backup that can be read, if
it is not in a directory. -/
def FileAfter (d d' : Disk) (root : String) (directory : Path) (os : List Outcome)
    (file : String) : Prop :=
  Keeps d d' (d.resolve (Path.parse file).text) ∨
    (∃ o ∈ os, o.edit.file = file) ∧
    (∀ o ∈ os, o.edit.file = file → o.backup = some (target d root directory file).text) ∧
    ∀ b, d'.readBytes (target d root directory file).text = .ok b ↔
      d'.entryAt? (d'.resolve (target d root directory file).text) ≠ some .directory ∧
        d'.Holds (d'.copyPlace (Path.parse file) (target d root directory file)) b

/-- What editing files comes to. -/
structure BatchEdited (d d' : Disk) (root : String) (directory : Path)
    (files : List (String × List Edit)) (os : List Outcome) : Prop where
  grows : Grows d d'
  own : ∀ o ∈ os, ∃ g ∈ files, o.edit.file = g.1
  place : ∀ q, (∀ g ∈ files, q ≠ d.resolve (Path.parse g.1).text) →
    PlaceAfter d d' root directory os q
  file : ∀ g ∈ files, FileAfter d d' root directory os g.1

namespace BatchEdited

variable {d₁ : Disk} {file : String} {edits : List Edit} {rest : List (String × List Edit)}
  {old : List UInt8} {os os₁ : List Outcome}

theorem nil (d : Disk) (root : String) (directory : Path) :
    BatchEdited d d root directory [] [] where
  grows := .refl d
  own o ho := by cases ho
  place q _ := .inl ⟨rfl, fun _ hb => hb⟩
  file g hg := by cases hg

section Cons

variable (hr : Ready d ((file, edits) :: rest))
  (he : Edited d d₁ root directory file edits old os₁)
  (hb : BatchEdited d₁ d' root directory rest os)
  (hc : ∀ g ∈ (file, edits) :: rest,
    Clear d' root directory (os₁ ++ os) (d.resolve (Path.parse g.1).text))

include hc in
theorem clear_first : ∀ g ∈ rest, Clear d' root directory os₁ (d.resolve (Path.parse g.1).text) :=
  fun g hg o ho => hc g (List.mem_cons_of_mem _ hg) o (List.mem_append_left _ ho)

include hr he hb in
theorem own_cons : ∀ o ∈ os₁ ++ os, ∃ g ∈ (file, edits) :: rest, o.edit.file = g.1 := by
  intro o ho
  rcases List.mem_append.1 ho with ho | ho
  · exact ⟨_, List.mem_cons_self, (hr.own _ List.mem_cons_self).2 _ (he.edit_mem ho)⟩
  · obtain ⟨g, hg, hf⟩ := hb.own o ho
    exact ⟨g, List.mem_cons_of_mem _ hg, hf⟩

include hr he hb hc in
theorem place_cons {q : Place}
    (hq : ∀ g ∈ (file, edits) :: rest, q ≠ d.resolve (Path.parse g.1).text) :
    PlaceAfter d d' root directory (os₁ ++ os) q := by
  have hown := hr.own _ List.mem_cons_self
  have hrest := hb.place q fun g hg => by
    rw [he.grows.resolve]
    exact hq g (List.mem_cons_of_mem _ hg)
  rw [PlaceAfter, lastBackup?_append]
  rcases hrest with ⟨hn, hk⟩ | ⟨o, b, hl, hread, hentry⟩
  · rw [hn, Option.none_or]
    rcases he.backupPlace? hb.grows hown.2 with ⟨hp, hkeep⟩ | ⟨hp, hcopied⟩
    · left
      rw [lastBackup?_eq_none_iff]
      exact ⟨fun o ho => by simp [hp o ho], (hkeep q).trans hk⟩
    · by_cases hqp : d₁.copyPlace (Path.parse file) (target d root directory file) = q
      · right
        obtain ⟨o, ho⟩ := he.exists_outcome hown.1
        have hne : lastBackup? d' root directory os₁ q ≠ none := by
          rw [Ne, lastBackup?_eq_none_iff]
          exact fun h => h o ho (hqp ▸ hp o ho)
        obtain ⟨o', ho'⟩ := Option.ne_none_iff_exists'.1 hne
        have hfile := hown.2 _ (he.edit_mem (mem_of_lastBackup? ho').1)
        refine ⟨o', old, ho', ?_, hk.holds (hqp ▸ hcopied.holds)⟩
        rw [hfile]
        exact he.read
      · left
        rw [lastBackup?_eq_none_iff]
        refine ⟨fun o ho => ?_, (hcopied.keeps q (Ne.symm hqp) ?_).trans hk⟩
        · rw [hp o ho]
          simpa using hqp
        · simpa using hq _ List.mem_cons_self
  · right
    rw [hl, Option.some_or]
    refine ⟨o, b, rfl, ?_, hentry⟩
    obtain ⟨g, hg, hf⟩ := hb.own o (mem_of_lastBackup? hl).1
    obtain ⟨b', hb'⟩ := hr.readable g (List.mem_cons_of_mem _ hg)
    have := hr.readBytes_eq he hb.grows (clear_first hc) hg hb'
    rw [hf] at hread ⊢
    rw [hread] at this
    cases this
    exact hb'

include hr in
theorem ne_first {g : String × List Edit} (hg : g ∈ rest) : g.1 ≠ file := by
  intro h
  have := (List.pairwise_cons.1 hr.distinct).1 g hg
  rw [h] at this
  exact this rfl

include hr he hb hc in
/-- The first file is kept by the rest of the batch, or its backup can be read after it. -/
theorem file_first : FileAfter d d' root directory (os₁ ++ os) file := by
  have hown := hr.own _ List.mem_cons_self
  rcases he.backup with ⟨-, hp⟩ | ⟨hs, hcopied⟩
  · left
    have hrest := hb.place (d.resolve (Path.parse file).text) fun g hg => by
      rw [he.grows.resolve]
      exact (List.pairwise_cons.1 hr.distinct).1 g hg
    rcases hrest with ⟨-, hk⟩ | ⟨o, b, hl, -⟩
    · exact (hp.keeps _).trans hk
    · obtain ⟨ho, hq⟩ := mem_of_lastBackup? hl
      exact absurd hq (hc _ List.mem_cons_self o (List.mem_append_right _ ho))
  · right
    obtain ⟨o, ho⟩ := he.exists_outcome hown.1
    refine ⟨⟨o, List.mem_append_left _ ho, hown.2 _ (he.edit_mem ho)⟩, fun o' ho' hf => ?_,
      fun b => hcopied.readBytes_iff hb.grows⟩
    rcases List.mem_append.1 ho' with ho' | ho'
    · exact hs o' ho'
    · obtain ⟨g, hg, hf'⟩ := hb.own o' ho'
      exact absurd (hf'.symm.trans hf) (ne_first hr hg)

include hr he hb hc in
theorem file_rest {g : String × List Edit} (hg : g ∈ rest) :
    FileAfter d d' root directory (os₁ ++ os) g.1 := by
  have hown := hr.own _ List.mem_cons_self
  have hnot : ∀ o ∈ os₁, o.edit.file ≠ g.1 := fun o ho h =>
    ne_first hr hg (h.symm.trans (hown.2 _ (he.edit_mem ho)))
  have hfile := hb.file g hg
  rw [FileAfter, target_eq he.grows, he.grows.resolve] at hfile
  rcases hfile with hk | ⟨⟨o, ho, hf⟩, hs, hread⟩
  · left
    exact (hr.keeps he hb.grows (clear_first hc) hg).trans hk
  · right
    refine ⟨⟨o, List.mem_append_right _ ho, hf⟩, fun o' ho' hf' => ?_, hread⟩
    rcases List.mem_append.1 ho' with ho' | ho'
    · exact absurd hf' (hnot o' ho')
    · exact hs o' ho' hf'

include hr he hb hc in
/-- A batch that goes on after its first file. -/
theorem cons : BatchEdited d d' root directory ((file, edits) :: rest) (os₁ ++ os) where
  grows := he.grows.trans hb.grows
  own := own_cons hr he hb
  place _ hq := place_cons hr he hb hc hq
  file g hg := by
    rcases List.mem_cons.1 hg with rfl | hg
    · exact file_first hr he hb hc
    · exact file_rest hr he hb hc hg

end Cons

end BatchEdited

theorem batchEdited_editFiles {files : List (String × List Edit)} {os : List Outcome}
    (h : editFiles d root (some directory) files = (os, d')) (hr : Ready d files)
    (hc : ∀ g ∈ files, Clear d' root directory os (d.resolve (Path.parse g.1).text)) :
    BatchEdited d d' root directory files os := by
  induction files generalizing d os with
  | nil =>
    cases h
    exact .nil _ _ _
  | cons g rest ih =>
    obtain ⟨file, edits⟩ := g
    obtain ⟨old, hold⟩ := hr.readable _ List.mem_cons_self
    have he := editFile_edited root directory edits hold
    have hg := editFiles_grows (editFile d root (some directory) file edits).2 root directory rest
    simp only [editFiles] at h
    cases h
    have hnext := hr.next he hg (BatchEdited.clear_first hc)
    refine .cons hr he (ih rfl hnext fun g hgm o ho => ?_) hc
    rw [he.grows.resolve]
    exact hc g (List.mem_cons_of_mem _ hgm) o (List.mem_append_right _ ho)

/-- After a batch, a file that has changed has a backup of what it held, exactly if the last file
that was backed up at the place of its backup held the same. -/
theorem BatchEdited.backup_iff {files : List (String × List Edit)} {os : List Outcome}
    (h : BatchEdited d d' root directory files os)
    (hc : ∀ g ∈ files, Clear d' root directory os (d.resolve (Path.parse g.1).text))
    {g : String × List Edit} (hg : g ∈ files) {old : List UInt8}
    (hr : d.readBytes (Path.parse g.1).text = .ok old)
    (hch : d'.readBytes (Path.parse g.1).text ≠ .ok old) :
    (∀ o ∈ os, o.edit.file = g.1 → ∃ t, o.backup = some t ∧ d'.readBytes t = .ok old) ↔
      d'.entryAt? (d'.resolve (target d root directory g.1).text) ≠ some .directory ∧
        ∃ o, lastBackup? d' root directory os
            (d'.resolve (target d root directory g.1).text) = some o ∧
          d.readBytes (Path.parse o.edit.file).text = .ok old := by
  rcases h.file g hg with hk | ⟨⟨o, ho, hf⟩, hs, hread⟩
  · exact absurd (hk.readBytes h.grows hr) hch
  · have hbo : backupPlace? d' root directory o =
        some (d'.copyPlace (Path.parse g.1) (target d root directory g.1)) := by
      rw [backupPlace?, hs o ho hf, Option.map_some, hf, target_eq h.grows]
    have hplace := h.place (d'.copyPlace (Path.parse g.1) (target d root directory g.1))
      fun g' hg' heq => hc g' hg' o ho (heq ▸ hbo)
    have hkept : (∀ o ∈ os, o.edit.file = g.1 → ∃ t, o.backup = some t ∧
        d'.readBytes t = .ok old) ↔
          d'.readBytes (target d root directory g.1).text = .ok old := by
      constructor
      · intro hall
        obtain ⟨t, ht, hb⟩ := hall o ho hf
        rw [hs o ho hf] at ht
        rwa [← Option.some.inj ht] at hb
      · intro hb o' ho' hf'
        exact ⟨_, hs o' ho' hf', hb⟩
    rw [hkept, hread]
    apply and_congr_right
    intro hn
    rcases hplace with ⟨hnone, -⟩ | ⟨o', old', hlast, hread', hentry⟩
    · exact absurd hbo (lastBackup?_eq_none_iff.1 hnone o ho)
    · rw [copyPlace, if_neg hn] at hlast
      rw [hlast]
      constructor
      · intro hold
        exact ⟨o', rfl, hentry.unique hold ▸ hread'⟩
      · rintro ⟨o'', ho'', hr''⟩
        cases ho''
        rw [hread'] at hr''
        cases hr''
        exact hentry

/-- The files of a batch can be read, and different ones are at different places. -/
structure RegularFiles (d : Disk) (edits : List Edit) : Prop where
  readable : ∀ e ∈ edits, ∃ old, d.readBytes (Path.parse e.file).text = .ok old
  distinct : ∀ a ∈ edits, ∀ b ∈ edits,
    d.resolve (Path.parse a.file).text = d.resolve (Path.parse b.file).text → a.file = b.file

/-- Making directories leaves the files of a batch ready to be edited. -/
theorem RegularFiles.ready {edits applied : List Edit} (h : RegularFiles d edits)
    (hs : ∀ e ∈ applied, e ∈ edits) (hp : AddsDirectories d d') :
    Ready d' (byFile applied) where
  own _ hg := own_of_mem_byFile hg
  readable g hg := by
    obtain ⟨e, he, hf⟩ := List.mem_map.1 (mem_byFile hg).1
    obtain ⟨old, hold⟩ := h.readable e (hs e he)
    rw [← hf]
    exact ⟨old, hp.readBytes hold⟩
  distinct := by
    refine (pairwise_byFile applied).imp_of_mem fun {a b} ha hb hne heq => hne ?_
    obtain ⟨e, he, hf⟩ := List.mem_map.1 (mem_byFile ha).1
    obtain ⟨x, hx, hfx⟩ := List.mem_map.1 (mem_byFile hb).1
    rw [← hf, ← hfx] at heq ⊢
    simp only [hp.grows.resolve] at heq
    exact h.distinct e (hs e he) x (hs x hx) heq

/-- A batch with backups changes nothing, or it edits the files after the directory for their
backups is made. -/
theorem applyAll_cases {now : Moment} {c : Config} {o : Options} {edits skipped : List Edit}
    {batch : Batch} (h : applyAll d now c o edits skipped = (batch, d'))
    (hb : o.createBackup.getD c.fixing.createBackup = true) :
    d' = d ∨ ∃ applied made, (∀ e ∈ applied, e ∈ edits) ∧ AddsDirectories d made ∧
      editFiles made c.rootPath (some (backupDirectory c o.backupDirectory now))
        (byFile applied) = (batch.results, d') := by
  delta applyAll at h
  dsimp only at h
  rw [hb, Bool.true_and] at h
  split at h
  · split at h
    · cases h
      exact .inl rfl
    · rename_i made hm
      cases h
      refine .inr ⟨_, made, fun e he => ?_, addsDirectories_of_makeDirectories hm, rfl⟩
      exact List.mem_eraseDups.1 (List.mem_filter.1 he).1
  · rename_i hn
    have hnil : byFile (edits.eraseDups.filter fun e => !conflictsWith edits.eraseDups e) = [] := by
      simpa using hn
    rw [hnil] at h
    cases h
    exact .inl rfl

/-- A file that a batch has changed has a backup that holds what the file held, exactly if no
directory is at the place of its backup, and the last file that was backed up there held the same.
Files of different content with one place for their backups do not both have one. -/
theorem changed_file_backup_iff {now : Moment} {c : Config} {o : Options}
    {edits skipped : List Edit} {batch : Batch}
    (h : applyAll d now c o edits skipped = (batch, d'))
    (hb : o.createBackup.getD c.fixing.createBackup = true) (hf : RegularFiles d edits)
    (hc : ∀ e ∈ edits, Clear d' c.rootPath (backupDirectory c o.backupDirectory now) batch.results
      (d.resolve (Path.parse e.file).text))
    {e : Edit} (he : e ∈ edits) {old : List UInt8}
    (hr : d.readBytes (Path.parse e.file).text = .ok old)
    (hch : d'.readBytes (Path.parse e.file).text ≠ .ok old) :
    let directory := backupDirectory c o.backupDirectory now
    let place := d'.resolve (target d c.rootPath directory e.file).text
    (∀ r ∈ batch.results, r.edit.file = e.file →
        ∃ t, r.backup = some t ∧ d'.readBytes t = .ok old) ↔
      d'.entryAt? place ≠ some .directory ∧
        ∃ r, lastBackup? d' c.rootPath directory batch.results place = some r ∧
          d.readBytes (Path.parse r.edit.file).text = .ok old := by
  intro directory place
  rcases applyAll_cases h hb with rfl | ⟨applied, made, hs, hp, hrun⟩
  · exact absurd hr hch
  · have hready := hf.ready hs hp
    have hclear : ∀ g ∈ byFile applied, Clear d' c.rootPath directory batch.results
        (made.resolve (Path.parse g.1).text) := by
      intro g hg
      obtain ⟨x, hx, hfx⟩ := List.mem_map.1 (mem_byFile hg).1
      rw [← hfx, hp.grows.resolve]
      exact hc x (hs x hx)
    have hbatch := batchEdited_editFiles hrun hready hclear
    have hmade := hp.readBytes hr
    by_cases hin : ∃ x ∈ applied, x.file = e.file
    · obtain ⟨x, hx, hxe⟩ := hin
      have hg := mem_byFile_of_mem hx
      rw [hxe] at hg
      have hiff := hbatch.backup_iff hclear hg hmade hch
      rw [target_eq hp.grows] at hiff
      rw [hiff]
      apply and_congr_right
      intro _
      apply exists_congr
      intro r
      apply and_congr_right
      intro hl
      obtain ⟨g, hgm, hrf⟩ := hbatch.own r (mem_of_lastBackup? hl).1
      obtain ⟨y, hy, hfy⟩ := List.mem_map.1 (mem_byFile hgm).1
      obtain ⟨b, hb'⟩ := hf.readable y (hs y hy)
      rw [hrf, ← hfy, hb', hp.readBytes hb']
    · -- A file all of whose edits conflict is not edited, and no backup goes to its place.
      have hplace := hbatch.place (made.resolve (Path.parse e.file).text) fun g hg heq => by
        obtain ⟨x, hx, hfx⟩ := List.mem_map.1 (mem_byFile hg).1
        rw [← hfx, hp.grows.resolve, hp.grows.resolve] at heq
        exact hin ⟨x, hx, (hf.distinct e he x (hs x hx) heq).symm⟩
      rcases hplace with ⟨-, hk⟩ | ⟨r, b, hl, -⟩
      · exact absurd (hk.readBytes hbatch.grows hmade) hch
      · obtain ⟨hrm, hq⟩ := mem_of_lastBackup? hl
        rw [hp.grows.resolve] at hq
        exact absurd hq (hc e he r hrm)

/-- Two files of one name in different directories outside the root. -/
def namesakes : Disk where
  here := ["work"]
  entries := [(["work", "one"], .directory), (["work", "two"], .directory),
    (["work", "one", "m.ts"], .file (.ordinary (bytesOf ["first"]))),
    (["work", "two", "m.ts"], .file (.ordinary (bytesOf ["second"])))]

def namesakeEdit (file : String) : Edit where
  kind := .rename
  file := file
  line := some 1
  text := "changed"
  description := ""

def namesakeEdits : List Edit := [namesakeEdit "one/m.ts", namesakeEdit "two/m.ts"]

def namesakeConfig : Config where
  rootPath := "proj"
  scan := .standard
  conventions := .standard

def namesakeTime : Moment := ⟨2024, 1, 2, 3, 4, 5, 0, some 0⟩

/-- Both files changed, with a directory for their backups. -/
def namesakeRun : Batch × Disk :=
  applyAll namesakes namesakeTime namesakeConfig { backupDirectory := some "kept" } namesakeEdits []

/-- What is known of this run: no backup is at the place of a file, the first file has changed, and
the second one was backed up last where the backup of the first is. -/
theorem namesakeRun_backups :
    (∀ e ∈ namesakeEdits, ∀ r ∈ namesakeRun.1.results,
      backupPlace? namesakeRun.2 "proj" ⟨"", ["kept"]⟩ r ≠
        some (namesakes.resolve (Path.parse e.file).text)) ∧
    namesakeRun.2.readBytes (Path.parse "one/m.ts").text ≠ .ok (bytesOf ["first"]) ∧
    (lastBackup? namesakeRun.2 "proj" ⟨"", ["kept"]⟩ namesakeRun.1.results
      (namesakeRun.2.resolve (target namesakes "proj" ⟨"", ["kept"]⟩ "one/m.ts").text)).map
        (·.edit.file) = some "two/m.ts" := by
  decide +kernel

/-- The first file has changed, and what it held is lost: its backup holds what the second held. -/
theorem namesakes_lose_backup :
    namesakeRun.2.readBytes (Path.parse "one/m.ts").text ≠ .ok (bytesOf ["first"]) ∧
      ¬∀ r ∈ namesakeRun.1.results, r.edit.file = "one/m.ts" →
        ∃ t, r.backup = some t ∧ namesakeRun.2.readBytes t = .ok (bytesOf ["first"]) := by
  obtain ⟨hclear, hch, hlast⟩ := namesakeRun_backups
  have hone : namesakes.readBytes (Path.parse "one/m.ts").text = .ok (bytesOf ["first"]) := by
    decide +kernel
  have htwo : namesakes.readBytes (Path.parse "two/m.ts").text = .ok (bytesOf ["second"]) := by
    decide +kernel
  have hf : RegularFiles namesakes namesakeEdits := by
    refine ⟨fun e he => ?_, by decide +kernel⟩
    rw [namesakeEdits, List.mem_cons, List.mem_singleton] at he
    rcases he with rfl | rfl
    · exact ⟨_, hone⟩
    · exact ⟨_, htwo⟩
  have hdir : backupDirectory namesakeConfig (some "kept") namesakeTime = ⟨"", ["kept"]⟩ := by
    decide +kernel
  have he : namesakeEdit "one/m.ts" ∈ namesakeEdits := List.mem_cons_self
  have hiff := changed_file_backup_iff (Prod.eta namesakeRun).symm rfl hf
    (hdir ▸ hclear) he hone hch
  refine ⟨hch, fun hkept => ?_⟩
  obtain ⟨-, r, hl, hr⟩ := hiff.1 hkept
  rw [hdir] at hl
  have hfile : some r.edit.file = some "two/m.ts" := by
    rw [← hlast]
    exact (congrArg (Option.map (·.edit.file)) hl).symm
  rw [Option.some.inj hfile, htwo] at hr
  revert hr
  decide +kernel

end Fix

end ExportLint
