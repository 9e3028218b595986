import ExportLint.Proofs.DiskGrowth

/-!
# What operations on files change

Writing a file changes the one place that its path resolves to, if the file that is there lets it.
Making directories fills empty places only. Copying puts a copy of the source there and leaves the
source alone. Every one of them makes the file system grow.
-/
namespace ExportLint

namespace Disk

variable {d d' d'' : Disk}

/-- A file or a directory may be put where there is nothing, and a file in place of a file. -/
theorem grows_put {q : Place} {e : Entry} (he : ∀ t, e ≠ .link t)
    (hq : d.entryAt? q = none ∨ ∃ b b', d.entryAt? q = some (.file b) ∧ e = .file b') :
    Grows d (d.put q e) where
  here := rfl
  directory r hr := by
    have hne : r ≠ q := by
      rintro rfl
      rcases hq with hq | ⟨b, b', hq, -⟩ <;> rw [hq] at hr <;> cases hr
    rwa [entryAt?_put_other d e hne]
  file r b hr := by
    by_cases hne : r = q
    · subst hne
      rcases hq with hq | ⟨_, b', -, rfl⟩
      · rw [hq] at hr
        cases hr
      · exact ⟨b', entryAt?_put_same d r _⟩
    · exact ⟨b, by rwa [entryAt?_put_other d e hne]⟩
  link r t := by
    by_cases hne : r = q
    · subst hne
      rw [entryAt?_put_same]
      constructor
      · intro h
        exact absurd (Option.some.inj h) (he t)
      · intro h
        rcases hq with hq | ⟨_, _, hq, -⟩ <;> rw [hq] at h <;> cases h
    · rw [entryAt?_put_other d e hne]

/-- What it takes to put a file where a path leads, and what comes of it. -/
structure Writes (d d' : Disk) (p : String) (f : File) : Prop where
  named : p.isEmpty = false
  noSlash : endsInSlash p = false
  located : d.locate true p = .ok (d.resolve p)
  grows : Grows d d'
  eq_put : d' = d.put (d.resolve p) (.file f)

/-- In place of a file that can be opened, another one may be put. -/
theorem writes_put {p : String} {old : File} (h : d.openFile p = .ok old) (f : File) :
    Writes d (d.put (d.resolve p) (.file f)) p f := by
  obtain ⟨hp, hs, hq, hb⟩ := openFile_eq_ok_iff.1 h
  exact ⟨hp, hs, hq, grows_put (by simp) (.inr ⟨old, f, hb, rfl⟩), rfl⟩

/-- What becomes of a file that is there is put in its place. -/
theorem store_of_openFile {p : String} {old : File} (h : d.openFile p = .ok old) (new : File)
    (onto : File → Except WriteError File) : d.store p new onto =
      match onto old with
      | .ok f => .ok (d.put (d.resolve p) (.file f))
      | .error e => .error e := by
  obtain ⟨hp, hs, hq, hb⟩ := openFile_eq_ok_iff.1 h
  cases ho : onto old <;> simp only [store, hp, hs, hq, hb, ho, Bool.false_eq_true, if_false]

/-- A file that is stored is new, or it is what becomes of the one that is there. -/
theorem writes_of_store {p : String} {new : File} {onto : File → Except WriteError File}
    (h : d.store p new onto = .ok d') : ∃ f, Writes d d' p f ∧
      (d.entryAt? (d.resolve p) = none ∧ f = new ∨
        ∃ old, d.openFile p = .ok old ∧ onto old = .ok f) := by
  simp only [store] at h
  split at h
  · cases h
  · rename_i hp
    split at h
    · cases h
    · rename_i q hq
      obtain rfl := resolve_of_locate hq (.inl rfl)
      split at h
      · cases h
      · rename_i old hold
        split at h
        · cases h
        · rename_i hs
          have hopen : d.openFile p = .ok old :=
            openFile_eq_ok_iff.2 ⟨by simpa using hp, by simpa using hs, hq, hold⟩
          split at h
          · rename_i f hf
            cases h
            exact ⟨f, writes_put hopen f, .inr ⟨old, hopen, hf⟩⟩
          · cases h
      · cases h
      · rename_i hn
        split at h
        · cases h
        · rename_i hs
          split at h
          · cases h
            exact ⟨new, ⟨by simpa using hp, by simpa using hs, hq, grows_put (by simp) (.inl hn),
              rfl⟩, .inl ⟨hn, rfl⟩⟩
          · cases h
          · cases h

namespace Writes

variable {p : String} {f : File}

theorem entryAt?_same (h : Writes d d' p f) : d'.entryAt? (d.resolve p) = some (.file f) := by
  rw [h.eq_put, entryAt?_put_same]

theorem entryAt?_other (h : Writes d d' p f) {q : Place} (hq : q ≠ d.resolve p) :
    d'.entryAt? q = d.entryAt? q := by
  rw [h.eq_put, entryAt?_put_other d _ hq]

/-- What was put there is opened. -/
theorem openFile (h : Writes d d' p f) : d'.openFile p = .ok f := by
  refine openFile_eq_ok_iff.2 ⟨h.named, h.noSlash, ?_, ?_⟩
  · rw [h.grows.resolve]
    exact h.grows.locate h.located
  · rw [h.grows.resolve]
    exact h.entryAt?_same

end Writes

theorem exists?_of_openFile {p : String} {f : File} (h : d.openFile p = .ok f) :
    d.exists? p = true := by
  simp only [openFile] at h
  split at h
  · rename_i hf
    simp [exists?, hf, Except.toOption]
  · cases h
  · cases h

theorem exists?_of_readBytes {p : String} {bytes : List UInt8} (h : d.readBytes p = .ok bytes) :
    d.exists? p = true := by
  obtain ⟨f, hf, -⟩ := readBytes_eq_ok_iff_openFile.1 h
  exact exists?_of_openFile hf

/-- Where there was nothing, an ordinary file is written. -/
theorem writes_of_writeBytes_new {p : String} {bytes : List UInt8} (hnew : d.exists? p = false)
    (h : d.writeBytes p bytes = .ok d') : Writes d d' p (.ordinary bytes) := by
  obtain ⟨f, hw, ⟨-, rfl⟩ | ⟨old, hold, -⟩⟩ := writes_of_store h
  · exact hw
  · rw [exists?_of_openFile hold] at hnew
    cases hnew

/-- What a file holds at a place, it still holds there. -/
def Keeps (d d' : Disk) (q : Place) : Prop :=
  ∀ f, d.entryAt? q = some (.file f) → d'.entryAt? q = some (.file f)

theorem Keeps.trans {q : Place} (h : Keeps d d' q) (h' : Keeps d' d'' q) : Keeps d d'' q :=
  fun f hf => h' f (h f hf)

theorem Keeps.holds {q : Place} {bytes : List UInt8} (h : Keeps d d' q) (hb : d.Holds q bytes) :
    d'.Holds q bytes := by
  obtain ⟨f, hf, rfl⟩ := hb
  exact ⟨f, h f hf, rfl⟩

/-- A file that is kept is opened as before. -/
theorem Keeps.openFile {p : String} {f : File} (h : Keeps d d' (d.resolve p))
    (hg : Grows d d') (hr : d.openFile p = .ok f) : d'.openFile p = .ok f :=
  hg.openFile hr (h f (openFile_eq_ok_iff.1 hr).2.2.2)

theorem Keeps.readBytes {p : String} {bytes : List UInt8} (h : Keeps d d' (d.resolve p))
    (hg : Grows d d') (hr : d.readBytes p = .ok bytes) : d'.readBytes p = .ok bytes :=
  hg.readBytes hr (h.holds (readBytes_eq_ok_iff.1 hr).2.2.2)

theorem Writes.keeps {p : String} {f : File} (h : Writes d d' p f) {q : Place}
    (hq : q ≠ d.resolve p) : Keeps d d' q := by
  intro g hg
  rwa [h.entryAt?_other hq]

/-- One file system has some directories more than another one, each of them where nothing was. -/
structure AddsDirectories (d d' : Disk) : Prop where
  grows : Grows d d'
  entries : ∀ q, d'.entryAt? q = d.entryAt? q ∨
    d.entryAt? q = none ∧ d'.entryAt? q = some .directory

namespace AddsDirectories

theorem refl (d : Disk) : AddsDirectories d d := ⟨.refl d, fun _ => .inl rfl⟩

theorem trans (h : AddsDirectories d d') (h' : AddsDirectories d' d'') :
    AddsDirectories d d'' where
  grows := h.grows.trans h'.grows
  entries q := by
    rcases h'.entries q with he' | ⟨hn, hd⟩
    · rw [he']
      exact h.entries q
    · rcases h.entries q with he | ⟨-, hd'⟩
      · exact .inr ⟨by rwa [he] at hn, hd⟩
      · rw [hn] at hd'
        cases hd'

theorem keeps (h : AddsDirectories d d') (q : Place) : Keeps d d' q := by
  intro f hf
  rcases h.entries q with he | ⟨hn, -⟩
  · rwa [he]
  · rw [hn] at hf
    cases hf

theorem openFile (h : AddsDirectories d d') {p : String} {f : File}
    (hr : d.openFile p = .ok f) : d'.openFile p = .ok f :=
  (h.keeps _).openFile h.grows hr

theorem readBytes (h : AddsDirectories d d') {p : String} {bytes : List UInt8}
    (hr : d.readBytes p = .ok bytes) : d'.readBytes p = .ok bytes :=
  (h.keeps _).readBytes h.grows hr

end AddsDirectories

theorem addsDirectories_of_makeDirectory {p : String} (h : d.makeDirectory p = .ok d') :
    AddsDirectories d d' := by
  simp only [makeDirectory] at h
  split at h
  · cases h
  · rename_i q _
    split at h
    · cases h
    · rename_i hn
      split at h
      · cases h
        refine ⟨grows_put (by simp) (.inl hn), fun r => ?_⟩
        by_cases hne : r = q
        · subst hne
          exact .inr ⟨hn, entryAt?_put_same d r _⟩
        · exact .inl (entryAt?_put_other d _ hne)
      · cases h
      · cases h

theorem addsDirectories_of_makeAllFrom {root : String} {made ss : List String}
    (h : d.makeAllFrom root made ss = .ok d') : AddsDirectories d d' := by
  induction ss generalizing d made with
  | nil =>
    simp only [makeAllFrom, Except.ok.injEq] at h
    subst h
    exact .refl d
  | cons s rest ih =>
    simp only [makeAllFrom] at h
    split at h
    · rename_i e he
      exact (addsDirectories_of_makeDirectory he).trans (ih h)
    · split at h
      · exact ih h
      · cases h

theorem addsDirectories_of_makeDirectories {p : Path} (h : d.makeDirectories p = .ok d') :
    AddsDirectories d d' :=
  addsDirectories_of_makeAllFrom h

/-- The path of a directory leads to it. -/
theorem located_of_isDirectory {p : String} (h : d.isDirectory p = true) :
    d.locate true p = .ok (d.resolve p) ∧ d.entryAt? (d.resolve p) = some .directory := by
  simp only [isDirectory, find] at h
  split at h
  · rename_i hf
    split at hf
    · cases hf
    · split at hf
      · cases hf
      · rename_i q hq
        rw [resolve_of_locate hq (.inl rfl)]
        refine ⟨hq, ?_⟩
        split at hf
        · cases hf
        · split at hf <;> cases hf
        · rename_i he
          cases hf
          exact he
  · cases h

theorem entryAt?_of_isDirectory {p : String} (h : d.isDirectory p = true) :
    d.entryAt? (d.resolve p) = some .directory :=
  (located_of_isDirectory h).2

/-- A copy is written at the place of its path, or in the directory that is there. It is a copy of
the source, and the source is elsewhere. -/
theorem copyFile_spec {source target : Path} (h : d.copyFile source target = .ok d') :
    ∃ goal f, (d.isDirectory target.text = false ∧ goal = target ∨
        d.isDirectory target.text = true ∧ goal = target ++ ⟨"", [source.name]⟩) ∧
      d.openFile source.text = .ok f ∧ Writes d d' goal.text f.copy ∧
      d.resolve goal.text ≠ d.resolve source.text := by
  simp only [copyFile] at h
  cases hf : d.openFile source.text with
  | error e =>
    rw [hf] at h
    cases h
  | ok f =>
    rw [hf] at h
    dsimp only at h
    refine ⟨if d.isDirectory target.text then target ++ ⟨"", [source.name]⟩ else target, f, ?_,
      rfl, ?_⟩
    · cases d.isDirectory target.text
      · exact .inl ⟨rfl, rfl⟩
      · exact .inr ⟨rfl, rfl⟩
    · generalize (if d.isDirectory target.text then target ++ ⟨"", [source.name]⟩ else target) =
        goal at h ⊢
      split at h
      · cases h
      · rename_i hne
        obtain ⟨g, hw, hg⟩ := writes_of_store h
        have hcopy : g = f.copy := by
          rcases hg with ⟨-, rfl⟩ | ⟨old, -, hover⟩
          · rfl
          · cases old <;> cases hover
            rfl
        rw [hcopy] at hw
        refine ⟨hw, fun he => ?_⟩
        -- A goal at the place of the source would be a file that is there.
        have hopen : d.openFile goal.text = .ok f := by
          refine openFile_eq_ok_iff.2 ⟨hw.named, hw.noSlash, hw.located, ?_⟩
          rw [he]
          exact (openFile_eq_ok_iff.1 hf).2.2.2
        simp [exists?_of_openFile hopen, he] at hne

end Disk

end ExportLint
