import Mathlib.Data.List.Induction
import Mathlib.Data.List.Nodup
import ExportLint.Proofs.DiskGrowth
import ExportLint.Proofs.PathTexts

/-!
# Directory trees

Below a root there is a tree if each place has one entry, every entry is in a directory, and none is
a link. The path of the root with steps behind it then leads to the place that the steps say, what
is there tells whether it is a directory, and a directory lists what is in it.
-/
namespace ExportLint

/-- Steps that name an entry of a directory. -/
structure Path.IsName (s : String) : Prop extends Path.IsStep s where
  ne_points : s ≠ ".."

namespace Disk

/-- Below a root there is a directory tree without links. -/
structure IsTree (d : Disk) (root : String) (r : Place) : Prop where
  located : d.locate true (Path.parse root).text = .ok r
  directory : d.entryAt? r = some .directory
  unique : (d.entries.map (·.1)).Nodup
  /-- What is always there is among the entries. -/
  listed : ∀ p, standing? d.here p ≠ none → r <+: p → p ≠ r → p ∈ d.entries.map (·.1)
  below : ∀ x ∈ d.entries, r <+: x.1 → x.1 ≠ r → Path.IsName (x.1.getLast?.getD "") ∧
    d.entryAt? x.1.dropLast = some .directory ∧ ∀ t, x.2 ≠ .link t

variable {d : Disk} {root : String} {r : Place}

/-- Directories lead to what is in the last one. -/
theorem follow_below {last : Bool} {fuel links : Nat} {p : Place} {ss : List String}
    (hfuel : ss.length ≤ fuel) (hn : ∀ s ∈ ss, s ≠ "..")
    (hd : ∀ a b, ss = a ++ b → a ≠ [] → b ≠ [] → d.entryAt? (p ++ a) = some .directory)
    (hl : ss ≠ [] → ∀ t, d.entryAt? (p ++ ss) ≠ some (.link t)) :
    d.follow last fuel links p ss = .ok (p ++ ss) := by
  induction ss generalizing fuel p with
  | nil => rw [follow_nil, List.append_nil]
  | cons s ss ih =>
    cases fuel with
    | zero => simp at hfuel
    | succ fuel =>
      obtain ⟨hs, hss⟩ := List.forall_mem_cons.1 hn
      rw [follow_cons_iff]
      by_cases hdir : d.entryAt? (p ++ [s]) = some .directory
      · have happ (a : List String) : p ++ s :: a = p ++ [s] ++ a := by simp
        refine .enter hs hdir ?_
        rw [happ ss]
        refine ih (by simpa using hfuel) hss (fun a b hab ha hb => ?_) fun _ => ?_
        · rw [← happ a]
          exact hd (s :: a) b (by rw [hab]; rfl) (List.cons_ne_nil s a) hb
        · rw [← happ ss]
          exact hl (List.cons_ne_nil s ss)
      · obtain rfl : ss = [] := by
          by_contra he
          exact hdir (hd [s] ss rfl (List.cons_ne_nil s []) he)
        exact .stop hs hdir (fun _ => hl (List.cons_ne_nil s [])) rfl rfl

/-- A way to a directory goes on with steps below it. -/
theorem follow_append {last : Bool} {fuel fuel' links : Nat} {at_ : Place} {ss ts : List String}
    (h : d.follow true fuel links at_ ss = .ok r) (hr : d.entryAt? r = some .directory)
    (hf : d.Enough fuel' links (ss ++ ts)) (hlast : last = true ∨ ts ≠ [])
    (hts : ∀ fuel links, ts.length ≤ fuel → d.follow last fuel links r ts = .ok (r ++ ts)) :
    d.follow last fuel' links at_ (ss ++ ts) = .ok (r ++ ts) := by
  induction fuel generalizing fuel' links at_ ss with
  | zero =>
    cases ss with
    | nil =>
      cases (show at_ = r by simpa using h)
      exact hts fuel' links (by simp only [Enough, List.nil_append] at hf; omega)
    | cons s ss => cases h
  | succ fuel ih =>
    cases ss with
    | nil =>
      cases (show at_ = r by simpa using h)
      exact hts fuel' links (by simp only [Enough, List.nil_append] at hf; omega)
    | cons s ss =>
      cases fuel' with
      | zero => simp [Enough] at hf
      | succ fuel' =>
        rw [List.cons_append] at hf ⊢
        rw [follow_cons_iff]
        cases follow_cons_iff.1 h with
        | up hs hrest => exact .up hs (ih hrest hf.tail)
        | enter hs he hrest => exact .enter hs he (ih hrest hf.tail)
        | along t hs he hlinks _ hrest =>
          subst hlinks
          have hgoes : ((ss ++ ts).isEmpty && !last) = false := by
            rcases hlast with rfl | hne
            · rw [Bool.not_true, Bool.and_false]
            · simp [hne]
          have hf' := hf.link he
          rw [← List.append_assoc] at hf'
          refine .along t hs he rfl hgoes ?_
          rw [← List.append_assoc]
          exact ih hrest hf'
        | stop _ hd _ _ hq => exact absurd (hq ▸ hr) hd

/-- The last step of a place that is right below another one. -/
def lastStep? (place p : Place) : Option String :=
  if p.length = place.length + 1 && place.isPrefixOf p then p.getLast? else none

theorem list_eq (d : Disk) (place : Place) :
    d.list place = (d.entries.map (·.1)).filterMap (lastStep? place) := by
  rw [List.filterMap_map]
  rfl

theorem lastStep?_eq_some_iff {place p : Place} {n : String} :
    lastStep? place p = some n ↔ p = place ++ [n] := by
  unfold lastStep?
  constructor
  · intro h
    split at h
    · rename_i hp
      rw [Bool.and_eq_true, decide_eq_true_eq, List.isPrefixOf_iff_prefix] at hp
      obtain ⟨hlength, rest, rfl⟩ := hp
      rw [List.length_append, Nat.add_left_cancel_iff, List.length_eq_one_iff] at hlength
      obtain ⟨m, rfl⟩ := hlength
      rw [List.getLast?_concat] at h
      rw [Option.some.inj h]
    · cases h
  · rintro rfl
    simp

/-- With one entry for each place, an entry is found exactly if it is there. -/
theorem lookup_eq_some_iff_mem {entries : List (Place × Entry)} {p : Place} {e : Entry}
    (hu : (entries.map (·.1)).Nodup) : entries.lookup p = some e ↔ (p, e) ∈ entries := by
  constructor
  · intro hl
    obtain ⟨before, behind, hs, -⟩ := List.lookup_eq_some_iff.1 hl
    rw [hs]
    exact List.mem_append_right _ List.mem_cons_self
  · intro he
    obtain ⟨before, behind, rfl⟩ := List.append_of_mem he
    refine List.lookup_eq_some_iff.2 ⟨before, behind, rfl, fun x hx => ?_⟩
    rw [List.map_append, List.nodup_append] at hu
    have hne := hu.2.2 x.1 (List.mem_map_of_mem hx) p (by simp)
    exact bne_iff_ne.2 (Ne.symm hne)

namespace IsTree

variable (h : d.IsTree root r) {ss : List String} {e : Entry}

include h

/-- What is below the root is among the entries. -/
theorem mem_entries (hne : ss ≠ []) (he : d.entryAt? (r ++ ss) = some e) :
    (r ++ ss, e) ∈ d.entries := by
  rcases Option.or_eq_some_iff.1 he with hl | ⟨hl, hstands⟩
  · exact (lookup_eq_some_iff_mem h.unique).1 hl
  · have hm := h.listed (r ++ ss) (by simp [hstands]) (List.prefix_append _ _)
      (by simpa using hne)
    obtain ⟨x, hx, hp⟩ := List.mem_map.1 hm
    exact absurd hp.symm (by simpa using List.lookup_eq_none_iff.1 hl x hx)

/-- What is among the entries is at its place. -/
theorem entryAt?_of_mem {p : Place} (he : (p, e) ∈ d.entries) : d.entryAt? p = some e := by
  rw [entryAt?, (lookup_eq_some_iff_mem h.unique).2 he, Option.some_or]

theorem below_concat {n : String} (he : d.entryAt? (r ++ (ss ++ [n])) = some e) :
    Path.IsName n ∧ d.entryAt? (r ++ ss) = some .directory ∧ ∀ t, e ≠ .link t := by
  have hm := h.mem_entries (by simp) he
  have hb := h.below _ hm (List.prefix_append _ _) (by simp)
  simpa [← List.append_assoc] using hb

/-- What is below the root has names for its steps. -/
theorem isName_of_mem (he : d.entryAt? (r ++ ss) = some e) : ∀ s ∈ ss, Path.IsName s := by
  induction ss using List.reverseRecOn generalizing e with
  | nil => exact fun s hs => absurd hs List.not_mem_nil
  | append_singleton ss n ih =>
    obtain ⟨hn, hd, -⟩ := h.below_concat he
    intro s hs
    rcases List.mem_append.1 hs with hs | hs
    · exact ih hd s hs
    · rw [List.mem_singleton.1 hs]
      exact hn

/-- What is below the root is in directories. -/
theorem directory_above {a b : List String} (he : d.entryAt? (r ++ (a ++ b)) = some e)
    (hb : b ≠ []) : d.entryAt? (r ++ a) = some .directory := by
  induction b using List.reverseRecOn generalizing e with
  | nil => exact absurd rfl hb
  | append_singleton b n ih =>
    rw [← List.append_assoc a] at he
    obtain ⟨-, hd, -⟩ := h.below_concat he
    by_cases hb' : b = []
    · rwa [hb', List.append_nil] at hd
    · exact ih hd hb'

theorem not_link (hne : ss ≠ []) (he : d.entryAt? (r ++ ss) = some e) (t : String) :
    e ≠ .link t :=
  (h.below _ (h.mem_entries hne he) (List.prefix_append _ _) (by simpa using hne)).2.2 t

/-- The path of the root with steps behind it is told by its text. -/
theorem wellFormed_below (he : d.entryAt? (r ++ ss) = some e) :
    (Path.parse root ++ ⟨"", ss⟩ : Path).WellFormed :=
  (Path.wellFormed_parse root).append fun s hs => (h.isName_of_mem he s hs).toIsStep

/-- The path of the root with steps behind it leads to what is there. -/
theorem locate_below {last : Bool} (he : d.entryAt? (r ++ ss) = some e)
    (hlast : last = true ∨ ss ≠ []) :
    d.locate last (Path.parse root ++ ⟨"", ss⟩ : Path).text = .ok (r ++ ss) := by
  have hnames := h.isName_of_mem he
  have hroot := Path.wellFormed_parse root
  have hbelow := h.wellFormed_below he
  have hloc := h.located
  rw [locate, Path.stepsOf_text hroot, Path.rootOf_text hroot, Bool.true_or] at hloc
  rw [locate, Path.stepsOf_text hbelow, Path.rootOf_text hbelow]
  have hlast' : (last || endsInSlash (Path.parse root ++ ⟨"", ss⟩ : Path).text) = true ∨
      ss ≠ [] := by
    rcases hlast with rfl | hne
    · exact .inl (Bool.true_or _)
    · exact .inr hne
  generalize (last || endsInSlash (Path.parse root ++ ⟨"", ss⟩ : Path).text) = follows
    at hlast' ⊢
  have hgoes (fuel links : Nat) (hfuel : ss.length ≤ fuel) :
      d.follow follows fuel links r ss = .ok (r ++ ss) := by
    apply follow_below hfuel
    · exact fun s hs => (hnames s hs).ne_points
    · intro a b hab _ hb
      rw [hab] at he
      exact h.directory_above he hb
    · exact fun hne t ht => h.not_link hne ht t rfl
  exact follow_append hloc h.directory (enough_fuelFor d _) hlast' hgoes

theorem isDirectory_below_iff (he : d.entryAt? (r ++ ss) = some e) :
    d.isDirectory (Path.parse root ++ ⟨"", ss⟩ : Path).text = true ↔ e = .directory := by
  have hne : (Path.parse root ++ ⟨"", ss⟩ : Path).text.isEmpty = false := by
    simpa using Path.text_ne_empty (h.wellFormed_below he)
  simp only [isDirectory, find, hne, Bool.false_eq_true, if_false, h.locate_below he (.inl rfl), he]
  cases e with
  | file b => cases endsInSlash (Path.parse root ++ ⟨"", ss⟩ : Path).text <;> simp
  | link t => simp
  | directory => simp

theorem isLink_below (hne : ss ≠ []) (he : d.entryAt? (r ++ ss) = some e) :
    d.isLink (Path.parse root ++ ⟨"", ss⟩ : Path).text = false := by
  simp only [isLink, h.locate_below he (.inr hne), he]
  split
  · rename_i t ht
    exact absurd (Option.some.inj ht) (h.not_link hne he t)
  · rfl

/-- A directory lists what is in it. -/
theorem mem_list_iff {n : String} :
    n ∈ d.list (r ++ ss) ↔ ∃ e, d.entryAt? (r ++ (ss ++ [n])) = some e := by
  rw [list_eq, List.mem_filterMap, ← List.append_assoc]
  simp only [lastStep?_eq_some_iff]
  constructor
  · rintro ⟨p, hp, rfl⟩
    obtain ⟨⟨p, e⟩, hx, rfl⟩ := List.mem_map.1 hp
    exact ⟨e, h.entryAt?_of_mem hx⟩
  · rintro ⟨e, he⟩
    rw [List.append_assoc] at he
    have hx := h.mem_entries (by simp) he
    rw [← List.append_assoc] at hx
    exact ⟨_, List.mem_map_of_mem hx, rfl⟩

/-- No name is listed twice. -/
theorem nodup_list (place : Place) : (d.list place).Nodup := by
  rw [list_eq]
  refine List.Nodup.filterMap (fun p q n hp hq => ?_) h.unique
  rw [lastStep?_eq_some_iff.1 hp, lastStep?_eq_some_iff.1 hq]

/-- A place is no deeper than there are entries. -/
theorem length_le (he : d.entryAt? (r ++ ss) = some e) : ss.length ≤ d.entries.length := by
  -- Every step on the way has an entry of its own.
  let way := (List.range ss.length).map fun k => r ++ ss.take (k + 1)
  have hnodup : way.Nodup := by
    refine List.Nodup.map_on (fun k hk l hl hkl => ?_) List.nodup_range
    have hk := List.mem_range.1 hk
    have hl := List.mem_range.1 hl
    have hlength := congrArg List.length hkl
    simp only [List.length_append, List.length_take] at hlength
    omega
  have hsub : way ⊆ d.entries.map (·.1) := by
    intro p hp
    obtain ⟨k, hk, rfl⟩ := List.mem_map.1 hp
    have hk := List.mem_range.1 hk
    have hne : ss.take (k + 1) ≠ [] := by
      rw [← List.length_pos_iff, List.length_take]
      omega
    have hent : ∃ e', d.entryAt? (r ++ ss.take (k + 1)) = some e' := by
      by_cases hdrop : ss.drop (k + 1) = []
      · rw [← List.take_append_drop (k + 1) ss, hdrop, List.append_nil] at he
        exact ⟨e, he⟩
      · rw [← List.take_append_drop (k + 1) ss] at he
        exact ⟨_, h.directory_above he hdrop⟩
    obtain ⟨e', he'⟩ := hent
    exact List.mem_map_of_mem (h.mem_entries hne he')
  have hle := List.Nodup.length_le_of_subset hnodup hsub
  simpa [way] using hle

/-- The order of the entries says nothing about what is where. -/
theorem entryAt?_eq_of_perm {d' : Disk} (hhere : d'.here = d.here)
    (hperm : d'.entries.Perm d.entries) (p : Place) : d'.entryAt? p = d.entryAt? p := by
  have hu := ((hperm.map (·.1)).nodup_iff).2 h.unique
  have hl : d'.entries.lookup p = d.entries.lookup p := by
    apply Option.ext
    intro e
    rw [lookup_eq_some_iff_mem hu, lookup_eq_some_iff_mem h.unique, hperm.mem_iff]
  rw [entryAt?, entryAt?, hl, hhere]

theorem of_perm {d' : Disk} (hhere : d'.here = d.here) (hperm : d'.entries.Perm d.entries) :
    d'.IsTree root r := by
  have hent := h.entryAt?_eq_of_perm hhere hperm
  have hgrows : Grows d d' := ⟨hhere, fun q hq => by rw [hent, hq],
    fun q b hq => ⟨b, by rw [hent, hq]⟩, fun q t => by rw [hent]⟩
  refine ⟨hgrows.locate h.located, ?_, ((hperm.map (·.1)).nodup_iff).2 h.unique, ?_, ?_⟩
  · rw [hent]
    exact h.directory
  · intro p hp hr hne
    rw [hhere] at hp
    exact (hperm.map (·.1)).mem_iff.2 (h.listed p hp hr hne)
  · intro x hx hr hne
    rw [hent]
    exact h.below x (hperm.mem_iff.1 hx) hr hne

end IsTree

end Disk

end ExportLint
