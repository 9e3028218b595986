import ExportLint.Proofs.DirectoryTrees
import ExportLint.Proofs.GlobLanguage
import ExportLint.Scan.Walk

/-!
# The files of a scan

A scan of a directory tree lists the files that are wanted and are in no directory that is left out,
each once and in the order of their paths. A directory is left out if its path with a slash behind
it is excluded. What lies below it may be wanted all the same, unless the globs that exclude match
everything below a directory that they match.
-/
namespace ExportLint

namespace ScanOptions

/-- Files that many directories below the root may be scanned. -/
def WithinDepth (o : ScanOptions) (depth : Nat) : Prop :=
  depth = 0 ∨ o.recursive = true ∧ ∀ n, o.maxDepth = some n → (depth : Int) ≤ n

/-- Steps lead through a directory that is left out. -/
def LeavesOut (o : ScanOptions) (ss : List String) : Prop :=
  ∃ dir rest, ss = dir ++ rest ∧ dir ≠ [] ∧ rest ≠ [] ∧
    o.excludesDirectory ("/".intercalate dir) = true

theorem entersFrom_iff {o : ScanOptions} {depth : Nat} :
    o.entersFrom depth = true ↔
      o.recursive = true ∧ ∀ n, o.maxDepth = some n → (depth : Int) < n := by
  simp [entersFrom, Option.all_eq_true]

/-- Every directory on the way may be entered exactly if the last one is not too deep. -/
theorem withinDepth_iff {o : ScanOptions} {depth : Nat} :
    o.WithinDepth depth ↔ ∀ k < depth, o.entersFrom k = true := by
  constructor
  · rintro (rfl | ⟨hr, hd⟩) k hk
    · exact absurd hk (Nat.not_lt_zero k)
    · exact entersFrom_iff.2 ⟨hr, fun n hn => by have := hd n hn; omega⟩
  · intro h
    cases depth with
    | zero => exact .inl rfl
    | succ k =>
      obtain ⟨hr, hd⟩ := entersFrom_iff.1 (h k (Nat.lt_succ_self k))
      exact .inr ⟨hr, fun n hn => by have := hd n hn; omega⟩

/-- If the globs that exclude match everything below a directory that they match, what is below a
directory that is left out is not accepted. -/
theorem accepts_eq_false_of_leavesOut {o : ScanOptions} {ss : List String}
    (hs : ∀ g ∈ o.excluded, Glob.sweeps (Glob.tokens g.toList) = true)
    (hn : '\n' ∉ ("/".intercalate ss).toList) (h : o.LeavesOut ss) :
    o.accepts ("/".intercalate ss) = false := by
  obtain ⟨dir, rest, rfl, hdir, hrest, hex⟩ := h
  obtain ⟨g, hg, hm⟩ := List.any_eq_true.1 hex
  rw [Path.intercalate_append hdir hrest] at hn ⊢
  have hbelow := globMatches_below (hs g hg) hm
    (fun h => hn (by rw [String.toList_append]; exact List.mem_append_right _ h))
  have hany : matchesAny o.excluded
      ("/".intercalate dir ++ "/" ++ "/".intercalate rest) = true :=
    List.any_eq_true.2 ⟨g, hg, hbelow⟩
  rw [accepts, hany, Bool.not_true, Bool.and_false]

example : standard.excluded.all (fun g => Glob.sweeps (Glob.tokens g.toList)) = true := by decide

end ScanOptions

namespace Disk

variable {d d' : Disk} {o : ScanOptions} {root : String} {r : Place} {ss steps : List String}
  {f : String}

/-- A file is at some steps below a place, the options accept it, and it is not too deep. -/
structure Wanted (d : Disk) (o : ScanOptions) (r : Place) (ss : List String) : Prop where
  file : ∃ b, d.entryAt? (r ++ ss) = some (.file b)
  accepted : o.accepts ("/".intercalate ss) = true
  depth : o.WithinDepth (ss.length - 1)

/-- From some steps on, further steps lead to a file that is accepted, and every directory on the
way is entered. -/
def Reaches (d : Disk) (o : ScanOptions) (r : Place) : List String → List String → Prop
  | _, [] => False
  | steps, [n] =>
    (∃ b, d.entryAt? (r ++ (steps ++ [n])) = some (.file b)) ∧
      o.accepts ("/".intercalate (steps ++ [n])) = true
  | steps, n :: m :: ss =>
    d.entryAt? (r ++ (steps ++ [n])) = some .directory ∧ o.entersFrom steps.length = true ∧
      o.excludesDirectory ("/".intercalate (steps ++ [n])) = false ∧
      Reaches d o r (steps ++ [n]) (m :: ss)

/-- The accepted files in a directory. -/
def filesIn (d : Disk) (o : ScanOptions) (r : Place) (steps : List String) : List String :=
  (((d.list (r ++ steps)).filter fun n =>
    d.entryAt? (r ++ (steps ++ [n])) ≠ some .directory).map fun n =>
      "/".intercalate (steps ++ [n])).filter o.accepts

/-- The directories in a directory that are entered. -/
def enteredIn (d : Disk) (o : ScanOptions) (r : Place) (steps : List String) : List String :=
  if o.entersFrom steps.length then
    ((d.list (r ++ steps)).filter fun n =>
      d.entryAt? (r ++ (steps ++ [n])) = some .directory).filter fun n =>
        !o.excludesDirectory ("/".intercalate (steps ++ [n]))
  else []

namespace IsTree

variable (h : d.IsTree root r)

include h

/-- A walk lists the files of a directory and those of the directories that are entered. -/
theorem walk_succ (hdir : d.entryAt? (r ++ steps) = some .directory) (fuel : Nat) :
    d.walk o (Path.parse root) (fuel + 1) steps = d.filesIn o r steps ++
      (d.enteredIn o r steps).flatMap fun n => d.walk o (Path.parse root) fuel (steps ++ [n]) := by
  have hisdir (n : String) (hn : n ∈ d.list (r ++ steps)) :
      d.isDirectory (Path.parse root ++ ⟨"", steps ++ [n]⟩ : Path).text =
        decide (d.entryAt? (r ++ (steps ++ [n])) = some .directory) := by
    obtain ⟨e, he⟩ := h.mem_list_iff.1 hn
    rw [he, Bool.eq_iff_iff, h.isDirectory_below_iff he, decide_eq_true_eq, Option.some.injEq]
  have hlink (n : String) (hn : n ∈ d.list (r ++ steps)) :
      d.isLink (Path.parse root ++ ⟨"", steps ++ [n]⟩ : Path).text = false := by
    obtain ⟨e, he⟩ := h.mem_list_iff.1 hn
    exact h.isLink_below (by simp) he
  have hfiles : (d.list (r ++ steps)).filter (fun n =>
      !d.isDirectory (Path.parse root ++ ⟨"", steps ++ [n]⟩ : Path).text) =
      (d.list (r ++ steps)).filter fun n =>
        d.entryAt? (r ++ (steps ++ [n])) ≠ some .directory :=
    List.filter_congr fun n hn => by rw [hisdir n hn, decide_not]
  have hentered : ((d.list (r ++ steps)).filter fun n =>
      d.isDirectory (Path.parse root ++ ⟨"", steps ++ [n]⟩ : Path).text).filter (fun n =>
        !o.excludesDirectory ("/".intercalate (steps ++ [n])) &&
          (o.followLinks || !d.isLink (Path.parse root ++ ⟨"", steps ++ [n]⟩ : Path).text)) =
      ((d.list (r ++ steps)).filter fun n =>
        d.entryAt? (r ++ (steps ++ [n])) = some .directory).filter fun n =>
          !o.excludesDirectory ("/".intercalate (steps ++ [n])) := by
    rw [List.filter_congr hisdir]
    refine List.filter_congr fun n hn => ?_
    rw [hlink n (List.mem_filter.1 hn).1, Bool.not_false, Bool.or_true, Bool.and_true]
  simp only [walk, h.locate_below hdir (.inl rfl), hfiles, hentered]
  rfl

theorem mem_filesIn_iff : f ∈ d.filesIn o r steps ↔
    ∃ n, d.Reaches o r steps [n] ∧ f = "/".intercalate (steps ++ [n]) := by
  simp only [filesIn, List.mem_filter, List.mem_map, decide_eq_true_eq, Reaches]
  constructor
  · rintro ⟨⟨n, ⟨hn, hd⟩, rfl⟩, ha⟩
    obtain ⟨e, he⟩ := h.mem_list_iff.1 hn
    cases e with
    | file b => exact ⟨n, ⟨⟨b, he⟩, ha⟩, rfl⟩
    | link t => exact absurd rfl (h.not_link (by simp) he t)
    | directory => exact absurd he hd
  · rintro ⟨n, ⟨⟨b, hb⟩, ha⟩, rfl⟩
    refine ⟨⟨n, ⟨h.mem_list_iff.2 ⟨_, hb⟩, ?_⟩, rfl⟩, ha⟩
    rw [hb]
    exact fun he => Entry.noConfusion (Option.some.inj he)

theorem mem_enteredIn_iff {n : String} : n ∈ d.enteredIn o r steps ↔
    d.entryAt? (r ++ (steps ++ [n])) = some .directory ∧ o.entersFrom steps.length = true ∧
      o.excludesDirectory ("/".intercalate (steps ++ [n])) = false := by
  unfold enteredIn
  split
  · rename_i hdepth
    simp only [List.mem_filter, decide_eq_true_eq, Bool.not_eq_true', hdepth, true_and]
    constructor
    · exact fun hn => ⟨hn.1.2, hn.2⟩
    · exact fun hn => ⟨⟨h.mem_list_iff.2 ⟨_, hn.1⟩, hn.1⟩, hn.2⟩
  · rename_i hdepth
    simp [hdepth]

/-- A walk lists what can be reached with as many steps as it has fuel. -/
theorem mem_walk_iff (hdir : d.entryAt? (r ++ steps) = some .directory) {fuel : Nat} :
    f ∈ d.walk o (Path.parse root) fuel steps ↔
      ∃ ss, ss.length ≤ fuel ∧ d.Reaches o r steps ss ∧ f = "/".intercalate (steps ++ ss) := by
  induction fuel generalizing steps with
  | zero =>
    constructor
    · exact fun hf => absurd hf List.not_mem_nil
    · rintro ⟨ss, hle, hss, -⟩
      rw [List.eq_nil_of_length_eq_zero (Nat.le_zero.1 hle)] at hss
      exact absurd hss id
  | succ fuel ih =>
    rw [h.walk_succ hdir, List.mem_append, h.mem_filesIn_iff, List.mem_flatMap]
    constructor
    · rintro (⟨n, hn, rfl⟩ | ⟨n, hn, hf⟩)
      · exact ⟨[n], by simp, hn, rfl⟩
      · obtain ⟨hd, hdepth, hex⟩ := h.mem_enteredIn_iff.1 hn
        obtain ⟨ss, hle, hss, rfl⟩ := (ih hd).1 hf
        cases ss with
        | nil => exact absurd hss id
        | cons m ss =>
          exact ⟨n :: m :: ss, by simpa using hle, ⟨hd, hdepth, hex, hss⟩, by simp⟩
    · rintro ⟨ss, hle, hss, rfl⟩
      match ss, hss with
      | [n], hn => exact .inl ⟨n, hn, rfl⟩
      | n :: m :: ss, ⟨hd, hdepth, hex, hss⟩ =>
        refine .inr ⟨n, h.mem_enteredIn_iff.2 ⟨hd, hdepth, hex⟩, (ih hd).2 ?_⟩
        exact ⟨m :: ss, by simpa using hle, hss, by simp⟩

/-- Steps reach a file exactly if it is one, it is accepted, and the directories on the way may all
be entered and are not left out. -/
theorem reaches_iff : d.Reaches o r steps ss ↔
    ss ≠ [] ∧ (∃ b, d.entryAt? (r ++ (steps ++ ss)) = some (.file b)) ∧
      o.accepts ("/".intercalate (steps ++ ss)) = true ∧
      (∀ k < ss.length - 1, o.entersFrom (steps.length + k) = true) ∧
      ∀ dir rest, ss = dir ++ rest → dir ≠ [] → rest ≠ [] →
        o.excludesDirectory ("/".intercalate (steps ++ dir)) = false := by
  induction ss generalizing steps with
  | nil => exact ⟨False.elim, fun h => absurd rfl h.1⟩
  | cons n ss ih =>
    cases ss with
    | nil =>
      constructor
      · rintro ⟨hfile, ha⟩
        refine ⟨List.cons_ne_nil n [], hfile, ha, fun k hk => absurd hk (Nat.not_lt_zero k), ?_⟩
        intro dir rest he hdir hrest
        have hlength := congrArg List.length he
        have := List.length_pos_iff.2 hdir
        have := List.length_pos_iff.2 hrest
        simp only [List.length_cons, List.length_nil, List.length_append] at hlength
        omega
      · exact fun hr => ⟨hr.2.1, hr.2.2.1⟩
    | cons m ss =>
      have happ : steps ++ [n] ++ m :: ss = steps ++ n :: m :: ss := by simp
      rw [Reaches, ih, happ]
      constructor
      · rintro ⟨-, hdepth, hex, -, hfile, ha, hdepths, hexs⟩
        refine ⟨List.cons_ne_nil _ _, hfile, ha, fun k hk => ?_, ?_⟩
        · cases k with
          | zero => exact hdepth
          | succ k =>
            have hk := hdepths k (by simp only [List.length_cons] at hk ⊢; omega)
            rwa [List.length_append, List.length_singleton, Nat.add_assoc, Nat.add_comm 1] at hk
        · intro dir rest he hdir hrest
          obtain ⟨n', dir, rfl⟩ := List.exists_cons_of_ne_nil hdir
          obtain ⟨rfl, htail⟩ := List.cons.inj he
          by_cases hd : dir = []
          · rw [hd]
            exact hex
          · have hx := hexs dir rest htail hd hrest
            rwa [List.append_assoc, List.singleton_append] at hx
      · rintro ⟨-, ⟨b, hb⟩, ha, hdepths, hexs⟩
        have hdir : d.entryAt? (r ++ (steps ++ [n])) = some .directory := by
          rw [← happ] at hb
          exact h.directory_above hb (List.cons_ne_nil m ss)
        refine ⟨hdir, hdepths 0 (by simp), hexs [n] _ rfl (List.cons_ne_nil n [])
          (List.cons_ne_nil m ss), List.cons_ne_nil m ss, ⟨b, hb⟩, ha, fun k hk => ?_, ?_⟩
        · have hk := hdepths (k + 1) (by simp only [List.length_cons] at hk ⊢; omega)
          rwa [List.length_append, List.length_singleton, Nat.add_assoc, Nat.add_comm 1]
        · intro dir rest he hd hrest
          have hx := hexs (n :: dir) rest (by rw [he]; rfl) (List.cons_ne_nil n dir) hrest
          rwa [List.append_assoc, List.singleton_append]

theorem reaches_root_iff : d.Reaches o r [] ss ↔ d.Wanted o r ss ∧ ¬o.LeavesOut ss := by
  rw [h.reaches_iff]
  simp only [List.nil_append, List.length_nil, Nat.zero_add, ← ScanOptions.withinDepth_iff]
  constructor
  · rintro ⟨-, hfile, ha, hdepth, hex⟩
    refine ⟨⟨hfile, ha, hdepth⟩, ?_⟩
    rintro ⟨dir, rest, he, hdir, hrest, htrue⟩
    rw [hex dir rest he hdir hrest] at htrue
    cases htrue
  · rintro ⟨⟨⟨b, hb⟩, ha, hdepth⟩, hleft⟩
    refine ⟨?_, ⟨b, hb⟩, ha, hdepth, fun dir rest he hdir hrest => ?_⟩
    · rintro rfl
      rw [List.append_nil, h.directory] at hb
      cases hb
    · exact Bool.eq_false_iff.2 fun htrue => hleft ⟨dir, rest, he, hdir, hrest, htrue⟩

/-- What has names for its steps is told by its text. -/
theorem eq_of_intercalate_eq {ts : List String} {e e' : Entry}
    (he : d.entryAt? (r ++ ss) = some e) (he' : d.entryAt? (r ++ ts) = some e')
    (heq : "/".intercalate ss = "/".intercalate ts) : ss = ts := by
  rw [← Path.stepsOf_intercalate fun s hs => (h.isName_of_mem he s hs).toIsStep, heq,
    Path.stepsOf_intercalate fun s hs => (h.isName_of_mem he' s hs).toIsStep]

theorem nodup_filesIn : (d.filesIn o r steps).Nodup := by
  refine List.Nodup.filter _ (List.Nodup.map_on (fun n hn m hm heq => ?_) ?_)
  · obtain ⟨e, he⟩ := h.mem_list_iff.1 (List.mem_filter.1 hn).1
    obtain ⟨e', he'⟩ := h.mem_list_iff.1 (List.mem_filter.1 hm).1
    simpa using h.eq_of_intercalate_eq he he' heq
  · exact (h.nodup_list _).filter _

theorem nodup_enteredIn : (d.enteredIn o r steps).Nodup := by
  unfold enteredIn
  split
  · exact ((h.nodup_list _).filter _).filter _
  · exact List.nodup_nil

/-- No file is listed twice. -/
theorem nodup_walk (hdir : d.entryAt? (r ++ steps) = some .directory) (fuel : Nat) :
    (d.walk o (Path.parse root) fuel steps).Nodup := by
  induction fuel generalizing steps with
  | zero => exact List.nodup_nil
  | succ fuel ih =>
    rw [h.walk_succ hdir, List.nodup_append, List.nodup_flatMap]
    -- What is listed in a directory has the name of that directory for its next step.
    have hbelow {n f : String} (hn : n ∈ d.enteredIn o r steps)
        (hf : f ∈ d.walk o (Path.parse root) fuel (steps ++ [n])) :
        ∃ b ss, ss ≠ [] ∧ d.entryAt? (r ++ (steps ++ n :: ss)) = some (.file b) ∧
          f = "/".intercalate (steps ++ n :: ss) := by
      obtain ⟨ss, -, hss, rfl⟩ := (h.mem_walk_iff (h.mem_enteredIn_iff.1 hn).1).1 hf
      obtain ⟨hne, ⟨b, hb⟩, -⟩ := h.reaches_iff.1 hss
      rw [List.append_assoc, List.singleton_append] at hb ⊢
      exact ⟨b, ss, hne, hb, rfl⟩
    refine ⟨h.nodup_filesIn, ⟨fun n hn => ih (h.mem_enteredIn_iff.1 hn).1, ?_⟩, ?_⟩
    · refine h.nodup_enteredIn.pairwise_of_forall_ne fun n hn m hm hne f hf hg => ?_
      obtain ⟨b, ss, -, hb, rfl⟩ := hbelow hn hf
      obtain ⟨b', ts, -, hb', heq⟩ := hbelow hm hg
      have hcons := List.append_cancel_left (h.eq_of_intercalate_eq hb hb' heq)
      exact hne (List.cons.inj hcons).1
    · intro f hf g hg hfg
      obtain ⟨n, ⟨⟨b, hb⟩, -⟩, rfl⟩ := h.mem_filesIn_iff.1 hf
      obtain ⟨m, hm, hg⟩ := List.mem_flatMap.1 hg
      obtain ⟨b', ss, hne, hb', rfl⟩ := hbelow hm hg
      have hcons := List.append_cancel_left (h.eq_of_intercalate_eq hb hb' hfg)
      exact hne (List.cons.inj hcons).2.symm

/-- A walk from the root lists the wanted files that are in no directory that is left out. -/
theorem mem_walk_root_iff : f ∈ d.walk o (Path.parse root) d.depthBound [] ↔
    ∃ ss, (d.Wanted o r ss ∧ ¬o.LeavesOut ss) ∧ f = "/".intercalate ss := by
  rw [h.mem_walk_iff (by rw [List.append_nil]; exact h.directory)]
  constructor
  · rintro ⟨ss, -, hss, rfl⟩
    exact ⟨ss, h.reaches_root_iff.1 hss, rfl⟩
  · rintro ⟨ss, hss, rfl⟩
    obtain ⟨b, hb⟩ := hss.1.file
    refine ⟨ss, ?_, h.reaches_root_iff.2 hss, rfl⟩
    have hle := h.length_le hb
    have : d.entries.length ≤ (linkLimit + 1) * (d.entries.length + 1) := by
      rw [Nat.add_one_mul, Nat.mul_add_one]
      omega
    rw [depthBound]
    omega

/-- A scan of a tree lists what a walk lists, in the order of the paths. -/
theorem exists_scan_eq : ∃ fs : List String,
    d.scan o root = fs.map (fun f => (Path.parse root ++ Path.parse f).text) ∧
      fs.Pairwise (· < ·) ∧
      ∀ f, f ∈ fs ↔ ∃ ss, (d.Wanted o r ss ∧ ¬o.LeavesOut ss) ∧ f = "/".intercalate ss := by
  have hroot : d.isDirectory (Path.parse root).text = true := by
    have hdir : d.entryAt? (r ++ []) = some .directory := by
      rw [List.append_nil]
      exact h.directory
    have hself := h.isDirectory_below_iff hdir
    rw [Path.append_steps, List.append_nil] at hself
    exact hself.2 rfl
  have hperm := List.mergeSort_perm (d.walk o (Path.parse root) d.depthBound [])
    fun a b => decide (a ≤ b)
  refine ⟨_, by rw [scan, if_pos hroot], ?_, fun f => ?_⟩
  · have hle : ((d.walk o (Path.parse root) d.depthBound []).mergeSort
        fun a b => decide (a ≤ b)).Pairwise fun a b => decide (a ≤ b) = true :=
      List.pairwise_mergeSort (by simpa using fun a b c => String.le_trans)
        (by simpa using String.le_total) _
    have hnodup := hperm.nodup_iff.2 (h.nodup_walk (by rw [List.append_nil]; exact h.directory) _)
    refine (hle.and hnodup).imp fun {a b} hab => ?_
    have hab' : a ≤ b := of_decide_eq_true hab.1
    exact Decidable.not_not.1 fun hlt => hab.2 (String.le_antisymm hab' (String.not_lt.1 hlt))
  · rw [hperm.mem_iff, h.mem_walk_root_iff]

/-- The order in which directories are listed makes no difference. -/
theorem scan_eq_of_perm (hhere : d'.here = d.here) (hperm : d'.entries.Perm d.entries) :
    d'.scan o root = d.scan o root := by
  have hent := h.entryAt?_eq_of_perm hhere hperm
  obtain ⟨fs, hscan, hsorted, hmem⟩ := h.exists_scan_eq (o := o)
  obtain ⟨fs', hscan', hsorted', hmem'⟩ := (h.of_perm hhere hperm).exists_scan_eq (o := o)
  have hwanted {ss : List String} : d'.Wanted o r ss ↔ d.Wanted o r ss := by
    constructor
    · exact fun hw => ⟨by rw [← hent]; exact hw.file, hw.accepted, hw.depth⟩
    · exact fun hw => ⟨by rw [hent]; exact hw.file, hw.accepted, hw.depth⟩
  have hnodup {fs : List String} (hs : fs.Pairwise (· < ·)) : fs.Nodup := by
    refine List.Pairwise.imp ?_ hs
    rintro a b hlt rfl
    exact String.lt_irrefl a hlt
  have hfs : fs'.Perm fs := by
    refine (List.perm_ext_iff_of_nodup (hnodup hsorted') (hnodup hsorted)).2 fun f => ?_
    rw [hmem, hmem']
    simp only [hwanted]
  have heq : fs' = fs := hfs.eq_of_pairwise
    (fun a b _ _ hab hba => absurd hba (String.lt_asymm hab)) hsorted' hsorted
  rw [hscan, hscan', heq]

end IsTree

/-- A scan of a directory tree lists the files that are accepted and not too deep, unless they are
below a directory that is left out: each once, in the order of their paths and by a path that leads
to it, whatever the order is in which directories are listed. It lists all of them exactly if none
is below such a directory, and whenever the globs that exclude match everything below a directory
that they match. -/
theorem scan_lists_wanted (h : d.IsTree root r) : ∃ fs : List String,
    d.scan o root = fs.map (fun f => (Path.parse root ++ Path.parse f).text) ∧
    (∀ d' : Disk, d'.here = d.here → d'.entries.Perm d.entries →
      d'.scan o root = d.scan o root) ∧
    fs.Pairwise (· < ·) ∧
    (∀ f, f ∈ fs ↔ ∃ ss, (d.Wanted o r ss ∧ ¬o.LeavesOut ss) ∧ f = "/".intercalate ss) ∧
    (∀ ss, d.Wanted o r ss →
      d.locate true (Path.parse root ++ Path.parse ("/".intercalate ss)).text = .ok (r ++ ss)) ∧
    ((∀ ss, d.Wanted o r ss → "/".intercalate ss ∈ fs) ↔
      ∀ ss, d.Wanted o r ss → ¬o.LeavesOut ss) ∧
    ((∀ g ∈ o.excluded, Glob.sweeps (Glob.tokens g.toList) = true) →
      ∀ ss, d.Wanted o r ss → '\n' ∉ ("/".intercalate ss).toList → "/".intercalate ss ∈ fs) := by
  obtain ⟨fs, hscan, hsorted, hmem⟩ := h.exists_scan_eq (o := o)
  refine ⟨fs, hscan, fun d' => h.scan_eq_of_perm, hsorted, hmem, fun ss hw => ?_,
    ⟨fun hall ss hw => ?_, ?_⟩, ?_⟩
  · obtain ⟨b, hb⟩ := hw.file
    rw [Path.parse_intercalate fun s hs => (h.isName_of_mem hb s hs).toIsStep]
    exact h.locate_below hb (.inl rfl)
  · obtain ⟨ss', ⟨hw', hleft⟩, heq⟩ := (hmem _).1 (hall ss hw)
    obtain ⟨b, hb⟩ := hw.file
    obtain ⟨b', hb'⟩ := hw'.file
    rwa [h.eq_of_intercalate_eq hb hb' heq]
  · exact fun hall ss hw => (hmem _).2 ⟨ss, ⟨hw, hall ss hw⟩, rfl⟩
  · intro hs ss hw hn
    refine (hmem _).2 ⟨ss, ⟨hw, fun hleft => ?_⟩, rfl⟩
    have hnot := ScanOptions.accepts_eq_false_of_leavesOut hs hn hleft
    rw [hw.accepted] at hnot
    cases hnot

/-- A file two steps below a directory. -/
def distDisk : Disk where
  here := []
  entries := [(["p"], .directory), (["p", "dist"], .directory), (["p", "dist", "sub"], .directory),
    (["p", "dist", "sub", "a.ts"], .file (.ordinary [])), (["p", "b.ts"], .file (.ordinary []))]

/-- What is right in the directory is excluded, and what is further below is not. -/
def distOptions : ScanOptions := { included := ["**/*.ts"], excluded := ["dist/*"] }

theorem isTree_distDisk : distDisk.IsTree "p" ["p"] where
  located := by decide +kernel
  directory := by decide
  unique := by decide
  listed p hp hr := by
    -- What is always there is not below the directory.
    obtain ⟨ss, rfl⟩ := hr
    simp [distDisk, standing?] at hp
  below x hx hr hne := by
    simp only [distDisk, List.mem_cons, List.not_mem_nil, or_false] at hx
    rcases hx with rfl | rfl | rfl | rfl | rfl
    · exact absurd rfl hne
    all_goals exact ⟨⟨⟨by decide, by decide, by decide⟩, by decide⟩, by decide, fun _ h => by cases h⟩

/-- The file is wanted, and the scan drops it. -/
theorem distDisk_drops_wanted : ∃ fs : List String,
    distDisk.scan distOptions "p" = fs.map (fun f => (Path.parse "p" ++ Path.parse f).text) ∧
      ¬∀ ss, distDisk.Wanted distOptions ["p"] ss → "/".intercalate ss ∈ fs := by
  obtain ⟨fs, hscan, -, -, -, -, hiff, -⟩ := scan_lists_wanted isTree_distDisk (o := distOptions)
  refine ⟨fs, hscan, fun hall => ?_⟩
  have hwanted : distDisk.Wanted distOptions ["p"] ["dist", "sub", "a.ts"] :=
    ⟨⟨.ordinary [], by decide⟩, by decide +kernel, .inr ⟨rfl, by decide⟩⟩
  refine hiff.1 hall _ hwanted ⟨["dist"], ["sub", "a.ts"], rfl, by decide, by decide, ?_⟩
  decide +kernel

end Disk

end ExportLint
