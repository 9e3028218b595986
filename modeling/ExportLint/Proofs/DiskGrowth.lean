import ExportLint.Disk.Basic

/-!
# File systems that grow

Writing files and making directories never takes anything away: directories stay, files stay files,
and links are neither made nor lost. So every path that leads somewhere leads there ever after, and
an operation on one place leaves all others as they are. Both the strict and the lenient way of
following a path have more fuel than they use; the number of links alone bounds them.
-/
namespace ExportLint

namespace Text

theorem length_filter_splitWhere_le (p : Char → Bool) (cs : List Char) :
    ((splitWhere p cs).filter fun piece => !piece.isEmpty).length ≤ cs.length := by
  induction cs with
  | nil => simp [splitWhere]
  | cons c cs ih =>
    simp only [splitWhere]
    split
    · simp only [List.filter_cons, List.isEmpty_nil, Bool.not_true, Bool.false_eq_true,
        ↓reduceIte, List.length_cons]
      omega
    · split
      · simp
      · rename_i piece rest hs
        rw [hs] at ih
        have hle : (rest.filter fun piece => !piece.isEmpty).length ≤
            ((piece :: rest).filter fun piece => !piece.isEmpty).length :=
          ((List.sublist_cons_self piece rest).filter _).length_le
        rw [List.filter_cons_of_pos (by rfl), List.length_cons, List.length_cons]
        omega

end Text

/-- A path has at most as many steps as characters. -/
theorem Path.length_stepsOf_le (p : String) : (Path.stepsOf p).length ≤ p.length := by
  have h := Text.length_filter_splitWhere_le (· == '/') p.toList
  simp only [Path.stepsOf, Text.splitAtChar, List.filter_map, List.length_map]
  refine Nat.le_trans ?_ h
  rw [← List.countP_eq_length_filter, ← List.countP_eq_length_filter]
  apply List.countP_mono_left
  intro piece _ hp
  cases piece with
  | nil => simp at hp
  | cons c cs => rfl

namespace Disk

variable {d d' d'' : Disk}

theorem foldl_longest_le (entries : List (Place × Entry)) (n : Nat) :
    n ≤ entries.foldl (fun n x => max n x.2.linkLength) n := by
  induction entries generalizing n with
  | nil => exact Nat.le_refl n
  | cons x xs ih => exact Nat.le_trans (Nat.le_max_left n _) (ih _)

theorem linkLength_le_foldl {entries : List (Place × Entry)} {x : Place × Entry}
    (h : x ∈ entries) (n : Nat) :
    x.2.linkLength ≤ entries.foldl (fun n x => max n x.2.linkLength) n := by
  induction entries generalizing n with
  | nil => simp at h
  | cons y ys ih =>
    rcases List.mem_cons.1 h with rfl | h
    · exact Nat.le_trans (Nat.le_max_right n _) (foldl_longest_le ys _)
    · exact ih h _

/-- No link is there without being listed. -/
theorem standing?_ne_link (here p : Place) (t : String) : standing? here p ≠ some (.link t) := by
  rw [standing?]
  split
  · simp
  · split <;> simp

theorem steps_le_longestLink {q : Place} {t : String} (h : d.entryAt? q = some (.link t)) :
    (Path.stepsOf t).length ≤ d.longestLink := by
  rcases Option.or_eq_some_iff.1 h with he | ⟨-, he⟩
  · obtain ⟨before, after, hs, -⟩ := List.lookup_eq_some_iff.1 he
    have hm : (q, Entry.link t) ∈ d.entries := by simp [hs]
    exact Nat.le_trans (Path.length_stepsOf_le t) (linkLength_le_foldl hm 0)
  · exact absurd he (standing?_ne_link d.here q t)

/-- Enough fuel to take some steps and to follow some links. -/
def Enough (d : Disk) (fuel links : Nat) (ss : List String) : Prop :=
  ss.length + links * d.longestLink ≤ fuel

theorem enough_fuelFor (d : Disk) (ss : List String) :
    d.Enough (d.fuelFor ss) linkLimit ss := by
  simp only [Enough, fuelFor, Nat.mul_succ]
  omega

theorem Enough.tail {fuel links : Nat} {s : String} {rest : List String}
    (h : d.Enough (fuel + 1) links (s :: rest)) : d.Enough fuel links rest := by
  simp only [Enough, List.length_cons] at h ⊢
  omega

theorem Enough.link {fuel n : Nat} {s t : String} {rest : List String} {q : Place}
    (h : d.Enough (fuel + 1) (n + 1) (s :: rest)) (ht : d.entryAt? q = some (.link t)) :
    d.Enough fuel n (Path.stepsOf t ++ rest) := by
  have := steps_le_longestLink ht
  simp only [Enough, List.length_cons, List.length_append, Nat.succ_mul] at h ⊢
  omega

@[simp] theorem follow_nil (d : Disk) (last : Bool) (fuel links : Nat) (at_ : Place) :
    d.follow last fuel links at_ [] = .ok at_ := by
  cases fuel <;> rfl

@[simp] theorem resolveFrom_nil (d : Disk) (fuel links : Nat) (at_ : Place) :
    d.resolveFrom fuel links at_ [] = at_ := by
  cases fuel with
  | zero => exact List.append_nil at_
  | succ fuel => rfl

/-- How a way to a place goes on: up, to a directory, along a link, or to its end, which is neither
a directory nor a link that is to be followed. -/
inductive GoesOn (d : Disk) (last : Bool) (fuel links : Nat) (at_ : Place) (s : String)
    (rest : List String) (q : Place) : Prop where
  | up (hs : s = "..") (hrest : d.follow last fuel links at_.dropLast rest = .ok q)
  | enter (hs : s ≠ "..") (he : d.entryAt? (at_ ++ [s]) = some .directory)
      (hrest : d.follow last fuel links (at_ ++ [s]) rest = .ok q)
  | along {n : Nat} (t : String) (hs : s ≠ "..") (he : d.entryAt? (at_ ++ [s]) = some (.link t))
      (hlinks : links = n + 1) (hlast : (rest.isEmpty && !last) = false)
      (hrest : d.follow last fuel n (if Path.rootOf t = "" then at_ else [])
        (Path.stepsOf t ++ rest) = .ok q)
  | stop (hs : s ≠ "..") (hd : d.entryAt? (at_ ++ [s]) ≠ some .directory)
      (hl : last = true → ∀ t, d.entryAt? (at_ ++ [s]) ≠ some (.link t))
      (hrest : rest = []) (hq : q = at_ ++ [s])

theorem follow_cons_iff {last : Bool} {fuel links : Nat} {at_ q : Place} {s : String}
    {rest : List String} : d.follow last (fuel + 1) links at_ (s :: rest) = .ok q ↔
      d.GoesOn last fuel links at_ s rest q := by
  have stop_iff (o : Obstacle) : (if rest.isEmpty then .ok (at_ ++ [s]) else .error o) =
      Except.ok q ↔ rest = [] ∧ q = at_ ++ [s] := by
    cases rest <;> simp [eq_comm]
  constructor
  · intro h
    simp only [follow] at h
    by_cases hs : s = ".."
    · rw [if_pos hs] at h
      exact .up hs h
    · rw [if_neg hs] at h
      cases he : d.entryAt? (at_ ++ [s]) with
      | none =>
        simp only [he] at h
        obtain ⟨hrest, hq⟩ := (stop_iff _).1 h
        exact .stop hs (by simp [he]) (by simp [he]) hrest hq
      | some e =>
        cases e with
        | file b =>
          simp only [he] at h
          obtain ⟨hrest, hq⟩ := (stop_iff _).1 h
          exact .stop hs (by simp [he]) (by simp [he]) hrest hq
        | directory =>
          simp only [he] at h
          exact .enter hs he h
        | link t =>
          simp only [he] at h
          split at h
          · rename_i hlast
            rw [Bool.and_eq_true, Bool.not_eq_true', List.isEmpty_iff] at hlast
            cases h
            exact .stop hs (by simp [he]) (by simp [hlast.2]) hlast.1 rfl
          · rename_i hlast
            cases links with
            | zero => cases h
            | succ n => exact .along t hs he rfl (Bool.eq_false_iff.2 hlast) h
  · intro h
    cases h with
    | up hs hrest => simp only [follow, if_pos hs, hrest]
    | enter hs he hrest => simp only [follow, if_neg hs, he, hrest]
    | along t hs he hlinks hlast hrest =>
      subst hlinks
      simp only [follow, if_neg hs, he, hlast, Bool.false_eq_true, if_false, hrest]
    | stop hs hd hl hrest hq =>
      subst hrest hq
      simp only [follow, if_neg hs]
      cases he : d.entryAt? (at_ ++ [s]) with
      | none => rfl
      | some e =>
        cases e with
        | file b => rfl
        | directory => exact absurd he hd
        | link t =>
          have hlast : last = false := Bool.eq_false_iff.2 fun hlast => hl hlast t he
          simp [hlast]

/-- One file system is another one with more in it, and perhaps other contents of its files. -/
structure Grows (d d' : Disk) : Prop where
  here : d'.here = d.here
  directory : ∀ q, d.entryAt? q = some .directory → d'.entryAt? q = some .directory
  file : ∀ q f, d.entryAt? q = some (.file f) → ∃ f', d'.entryAt? q = some (.file f')
  link : ∀ q t, d'.entryAt? q = some (.link t) ↔ d.entryAt? q = some (.link t)

theorem Grows.refl (d : Disk) : Grows d d :=
  ⟨rfl, fun _ h => h, fun _ b h => ⟨b, h⟩, fun _ _ => Iff.rfl⟩

theorem Grows.trans (h : Grows d d') (h' : Grows d' d'') : Grows d d'' where
  here := h'.here.trans h.here
  directory q hq := h'.directory q (h.directory q hq)
  file q b hq := by
    obtain ⟨b', hb⟩ := h.file q b hq
    exact h'.file q b' hb
  link q t := (h'.link q t).trans (h.link q t)

/-- What a path leads to, it leads to in every larger file system. -/
theorem Grows.follow (h : Grows d d') {last : Bool} {fuel fuel' links : Nat} {at_ q : Place}
    {ss : List String} (hf : d'.Enough fuel' links ss)
    (hq : d.follow last fuel links at_ ss = .ok q) : d'.follow last fuel' links at_ ss = .ok q := by
  induction fuel generalizing fuel' links at_ ss with
  | zero =>
    cases ss with
    | nil => rwa [follow_nil] at hq ⊢
    | cons s rest => cases hq
  | succ fuel ih =>
    cases ss with
    | nil => rwa [follow_nil] at hq ⊢
    | cons s rest =>
      cases fuel' with
      | zero => simp [Enough] at hf
      | succ fuel' =>
        rw [follow_cons_iff] at hq ⊢
        cases hq with
        | up hs hrest => exact .up hs (ih hf.tail hrest)
        | enter hs he hrest => exact .enter hs (h.directory _ he) (ih hf.tail hrest)
        | along t hs he hlinks hlast hrest =>
          have he' := (h.link _ t).2 he
          subst hlinks
          exact .along t hs he' rfl hlast (ih (hf.link he') hrest)
        | stop hs hd hl hrest hq =>
          subst hrest
          -- What was missing there may have become a directory.
          by_cases hd' : d'.entryAt? (at_ ++ [s]) = some .directory
          · exact .enter hs hd' (by rw [follow_nil, hq])
          · exact .stop hs hd' (fun hlast t he => hl hlast t ((h.link _ t).1 he)) rfl hq

/-- Where a path leads when it is followed leniently is settled by the links alone. -/
theorem Grows.resolveFrom (h : Grows d d') {fuel fuel' links : Nat} {at_ : Place}
    {ss : List String} (hf : d.Enough fuel links ss) (hf' : d'.Enough fuel' links ss) :
    d'.resolveFrom fuel' links at_ ss = d.resolveFrom fuel links at_ ss := by
  induction fuel generalizing fuel' links at_ ss with
  | zero =>
    cases ss with
    | nil => rw [resolveFrom_nil, resolveFrom_nil]
    | cons s rest => simp [Enough] at hf
  | succ fuel ih =>
    cases ss with
    | nil => rw [resolveFrom_nil, resolveFrom_nil]
    | cons s rest =>
      cases fuel' with
      | zero => simp [Enough] at hf'
      | succ fuel' =>
        simp only [Disk.resolveFrom]
        by_cases hs : s = ".."
        · rw [if_pos hs, if_pos hs]
          exact ih hf.tail hf'.tail
        · rw [if_neg hs, if_neg hs]
          by_cases hl : ∃ t n, d.entryAt? (at_ ++ [s]) = some (.link t) ∧ links = n + 1
          · obtain ⟨t, n, he, rfl⟩ := hl
            have he' := (h.link _ t).2 he
            simp only [he, he']
            exact ih (hf.link he) (hf'.link he')
          · have hl' : ¬∃ t n, d'.entryAt? (at_ ++ [s]) = some (.link t) ∧ links = n + 1 := by
              rintro ⟨t, n, he, hn⟩
              exact hl ⟨t, n, (h.link _ t).1 he, hn⟩
            split
            · rename_i t n he
              exact absurd ⟨t, n, he, rfl⟩ hl'
            · split
              · rename_i t n he _
                exact absurd ⟨t, n, he, rfl⟩ hl
              · exact ih hf.tail hf'.tail

/-- A strict way to a place is the lenient way, unless it stops at a link. -/
theorem resolveFrom_of_follow {last : Bool} {fuel links : Nat} {at_ q : Place} {ss : List String}
    (hq : d.follow last fuel links at_ ss = .ok q)
    (hl : last = true ∨ ∀ t, d.entryAt? q ≠ some (.link t)) :
    d.resolveFrom fuel links at_ ss = q := by
  induction fuel generalizing links at_ ss with
  | zero =>
    cases ss with
    | nil => simpa using hq
    | cons s rest => cases hq
  | succ fuel ih =>
    cases ss with
    | nil => simpa using hq
    | cons s rest =>
      simp only [Disk.resolveFrom]
      cases follow_cons_iff.1 hq with
      | up hs hrest =>
        rw [if_pos hs]
        exact ih hrest
      | enter hs he hrest =>
        simp only [if_neg hs, he]
        exact ih hrest
      | along t hs he hlinks _ hrest =>
        subst hlinks
        simp only [if_neg hs, he]
        exact ih hrest
      | stop hs _ hlast hrest hq =>
        have hno : ∀ t, d.entryAt? (at_ ++ [s]) ≠ some (.link t) := hl.elim hlast (hq ▸ ·)
        rw [if_neg hs, hrest, hq]
        split
        · rename_i t n he
          exact absurd he (hno t)
        · rw [resolveFrom_nil]

/-- The place that a path is found at is the place that it resolves to. -/
theorem resolve_of_locate {last : Bool} {p : String} {q : Place} (hq : d.locate last p = .ok q)
    (hl : last = true ∨ ∀ t, d.entryAt? q ≠ some (.link t)) : d.resolve p = q := by
  apply resolveFrom_of_follow hq
  rcases hl with rfl | hl
  · exact .inl rfl
  · exact .inr hl

theorem Grows.locate (h : Grows d d') {last : Bool} {p : String} {q : Place}
    (hq : d.locate last p = .ok q) : d'.locate last p = .ok q := by
  simp only [Disk.locate, h.here] at hq ⊢
  exact h.follow (enough_fuelFor _ _) hq

theorem Grows.resolve (h : Grows d d') (p : String) : d'.resolve p = d.resolve p := by
  simp only [Disk.resolve, h.here]
  exact h.resolveFrom (enough_fuelFor _ _) (enough_fuelFor _ _)

/-- A file can be opened exactly if its path leads to it. -/
theorem openFile_eq_ok_iff {p : String} {f : File} :
    d.openFile p = .ok f ↔ p.isEmpty = false ∧ endsInSlash p = false ∧
      d.locate true p = .ok (d.resolve p) ∧ d.entryAt? (d.resolve p) = some (.file f) := by
  constructor
  · intro h
    simp only [openFile, find] at h
    split at h <;> rename_i hf
    · cases h
      split at hf
      · cases hf
      · rename_i he
        split at hf
        · cases hf
        · rename_i q hq
          have hr := resolve_of_locate hq (.inl rfl)
          split at hf
          · cases hf
          · rename_i f hb
            split at hf
            · cases hf
            · rename_i hs
              cases hf
              refine ⟨by simpa using he, by simpa using hs, ?_, ?_⟩
              · rw [hr, hq]
              · rw [hr, hb]
          · rename_i e hb _
            cases hf
            exact absurd rfl (hb _)
    · cases h
    · cases h
  · intro ⟨he, hs, hq, hb⟩
    simp [openFile, find, he, hq, hb, hs]

/-- A path leads to a file that can be read and written. -/
def IsOrdinary (d : Disk) (p : String) : Prop := ∃ bytes, d.openFile p = .ok (.ordinary bytes)

/-- The file at a place holds some bytes. -/
def Holds (d : Disk) (q : Place) (bytes : List UInt8) : Prop :=
  ∃ f : File, d.entryAt? q = some (.file f) ∧ f.bytes = bytes

theorem Holds.unique {q : Place} {bytes bytes' : List UInt8} (h : d.Holds q bytes)
    (h' : d.Holds q bytes') : bytes = bytes' := by
  obtain ⟨f, hf, rfl⟩ := h
  obtain ⟨f', hf', rfl⟩ := h'
  rw [hf] at hf'
  cases hf'
  rfl

theorem Holds.ne_directory {q : Place} {bytes : List UInt8} (h : d.Holds q bytes) :
    d.entryAt? q ≠ some .directory := by
  obtain ⟨f, hf, -⟩ := h
  simp [hf]

theorem readBytes_eq_ok_iff_openFile {p : String} {bytes : List UInt8} :
    d.readBytes p = .ok bytes ↔ ∃ f, d.openFile p = .ok f ∧ f.bytes = bytes := by
  rw [readBytes]
  cases d.openFile p <;> simp

theorem readBytes_of_openFile {p : String} {f : File} (h : d.openFile p = .ok f) :
    d.readBytes p = .ok f.bytes :=
  readBytes_eq_ok_iff_openFile.2 ⟨f, h, rfl⟩

/-- A file can be read exactly if its path leads to it. -/
theorem readBytes_eq_ok_iff {p : String} {bytes : List UInt8} :
    d.readBytes p = .ok bytes ↔ p.isEmpty = false ∧ endsInSlash p = false ∧
      d.locate true p = .ok (d.resolve p) ∧ d.Holds (d.resolve p) bytes := by
  simp only [readBytes_eq_ok_iff_openFile, openFile_eq_ok_iff, Holds, and_assoc,
    exists_and_left]

/-- A path to a file still leads there when the file system has grown. -/
theorem Grows.openFile (h : Grows d d') {p : String} {f f' : File} (hr : d.openFile p = .ok f)
    (he : d'.entryAt? (d.resolve p) = some (.file f')) : d'.openFile p = .ok f' := by
  obtain ⟨hp, hs, hq, -⟩ := openFile_eq_ok_iff.1 hr
  refine openFile_eq_ok_iff.2 ⟨hp, hs, ?_, ?_⟩
  · rw [h.resolve]
    exact h.locate hq
  · rwa [h.resolve]

theorem Grows.readBytes (h : Grows d d') {p : String} {bytes bytes' : List UInt8}
    (hr : d.readBytes p = .ok bytes) (he : d'.Holds (d.resolve p) bytes') :
    d'.readBytes p = .ok bytes' := by
  obtain ⟨f, hf, -⟩ := readBytes_eq_ok_iff_openFile.1 hr
  obtain ⟨f', hf', rfl⟩ := he
  exact readBytes_of_openFile (h.openFile hf hf')

end Disk

end ExportLint
