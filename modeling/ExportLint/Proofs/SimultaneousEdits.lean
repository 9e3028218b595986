import Mathlib.Data.List.Induction
import ExportLint.Fix.Run
import ExportLint.Proofs.DiskWriting
import ExportLint.Proofs.LineEdits

/-!
# Edits as one change of the lines

What a run makes of the lines above a line does not depend on what it made of the lines below. So
all edits could as well be judged by the lines as they were: the lines after a run are, line by
line, what the edit that replaces the line makes of it, and then the insertions behind it.
-/
namespace ExportLint.Fix

/-- The texts that are inserted behind a line, in the order of their edits. -/
def addedAt (edits : List Edit) (n : Int) : List String :=
  (edits.filter fun e => e.kind = .add ∧ e.line = some n).map (·.text)

/-- The first edit that replaces a line. -/
def replacing? (edits : List Edit) (n : Int) : Option Edit :=
  edits.find? fun e => e.kind.replacesLine && e.line == some n

/-- What becomes of a line. -/
def lineAfter (edits : List Edit) (n : Int) (x : String) : List String :=
  match replacing? edits n with
  | none => [x]
  | some e => replaced e x

/-- Every line after its edits, and the insertions behind it. -/
def linesAfter (edits : List Edit) (lines : List String) : List String :=
  (lines.zipIdx 1).flatMap fun (x, n) => lineAfter edits n x ++ addedAt edits n

theorem linesAfter_append (edits : List Edit) (before : List String) (x : String) :
    linesAfter edits (before ++ [x]) = linesAfter edits before ++
      (lineAfter edits (before.length + 1) x ++ addedAt edits (before.length + 1)) := by
  have h : ((1 + before.length : Nat) : Int) = before.length + 1 := by omega
  simp [linesAfter, List.zipIdx_append, h]

theorem map_fst_filter_zipIdx (edits : List Edit) (p : Edit → Bool) :
    (edits.zipIdx.filter fun x => p x.1).map Prod.fst = edits.filter p := by
  have h : (edits.zipIdx.map Prod.fst).filter p =
      (edits.zipIdx.filter fun x => p x.1).map Prod.fst := List.filter_map
  rw [← h, List.zipIdx_map_fst]

theorem height_eq_iff {e : Edit} {n : Int} (h : n ≠ 0 ∨ e.line.isSome = true) :
    e.height = n ↔ e.line = some n := by
  cases hl : e.line with
  | none => simp [Edit.height, hl] at h ⊢; omega
  | some m => simp [Edit.height, hl]

theorem map_additionsAt {edits : List Edit} {n : Int}
    (h : ∀ e ∈ edits, n ≠ 0 ∨ e.line.isSome = true) :
    (additionsAt edits n).map (·.1.text) = addedAt edits n := by
  have hf : (additionsAt edits n).map Prod.fst =
      edits.filter fun e => e.kind = .add ∧ e.line = some n := by
    rw [additionsAt, map_fst_filter_zipIdx edits fun e => !e.kind.replacesLine && e.height == n]
    apply List.filter_congr
    intro e he
    rw [Bool.eq_iff_iff, Bool.and_eq_true, Bool.not_eq_true', ← Bool.not_eq_true, replacesLine_iff,
      beq_iff_eq, height_eq_iff (h e he), decide_eq_true_iff, Decidable.not_not]
  rw [addedAt, ← hf, List.map_map]
  rfl

theorem map_replacementsAt {edits : List Edit} {n : Int} (h : n ≠ 0) :
    (replacementsAt edits n).map Prod.fst =
      edits.filter fun e => e.kind.replacesLine && e.line == some n := by
  rw [replacementsAt, map_fst_filter_zipIdx edits fun e => e.kind.replacesLine && e.height == n]
  apply List.filter_congr
  intro e _
  rw [Bool.eq_iff_iff, Bool.and_eq_true, Bool.and_eq_true, beq_iff_eq, beq_iff_eq,
    height_eq_iff (.inl h)]

theorem replacing?_eq_head? {edits : List Edit} {n : Int} (h : n ≠ 0) :
    replacing? edits n = (replacementsAt edits n).head?.map Prod.fst := by
  rw [replacing?, ← List.head?_filter, ← map_replacementsAt h, List.head?_map]

theorem mem_additionsAt {edits : List Edit} {n : Int} (h : n ≠ 0) {x : Edit × Nat}
    (hx : x ∈ additionsAt edits n) : x.1.kind = .add ∧ x.1.line = some n := by
  rw [additionsAt, List.mem_filter, Bool.and_eq_true, Bool.not_eq_true', ← Bool.not_eq_true,
    replacesLine_iff, Decidable.not_not, beq_iff_eq, height_eq_iff (.inl h)] at hx
  exact hx.2

theorem mem_replacementsAt {edits : List Edit} {n : Int} (h : n ≠ 0) {x : Edit × Nat}
    (hx : x ∈ replacementsAt edits n) : x.1.kind.replacesLine = true ∧ x.1.line = some n := by
  have hm : x.1 ∈ (replacementsAt edits n).map Prod.fst := List.mem_map_of_mem hx
  rw [map_replacementsAt h, List.mem_filter, Bool.and_eq_true, beq_iff_eq] at hm
  exact hm.2

/-- An edit that puts what is there in its place. -/
structure Idle (e : Edit) (x : String) : Prop where
  keeps : e.kind ≠ .remove
  expected : e.expected = some x
  text : e.text = x

/-- Edits of a line come to one change of it: there is one at most, or all of them are idle. -/
def OneChange (edits : List Edit) (n : Int) (x : String) : Prop :=
  (replacementsAt edits n).length ≤ 1 ∨ ∀ r ∈ replacementsAt edits n, Idle r.1 x

theorem Idle.replaced {e : Edit} {x : String} (h : Idle e x) : Fix.replaced e x = [x] := by
  simp [Fix.replaced, h.expected, h.keeps, h.text]

theorem faultOn_replacement {before : List String} {x : String} {e : Edit} {n : Int}
    (hk : e.kind.replacesLine = true) (hl : e.line = some n) (hn : n = before.length + 1) :
    faultOn (before ++ [x]) e = if e.expected.any (· != x) then some (.stale n) else none := by
  have h := applyEdit_replace [] (x := x) hk hl hn
  cases hf : faultOn (before ++ [x]) e with
  | some f =>
    rw [applyEdit_of_fault hf] at h
    split at h
    · rename_i hs
      rw [if_pos hs, Except.error.inj h]
    · cases h
  | none =>
    obtain ⟨m, hm, hs⟩ := faultOn_eq_none_iff.1 hf
    rw [hl] at hm
    cases hm
    rcases hs with hs | ⟨-, y, hy, hs⟩
    · exact absurd hs (replacesLine_iff.1 hk)
    · have hi : (n - 1).toNat = before.length := by omega
      have hxy : x = y := by simpa [hi] using hy
      rcases hs with hs | hs <;> simp [hs, hxy]

theorem applyInTurn_idle {before behind : List String} {x : String} {n : Int}
    {rs : List (Edit × Nat)} (hn : n = before.length + 1)
    (hr : ∀ r ∈ rs, r.1.kind.replacesLine = true ∧ r.1.line = some n)
    (hi : ∀ r ∈ rs, Idle r.1 x) :
    applyInTurn rs (before ++ x :: behind) = ([], before ++ x :: behind) := by
  induction rs with
  | nil => rfl
  | cons r rs ih =>
    obtain ⟨hk, hl⟩ := hr r List.mem_cons_self
    have he := hi r List.mem_cons_self
    have hs : ¬(r.1.expected.any (· != x)) = true := by simp [he.expected]
    simp only [applyInTurn, applyEdit_replace _ hk hl hn, if_neg hs, he.replaced]
    rw [List.append_assoc, List.singleton_append]
    exact ih (fun y hy => hr y (List.mem_cons_of_mem _ hy))
      fun y hy => hi y (List.mem_cons_of_mem _ hy)

/-- The replacements of a line put what becomes of it in its place. -/
theorem applyInTurn_replacements {edits : List Edit} {before behind : List String} {x : String}
    {n : Int} (hn : n = before.length + 1) (h : OneChange edits n x) :
    applyInTurn (replacementsAt edits n) (before ++ x :: behind) =
      (faultsOn (before ++ [x]) (replacementsAt edits n),
        before ++ lineAfter edits n x ++ behind) := by
  have h0 : n ≠ 0 := by omega
  have hr : ∀ r ∈ replacementsAt edits n, r.1.kind.replacesLine = true ∧ r.1.line = some n :=
    fun r hm => mem_replacementsAt h0 hm
  rw [lineAfter, replacing?_eq_head? h0]
  rcases h with h | h
  · match hs : replacementsAt edits n with
    | [] => simp [applyInTurn, faultsOn]
    | [r] =>
      obtain ⟨hk, hl⟩ := hr r (by simp [hs])
      simp only [applyInTurn, applyEdit_replace _ hk hl hn, faultsOn_cons,
        faultOn_replacement hk hl hn, List.head?_cons, Option.map_some]
      by_cases he : r.1.expected.any (· != x) = true
      · simp [he, replaced, faultsOn]
      · simp [he, faultsOn]
    | _ :: _ :: _ => simp [hs] at h
  · rw [applyInTurn_idle hn hr h, faultsOn_eq_nil]
    · cases hs : (replacementsAt edits n).head? with
      | none => simp
      | some r =>
        have hm := List.mem_of_head? hs
        simp [(h r hm).replaced]
    · intro r hm
      obtain ⟨hk, hl⟩ := hr r hm
      rw [faultOn_replacement hk hl hn]
      simp [(h r hm).expected]

/-- A run from the last line of some lines upwards edits them at once, whatever is behind them. -/
theorem applyInTurn_runFrom {edits : List Edit} {lines : List String} (behind : List String)
    (h : ∀ (k : Nat) x, lines[k]? = some x → OneChange edits (k + 1) x) :
    applyInTurn (runFrom edits lines.length) (lines ++ behind) =
      (faultsOn lines (runFrom edits lines.length),
        (insertedTexts (runFrom edits 0)).reverse ++ linesAfter edits lines ++ behind) := by
  induction lines using List.reverseRecOn generalizing behind with
  | nil =>
    have ht : ∀ x ∈ runFrom edits 0, x.1.height ≤ 0 := fun x hx => by
      simpa [runFrom] using (List.mem_filter.1 hx).2
    simpa [linesAfter] using @applyInTurn_top behind _ ht
  | append_singleton before x ih =>
    have hn : ((before ++ [x]).length : Int) = before.length + 1 := by simp
    have h0 : (before.length : Int) + 1 ≠ 0 := by omega
    have hadd : ∀ y ∈ (additionsAt edits (before.length + 1)).reverse,
        y.1.kind = .add ∧ y.1.line = some ((before ++ [x]).length : Int) := by
      intro y hy
      rw [hn]
      exact mem_additionsAt h0 (List.mem_reverse.1 hy)
    have hone : OneChange edits (before.length + 1) x := h before.length x (by simp)
    have hih := fun rest => ih rest fun k y hy => h k y <| by
      rw [List.getElem?_append_left (List.getElem?_eq_some_iff.1 hy).1]
      exact hy
    have hnone : faultsOn (before ++ [x]) (additionsAt edits (before.length + 1)).reverse = [] := by
      refine faultsOn_eq_nil fun y hy => faultOn_eq_none_iff.2 ?_
      exact ⟨_, (hadd y hy).2, .inl (hadd y hy).1⟩
    have hup : faultsOn (before ++ [x]) (runFrom edits before.length) =
        faultsOn before (runFrom edits before.length) := by
      refine faultsOn_congr fun y hy => faultOn_append ?_ [x]
      simpa [runFrom] using (List.mem_filter.1 hy).2
    -- The insertions and the replacements of the last line, and then the lines above it.
    rw [hn, runFrom_succ, applyInTurn_append, applyInTurn_append, applyInTurn_additions _ hadd,
      List.map_reverse, List.reverse_reverse, map_additionsAt fun _ _ => .inl h0]
    simp only [List.append_assoc, List.nil_append, List.cons_append]
    rw [applyInTurn_replacements rfl hone, List.append_assoc, hih, faultsOn_append, faultsOn_append,
      hnone, hup, linesAfter_append]
    simp only [List.nil_append, List.append_assoc]

/-- If the edits below all lines put something behind them, then a run edits the lines at once. -/
theorem applyInTurn_runOrder {edits : List Edit} {lines behind : List String}
    (h : ∀ (k : Nat) x, lines[k]? = some x → OneChange edits (k + 1) x)
    (hb : applyInTurn (runBelow edits lines.length) lines =
      (faultsOn lines (runBelow edits lines.length), lines ++ behind)) :
    applyInTurn (runOrder edits) lines =
      (faultsOn lines (runOrder edits),
        (insertedTexts (runFrom edits 0)).reverse ++ linesAfter edits lines ++ behind) := by
  rw [runOrder_eq edits lines.length, applyInTurn_append, hb, applyInTurn_runFrom behind h,
    faultsOn_append]

theorem lookup_faultsOn_runOrder {lines : List String} {edits : List Edit} {e : Edit} {i : Nat}
    (h : edits[i]? = some e) : (faultsOn lines (runOrder edits)).lookup i = faultOn lines e := by
  apply lookup_faultsOn
  · rintro x hx rfl
    rw [mem_runOrder, h] at hx
    exact (Option.some.inj hx).symm
  · exact .inl (mem_runOrder.2 h)

/-- Edits at once: every edit is judged by the lines as they were. -/
theorem applyEdits_eq {edits : List Edit} {lines behind : List String}
    (h : ∀ (k : Nat) x, lines[k]? = some x → OneChange edits (k + 1) x)
    (hb : applyInTurn (runBelow edits lines.length) lines =
      (faultsOn lines (runBelow edits lines.length), lines ++ behind)) :
    applyEdits lines edits = (edits.map fun e => (e, faultOn lines e),
      (insertedTexts (runFrom edits 0)).reverse ++ linesAfter edits lines ++ behind) := by
  have hm : (edits.zipIdx.map fun x => (x.1, (faultsOn lines (runOrder edits)).lookup x.2)) =
      edits.zipIdx.map ((fun e => (e, faultOn lines e)) ∘ Prod.fst) := by
    apply List.map_congr_left
    intro x hx
    rw [lookup_faultsOn_runOrder (List.mem_zipIdx_iff_getElem?.1 hx)]
    rfl
  simp only [applyEdits, applyInTurn_runOrder h hb]
  rw [hm, ← List.map_map, List.zipIdx_map_fst]

instance (lines : List String) (e : Edit) : Decidable (Suits lines e) :=
  decidable_of_iff _ faultOn_eq_none_iff

theorem applyInTurn_of_faults {lines : List String} {xs : List (Edit × Nat)}
    (h : ∀ x ∈ xs, (faultOn lines x.1).isSome = true) :
    applyInTurn xs lines = (faultsOn lines xs, lines) := by
  induction xs with
  | nil => rfl
  | cons x xs ih =>
    obtain ⟨f, hf⟩ := Option.isSome_iff_exists.1 (h x List.mem_cons_self)
    have hxs := ih fun y hy => h y (List.mem_cons_of_mem _ hy)
    simp only [applyInTurn, applyEdit_of_fault hf, hxs]
    simp [faultsOn_cons, hf]

/-- The edits of a file each have a line. At most one of them replaces a line, and those that insert
one do so between the top and the end of the lines. -/
structure Apart (lines : List String) (edits : List Edit) : Prop where
  placed : ∀ e ∈ edits, e.line.isSome = true
  distinct : (edits.filter (·.kind.replacesLine)).Pairwise fun a b => a.line ≠ b.line
  inside : ∀ e ∈ edits, e.kind = .add → 0 ≤ e.height ∧ e.height ≤ lines.length

namespace Apart

variable {lines : List String} {edits : List Edit}

theorem oneChange (h : Apart lines edits) {n : Int} (hn : n ≠ 0) (x : String) :
    OneChange edits n x := by
  left
  have hd : ((replacementsAt edits n).map Prod.fst).Pairwise fun a b => a.line ≠ b.line := by
    have hf := h.distinct.filter fun e => e.line == some n
    rw [map_replacementsAt hn]
    rwa [List.filter_filter, List.filter_congr fun e _ => Bool.and_comm _ _] at hf
  have hl : ∀ r ∈ replacementsAt edits n, r.1.line = some n :=
    fun r hr => (mem_replacementsAt hn hr).2
  match hs : replacementsAt edits n with
  | [] => simp
  | [_] => simp
  | a :: b :: _ =>
    rw [hs] at hd hl
    have hne := (List.pairwise_cons.1 hd).1 b.1 (by simp)
    exact absurd ((hl a (by simp)).trans (hl b (by simp)).symm) hne

/-- Below all lines there are only replacements, and there is nothing to replace. -/
theorem applyInTurn_runBelow (h : Apart lines edits) :
    applyInTurn (runBelow edits lines.length) lines =
      (faultsOn lines (runBelow edits lines.length), lines) := by
  apply applyInTurn_of_faults
  intro x hx
  obtain ⟨hm, hb⟩ := List.mem_filter.1 hx
  have he := runOrder_fst_mem hm
  rw [decide_eq_true_iff] at hb
  have hk : x.1.kind ≠ .add := fun hk => by
    have := h.inside _ he hk
    omega
  obtain ⟨n, hl⟩ := Option.isSome_iff_exists.1 (h.placed _ he)
  simp only [Edit.height, hl, Option.getD_some] at hb
  simp [faultOn, hl, hk, hb]

theorem reverse_insertedTexts (h : Apart lines edits) :
    (insertedTexts (runFrom edits 0)).reverse = addedAt edits 0 := by
  have hf : ((runFrom edits 0).filter fun x => x.1.kind = .add ∧ x.1.line.isSome) =
      (additionsAt edits 0).reverse := by
    rw [← filter_runOrder_additions, runFrom, List.filter_filter]
    apply List.filter_congr
    intro x hx
    have he := runOrder_fst_mem hx
    have hp := h.placed _ he
    rw [Bool.eq_iff_iff, Bool.and_eq_true, Bool.and_eq_true, decide_eq_true_iff,
      decide_eq_true_iff, Bool.not_eq_true', ← Bool.not_eq_true, replacesLine_iff,
      Decidable.not_not, beq_iff_eq]
    constructor
    · rintro ⟨⟨hk, -⟩, h0⟩
      have := h.inside _ he hk
      exact ⟨hk, by omega⟩
    · rintro ⟨hk, h0⟩
      exact ⟨⟨hk, hp⟩, by omega⟩
  rw [insertedTexts, hf, ← map_additionsAt fun e he => .inr (h.placed e he), List.map_reverse,
    List.reverse_reverse]

/-- Edits that keep apart are made at once. -/
theorem applyEdits (h : Apart lines edits) :
    Fix.applyEdits lines edits = (edits.map fun e => (e, faultOn lines e),
      addedAt edits 0 ++ linesAfter edits lines) := by
  have hb : applyInTurn (runBelow edits lines.length) lines =
      (faultsOn lines (runBelow edits lines.length), lines ++ []) := by
    rw [List.append_nil]
    exact h.applyInTurn_runBelow
  rw [applyEdits_eq (fun k x _ => h.oneChange (by omega) x) hb, h.reverse_insertedTexts,
    List.append_nil]

end Apart

/-- What becomes of an edit that is judged by some lines. -/
def outcomeOn (lines : List String) (backup : Option String) (e : Edit) : Outcome where
  success := decide (Suits lines e)
  edit := e
  error := (faultOn lines e).map (·.message)
  backup := backup

theorem openFile_of_readLines {d : Disk} {p : String} {lines : List String}
    (h : d.readLines p = .ok lines) : ∃ f, d.openFile p = .ok f := by
  simp only [Disk.readLines] at h
  split at h
  · cases h
  · rename_i bytes hb
    obtain ⟨f, hf, -⟩ := Disk.readBytes_eq_ok_iff_openFile.1 hb
    exact ⟨f, hf⟩

/-- The bytes of some lines. -/
def bytesOf (lines : List String) : List UInt8 := Text.Utf8.encode (Text.unlines lines)

/-- The outcomes of edits that are applied to lines, if the lines can be written. -/
def outcomesOf (lines : List String) (backup : Option String) (edits : List Edit) : List Outcome :=
  (applyEdits lines edits).1.map fun (e, fault) => ⟨fault.isNone, e, fault.map (·.message), backup⟩

/-- A file is written exactly if some edit succeeds, and at its place alone. If it refuses what is
written to it, then all edits fail. -/
theorem editLines_eq {d : Disk} {p : String} {f : File} (hf : d.openFile p = .ok f)
    (lines : List String) (backup : Option String) (edits : List Edit) :
    editLines d p lines backup edits =
      if (applyEdits lines edits).1.any (·.2.isNone) then
        match f.write p (bytesOf (applyEdits lines edits).2) with
        | .ok g => (outcomesOf lines backup edits, d.put (d.resolve p) (.file g))
        | .error e => (failed edits e.message backup, d)
      else (outcomesOf lines backup edits, d) := by
  simp only [editLines, Disk.writeLines, Disk.writeBytes, Disk.store_of_openFile hf]
  rw [bytesOf]
  cases File.write p (Text.Utf8.encode (Text.unlines (applyEdits lines edits).2)) f with
  | ok g => rfl
  | error e =>
    simp only [WriteError.message_failure]
    rfl

/-- An ordinary file takes what is written to it. -/
theorem editLines_of_isOrdinary {d : Disk} {p : String} (h : d.IsOrdinary p)
    (lines : List String) (backup : Option String) (edits : List Edit) :
    editLines d p lines backup edits = (outcomesOf lines backup edits,
      if (applyEdits lines edits).1.any (·.2.isNone) then
        d.put (d.resolve p) (.file (.ordinary (bytesOf (applyEdits lines edits).2)))
      else d) := by
  obtain ⟨bytes, hb⟩ := h
  rw [editLines_eq hb]
  split <;> rfl

theorem map_outcomeOn (lines : List String) (backup : Option String) (edits : List Edit) :
    ((edits.map fun e => (e, faultOn lines e)).map fun (e, fault) =>
      (⟨fault.isNone, e, fault.map (·.message), backup⟩ : Outcome)) =
        edits.map (outcomeOn lines backup) := by
  rw [List.map_map]
  apply List.map_congr_left
  intro e _
  simp only [Function.comp_apply, outcomeOn, Outcome.mk.injEq, and_true]
  rw [Bool.eq_iff_iff, decide_eq_true_iff, ← faultOn_eq_none_iff, Option.isNone_iff_eq_none]

theorem any_outcomeOn (lines : List String) (edits : List Edit) :
    (edits.map fun e => (e, faultOn lines e)).any (·.2.isNone) = true ↔
      ∃ e ∈ edits, Suits lines e := by
  simp only [List.any_map, List.any_eq_true, Function.comp_apply, Option.isNone_iff_eq_none,
    faultOn_eq_none_iff]

theorem editFile_of_readLines {d : Disk} {root file : String} {lines : List String}
    {edits : List Edit} (hr : d.readLines (Path.parse file).text = .ok lines) :
    editFile d root none file edits = editLines d (Path.parse file).text lines none edits := by
  delta editFile
  dsimp only
  rw [hr]

/-- Edits of a file that keep apart are made at once: each one succeeds exactly if it suits the
lines as they were, and the file holds every line after its edits, with the insertions at the top
before and those behind the line after it. If none suits the lines, the file is not written. -/
theorem editFile_eq_of_apart {d : Disk} {file : String} {lines : List String} {edits : List Edit}
    (root : String) (hr : d.readLines (Path.parse file).text = .ok lines)
    (ho : d.IsOrdinary (Path.parse file).text) (h : Apart lines edits) :
    let final := addedAt edits 0 ++ linesAfter edits lines
    (editFile d root none file edits).1 = edits.map (outcomeOn lines none) ∧
      (editFile d root none file edits).2 =
        (if ∃ e ∈ edits, Suits lines e then
          d.put (d.resolve (Path.parse file).text) (.file (.ordinary (bytesOf final)))
        else d) ∧
      ((∃ e ∈ edits, Suits lines e) → (editFile d root none file edits).2.readBytes
        (Path.parse file).text = .ok (bytesOf final)) := by
  intro final
  have he : editFile d root none file edits = (edits.map (outcomeOn lines none),
      if ∃ e ∈ edits, Suits lines e then
        d.put (d.resolve (Path.parse file).text) (.file (.ordinary (bytesOf final)))
      else d) := by
    rw [editFile_of_readLines hr, editLines_of_isOrdinary ho, outcomesOf, h.applyEdits,
      map_outcomeOn]
    simp only [any_outcomeOn]
    rfl
  rw [he]
  refine ⟨rfl, rfl, fun hs => ?_⟩
  dsimp only
  rw [if_pos hs]
  obtain ⟨bytes, hb⟩ := ho
  exact Disk.readBytes_of_openFile (Disk.writes_put hb _).openFile

/-- Edits of a file that can only be read come to nothing: if any of them suits the lines, all of
them fail. -/
theorem editFile_of_readOnly {d : Disk} {file : String} {lines : List String} {edits : List Edit}
    {bytes : List UInt8} (root : String) (hr : d.readLines (Path.parse file).text = .ok lines)
    (hf : d.openFile (Path.parse file).text = .ok (.readOnly bytes)) (h : Apart lines edits) :
    (editFile d root none file edits).2 = d ∧
      ((∃ e ∈ edits, Suits lines e) → (editFile d root none file edits).1 =
        failed edits (WriteError.notWritable (Path.parse file).text).message none) := by
  rw [editFile_of_readLines hr, editLines_eq hf, h.applyEdits]
  simp only [any_outcomeOn, File.write]
  split
  · exact ⟨rfl, fun _ => rfl⟩
  · rename_i hs
    exact ⟨rfl, fun hs' => absurd hs' hs⟩

/-- A disk with one file of two lines. -/
def lettersIn (f : List UInt8 → File) : Disk where
  here := ["work"]
  entries := [(["work", "a.ts"], .file (f (bytesOf ["let a", "let b", ""])))]

/-- An edit of the first line, one that expects another second line, and two insertions. -/
def letterEdits : List Edit :=
  let edit (kind : EditKind) (line : Int) (expected : Option String) (text : String) : Edit :=
    { kind, file := "a.ts", line := some line, expected, text, description := "" }
  [edit .rename 1 (some "let a") "let c", edit .remove 2 (some "let d") "",
    edit .add 1 none "let e", edit .add 0 none "let f"]

theorem apart_letterEdits : Apart ["let a", "let b", ""] letterEdits :=
  ⟨by decide, by decide, by decide⟩

/-- The insertions and the edit that finds its line are made. -/
theorem letterEdits_at_once :
    Apart ["let a", "let b", ""] letterEdits ∧
      (editFile (lettersIn .ordinary) "." none "a.ts" letterEdits).1.map (·.success) =
        [true, false, true, true] ∧
      (editFile (lettersIn .ordinary) "." none "a.ts" letterEdits).2.readBytes
        (Path.parse "a.ts").text = .ok (bytesOf ["let f", "let c", "let e", "let b", ""]) := by
  have hl : (lettersIn .ordinary).readLines (Path.parse "a.ts").text =
      .ok ["let a", "let b", ""] := by
    decide +kernel
  obtain ⟨ho, -, hr⟩ := editFile_eq_of_apart "." hl ⟨_, rfl⟩ apart_letterEdits
  refine ⟨apart_letterEdits, ?_, ?_⟩
  · rw [ho]
    decide +kernel
  · have hf : addedAt letterEdits 0 ++ linesAfter letterEdits ["let a", "let b", ""] =
        ["let f", "let c", "let e", "let b", ""] := by decide +kernel
    rw [← hf]
    exact hr (by decide +kernel)

/-- A disk with a link to the null device. -/
def linkedLetters : Disk where
  here := ["work"]
  entries := [(["work", "a.ts"], .link "/dev/null")]

/-- Files that can be read and do not hold what is written. One that can only be read makes edits
fail that suit its lines, and the null device makes an edit succeed of which nothing is left. -/
theorem letterEdits_not_written :
    (∃ e ∈ letterEdits, Suits ["let a", "let b", ""] e) ∧
      (editFile (lettersIn .readOnly) "." none "a.ts" letterEdits).2 = lettersIn .readOnly ∧
      (∀ o ∈ (editFile (lettersIn .readOnly) "." none "a.ts" letterEdits).1,
        o.success = false) ∧
      ∃ e ∈ letterEdits, linkedLetters.readLines (Path.parse "a.ts").text = .ok [""] ∧
        Apart [""] [e] ∧
        (editFile linkedLetters "." none "a.ts" [e]).1.map (·.success) = [true] ∧
        (editFile linkedLetters "." none "a.ts" [e]).2.readLines (Path.parse "a.ts").text =
          .ok [""] := by
  have hl : (lettersIn .readOnly).readLines (Path.parse "a.ts").text =
      .ok ["let a", "let b", ""] := by
    decide +kernel
  have hs : ∃ e ∈ letterEdits, Suits ["let a", "let b", ""] e := by decide +kernel
  obtain ⟨hdisk, hfail⟩ := editFile_of_readOnly "." hl rfl apart_letterEdits
  refine ⟨hs, hdisk, fun o ho => ?_, ?_⟩
  · rw [hfail hs] at ho
    obtain ⟨e, -, rfl⟩ := List.mem_map.1 ho
    rfl
  · refine ⟨_, List.mem_of_getLast? rfl, by decide +kernel, ⟨by decide, by decide, by decide⟩,
      by decide +kernel, by decide +kernel⟩

end ExportLint.Fix
