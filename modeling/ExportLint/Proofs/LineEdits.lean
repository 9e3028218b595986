import Mathlib.Data.List.Induction
import ExportLint.Proofs.EditOrder

/-!
# Edits as one change of the lines

A run changes lines in place, one edit after the other. Since it goes upwards, what it makes of the
lines above a line does not depend on what it made of the lines below: all edits could as well be
judged by the lines as they were. So the lines after a run are, line by line, what the edit that
replaces the line makes of it and then the insertions behind it.
-/
namespace ExportLint.Fix

/-- Why an edit fails on some lines, if it does. -/
def faultOn (lines : List String) (e : Edit) : Option EditFault :=
  match e.line with
  | none => some .noLine
  | some n =>
    if e.kind = .add then none
    else if n < 1 ∨ (lines.length : Int) < n then some (.outOfRange n)
    else if e.expected.any fun t => lines[(n - 1).toNat]? != some t then some (.stale n)
    else none

/-- An edit suits some lines: it is an insertion, or the line that it replaces is there and holds
what is expected, if anything is. -/
def Suits (lines : List String) (e : Edit) : Prop :=
  ∃ n, e.line = some n ∧ (e.kind = .add ∨ 1 ≤ n ∧ ∃ x, lines[(n - 1).toNat]? = some x ∧
    (e.expected = none ∨ e.expected = some x))

theorem faultOn_eq_none_iff {lines : List String} {e : Edit} :
    faultOn lines e = none ↔ Suits lines e := by
  simp only [faultOn, Suits]
  cases hl : e.line with
  | none => simp
  | some n =>
    simp only [Option.some.injEq, exists_eq_left']
    by_cases hk : e.kind = .add
    · simp [hk]
    · simp only [hk, if_false, false_or]
      by_cases hn : n < 1 ∨ (lines.length : Int) < n
      · rw [if_pos hn]
        constructor
        · intro h
          cases h
        · intro ⟨_, x, hx, _⟩
          have := (List.getElem?_eq_some_iff.1 hx).1
          omega
      · rw [if_neg hn]
        have h1 : 1 ≤ n := by omega
        have hi : (n - 1).toNat < lines.length := by omega
        rw [List.getElem?_eq_getElem hi]
        generalize lines[(n - 1).toNat] = x
        cases he : e.expected with
        | none => simp [h1]
        | some t =>
          by_cases ht : x = t
          · simp [h1, ht]
          · simp [ht, Ne.symm ht]

/-- A line stands between those before it and those behind it. -/
theorem exists_split_at {lines : List String} {n : Int} {x : String} (hn : 1 ≤ n)
    (hx : lines[(n - 1).toNat]? = some x) :
    ∃ before behind, lines = before ++ x :: behind ∧ n = before.length + 1 := by
  obtain ⟨hlt, hget⟩ := List.getElem?_eq_some_iff.1 hx
  refine ⟨lines.take (n - 1).toNat, lines.drop ((n - 1).toNat + 1), ?_, ?_⟩
  · rw [← hget, List.getElem_cons_drop, List.take_append_drop]
  · rw [List.length_take]
    omega

theorem replacesLine_iff {k : EditKind} : k.replacesLine = true ↔ k ≠ .add := by
  cases k <;> simp [EditKind.replacesLine]

/-- Edits at or above the end of some lines do not see what is behind them. -/
theorem faultOn_append {lines : List String} {e : Edit} (h : e.height ≤ lines.length)
    (behind : List String) : faultOn (lines ++ behind) e = faultOn lines e := by
  cases hl : e.line with
  | none => simp only [faultOn, hl]
  | some n =>
    simp only [Edit.height, hl, Option.getD_some] at h
    simp only [faultOn, hl]
    by_cases hn : n < 1
    · simp [hn]
    · rw [List.length_append, List.getElem?_append_left (by omega)]
      have h1 : ¬(n < 1 ∨ ((lines.length + behind.length : Nat) : Int) < n) := by omega
      have h2 : ¬(n < 1 ∨ (lines.length : Int) < n) := by omega
      rw [if_neg h1, if_neg h2]

theorem applyEdit_of_fault {lines : List String} {e : Edit} {f : EditFault}
    (h : faultOn lines e = some f) : applyEdit lines e = .error f := by
  cases hl : e.line with
  | none =>
    simp only [faultOn, hl, Option.some.injEq] at h
    simp only [applyEdit, hl, h]
  | some n =>
    simp only [faultOn, hl] at h
    simp only [applyEdit, hl]
    split at h
    · cases h
    · rename_i hk
      rw [if_neg hk]
      split at h <;> rename_i hn
      · cases h
        rw [if_pos hn]
      · rw [if_neg hn]
        split at h <;> rename_i hs
        · cases h
          rw [if_pos hs]
        · cases h

theorem applyEdit_add {lines : List String} {e : Edit} {n : Int} (hk : e.kind = .add)
    (hl : e.line = some n) :
    applyEdit lines e = .ok (insertLine lines (insertionPoint lines n) e.text) := by
  simp [applyEdit, hl, hk]

/-- What an edit that replaces a line makes of it. -/
def replaced (e : Edit) (x : String) : List String :=
  if e.expected.any (· != x) then [x] else if e.kind = .remove then [] else [e.text]

/-- A replacement changes its line alone. -/
theorem applyEdit_replace {before : List String} (behind : List String) {x : String} {e : Edit}
    {n : Int} (hk : e.kind.replacesLine = true) (hl : e.line = some n)
    (hn : n = before.length + 1) :
    applyEdit (before ++ x :: behind) e =
      if e.expected.any (· != x) then .error (.stale n)
      else .ok (before ++ replaced e x ++ behind) := by
  have hadd : e.kind ≠ .add := replacesLine_iff.1 hk
  have hr : ¬(n < 1 ∨ ((before ++ x :: behind).length : Int) < n) := by
    simp only [List.length_append, List.length_cons]
    omega
  have hi : (n - 1).toNat = before.length := by omega
  have hx : (before ++ x :: behind)[before.length]? = some x := by simp
  have hany : (e.expected.any fun t => some x != some t) = e.expected.any (· != x) := by
    cases e.expected with
    | none => rfl
    | some t => simp [bne, Bool.beq_comm]
  simp only [applyEdit, hl, hadd, if_false, hr, hi, hx, hany, replaced]
  split
  · rfl
  · split
    · simp [List.eraseIdx_append_of_length_le]
    · simp

theorem applyInTurn_append (xs ys : List (Edit × Nat)) (lines : List String) :
    applyInTurn (xs ++ ys) lines =
      ((applyInTurn xs lines).1 ++ (applyInTurn ys (applyInTurn xs lines).2).1,
        (applyInTurn ys (applyInTurn xs lines).2).2) := by
  induction xs generalizing lines with
  | nil => rfl
  | cons x xs ih =>
    obtain ⟨e, i⟩ := x
    simp only [List.cons_append, applyInTurn]
    split
    · exact ih _
    · rw [ih]
      rfl

/-- The faults of some edits, all of them judged by the same lines. -/
def faultsOn (lines : List String) (xs : List (Edit × Nat)) : List (Nat × EditFault) :=
  xs.filterMap fun x => (faultOn lines x.1).map (x.2, ·)

theorem faultsOn_cons (lines : List String) (x : Edit × Nat) (xs : List (Edit × Nat)) :
    faultsOn lines (x :: xs) =
      ((faultOn lines x.1).map (x.2, ·)).toList ++ faultsOn lines xs := by
  cases hf : faultOn lines x.1 <;> simp [faultsOn, hf]

theorem faultsOn_append (lines : List String) (xs ys : List (Edit × Nat)) :
    faultsOn lines (xs ++ ys) = faultsOn lines xs ++ faultsOn lines ys := by
  simp only [faultsOn, List.filterMap_append]

theorem faultsOn_eq_nil {lines : List String} {xs : List (Edit × Nat)}
    (h : ∀ x ∈ xs, faultOn lines x.1 = none) : faultsOn lines xs = [] := by
  rw [faultsOn, List.filterMap_eq_nil_iff]
  intro x hx
  rw [h x hx, Option.map_none]

theorem faultsOn_congr {lines lines' : List String} {xs : List (Edit × Nat)}
    (h : ∀ x ∈ xs, faultOn lines x.1 = faultOn lines' x.1) :
    faultsOn lines xs = faultsOn lines' xs := by
  induction xs with
  | nil => rfl
  | cons x xs ih =>
    rw [faultsOn_cons, faultsOn_cons, h x List.mem_cons_self,
      ih fun y hy => h y (List.mem_cons_of_mem _ hy)]

/-- The fault of an edit is found under its position. -/
theorem lookup_faultsOn {lines : List String} {xs : List (Edit × Nat)} {e : Edit} {i : Nat}
    (hx : ∀ x ∈ xs, x.2 = i → x.1 = e) (hm : (e, i) ∈ xs ∨ faultOn lines e = none) :
    (faultsOn lines xs).lookup i = faultOn lines e := by
  induction xs with
  | nil =>
    rcases hm with hm | hm
    · cases hm
    · rw [hm]
      rfl
  | cons x xs ih =>
    have hxs : ∀ y ∈ xs, y.2 = i → y.1 = e := fun y hy => hx y (List.mem_cons_of_mem _ hy)
    rw [faultsOn_cons]
    by_cases hi : x.2 = i
    · rw [hx x List.mem_cons_self hi]
      cases hf : faultOn lines e with
      | none =>
        rw [Option.map_none, Option.toList_none, List.nil_append, ih hxs (.inr hf), hf]
      | some f => simp [hi]
    · have hm' : (e, i) ∈ xs ∨ faultOn lines e = none := by
        refine hm.imp_left fun h => ?_
        rcases List.mem_cons.1 h with h | h
        · exact absurd (congrArg Prod.snd h).symm hi
        · exact h
      rw [← ih hxs hm']
      cases hf : faultOn lines x.1 with
      | none => rfl
      | some f =>
        have hb : (i == x.2) = false := by simpa using Ne.symm hi
        simp [List.lookup_cons, hb]

/-- Insertions behind the same line end up in the reverse order. -/
theorem applyInTurn_additions {before : List String} (behind : List String)
    {xs : List (Edit × Nat)}
    (h : ∀ x ∈ xs, x.1.kind = .add ∧ x.1.line = some (before.length : Int)) :
    applyInTurn xs (before ++ behind) =
      ([], before ++ (xs.map (·.1.text)).reverse ++ behind) := by
  induction xs generalizing behind with
  | nil => simp [applyInTurn]
  | cons x xs ih =>
    obtain ⟨hk, hl⟩ := h x List.mem_cons_self
    have hins : insertLine (before ++ behind)
        (insertionPoint (before ++ behind) before.length) x.1.text =
          before ++ x.1.text :: behind := by
      simp [insertLine, insertionPoint]
    simp only [applyInTurn, applyEdit_add hk hl, hins]
    rw [ih _ fun y hy => h y (List.mem_cons_of_mem _ hy)]
    simp

/-- The texts of the insertions that have a line. -/
def insertedTexts (xs : List (Edit × Nat)) : List String :=
  (xs.filter fun x => x.1.kind = .add ∧ x.1.line.isSome).map (·.1.text)

/-- At the top, insertions with a line are made, and everything else fails. -/
theorem applyInTurn_top {lines : List String} {xs : List (Edit × Nat)}
    (h : ∀ x ∈ xs, x.1.height ≤ 0) :
    applyInTurn xs lines = (faultsOn [] xs, (insertedTexts xs).reverse ++ lines) := by
  induction xs generalizing lines with
  | nil => simp [applyInTurn, faultsOn, insertedTexts]
  | cons x xs ih =>
    have hx := h x List.mem_cons_self
    have hxs := fun (next : List String) =>
      @ih next fun y hy => h y (List.mem_cons_of_mem _ hy)
    cases hf : faultOn [] x.1 with
    | some f =>
      have hf' : faultOn lines x.1 = some f := by
        rw [← hf]
        exact @faultOn_append [] _ hx lines
      have hn : ¬(x.1.kind = .add ∧ x.1.line.isSome) := by
        rintro ⟨hk, hl⟩
        obtain ⟨n, hl⟩ := Option.isSome_iff_exists.1 hl
        simp [faultOn, hl, hk] at hf
      simp only [applyInTurn, applyEdit_of_fault hf', hxs]
      simp [faultsOn_cons, insertedTexts, hf, hn]
    | none =>
      obtain ⟨n, hl, hs⟩ := faultOn_eq_none_iff.1 hf
      have hk : x.1.kind = .add := by
        rcases hs with hk | ⟨-, y, hy, -⟩
        · exact hk
        · simp at hy
      have hn : n ≤ 0 := by simpa [Edit.height, hl] using hx
      have hins : insertLine lines (insertionPoint lines n) x.1.text = x.1.text :: lines := by
        have h0 : n.toNat = 0 := by omega
        simp [insertLine, insertionPoint, h0]
      simp only [applyInTurn, applyEdit_add hk hl, hins, hxs]
      simp [faultsOn_cons, insertedTexts, hf, hk, hl]

end ExportLint.Fix
