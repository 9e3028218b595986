import ExportLint.Proofs.SimultaneousEdits

/-!
# Counting lines

Every insertion that is made adds a line, and every removal that is made takes one away. So the
number of lines after a run tells how many removals were made. Lines that are each changed once lose
at most one line to each removal, and fewer if two removals are aimed at one line.
-/
namespace ExportLint.Fix

/-- How many edits of a kind there are for the lines with a property. -/
def countAt (edits : List Edit) (k : EditKind) (p : Int → Bool) : Nat :=
  edits.countP fun e => e.kind = k ∧ e.line.any p

theorem countAt_cons (e : Edit) (edits : List Edit) (k : EditKind) (p : Int → Bool) :
    countAt (e :: edits) k p =
      countAt edits k p + if e.kind = k ∧ e.line.any p then 1 else 0 := by
  simp only [countAt, List.countP_cons, decide_eq_true_iff]

theorem countAt_congr {edits : List Edit} {k : EditKind} {p q : Int → Bool}
    (h : ∀ e ∈ edits, e.kind = k → ∀ n, e.line = some n → p n = q n) :
    countAt edits k p = countAt edits k q := by
  apply List.countP_congr
  intro e he
  rw [decide_eq_true_iff, decide_eq_true_iff]
  apply and_congr_right
  intro hk
  cases hl : e.line with
  | none => rfl
  | some n => rw [Option.any_some, Option.any_some, h e he hk n hl]

/-- Edits are counted in parts. -/
theorem countAt_or (edits : List Edit) (k : EditKind) {p q r : Int → Bool}
    (h : ∀ n, r n = true ↔ p n = true ∨ q n = true) (hd : ∀ n, ¬(p n = true ∧ q n = true)) :
    countAt edits k r = countAt edits k p + countAt edits k q := by
  induction edits with
  | nil => rfl
  | cons e edits ih =>
    rw [countAt_cons, countAt_cons, countAt_cons, ih]
    by_cases hk : e.kind = k
    · cases hl : e.line with
      | none => simp
      | some n =>
        have h1 := h n
        have h2 := hd n
        simp only [hk, true_and, Option.any_some]
        by_cases hp : p n = true
        · simp_all
          omega
        · by_cases hq : q n = true <;> simp_all
          omega
    · simp [hk]

theorem length_applyEdit {lines next : List String} {e : Edit} (h : applyEdit lines e = .ok next) :
    next.length + (if e.kind = .remove then 1 else 0) =
      lines.length + if e.kind = .add then 1 else 0 := by
  cases hl : e.line with
  | none => simp [applyEdit, hl] at h
  | some n =>
    simp only [applyEdit, hl] at h
    split at h
    · rename_i hk
      cases h
      simp only [hk, insertLine, insertionPoint, List.length_append, List.length_take,
        List.length_cons, List.length_drop]
      simp
      omega
    · rename_i hk
      rw [if_neg hk]
      split at h
      · cases h
      · split at h
        · cases h
        · split at h
          · rename_i hr
            cases h
            rw [if_pos hr, List.length_eraseIdx_of_lt (by omega)]
            omega
          · rename_i hr
            cases h
            rw [if_neg hr, List.length_set]

/-- If all edits that are aimed at a line succeed, then they are all counted. -/
theorem length_applyInTurn {xs : List (Edit × Nat)} {lines : List String}
    (h : ∀ x ∈ xs, x.1.kind.replacesLine = true → x.1.line.isSome = true →
      x.2 ∉ (applyInTurn xs lines).1.map Prod.fst) :
    (applyInTurn xs lines).2.length + countAt (xs.map Prod.fst) .remove (fun _ => true) =
      lines.length + countAt (xs.map Prod.fst) .add (fun _ => true) := by
  induction xs generalizing lines with
  | nil => rfl
  | cons x xs ih =>
    obtain ⟨e, i⟩ := x
    simp only [List.map_cons, countAt_cons]
    cases ha : applyEdit lines e with
    | ok next =>
      have hlen := length_applyEdit ha
      have hline : e.line.any (fun _ => true) = true := by
        cases hl : e.line with
        | none => simp [applyEdit, hl] at ha
        | some n => rfl
      simp only [applyInTurn, ha] at h ⊢
      have := ih fun x hx => h x (List.mem_cons_of_mem _ hx)
      simp only [hline, and_true]
      omega
    | error f =>
      have hline : e.line = none := by
        cases hl : e.line with
        | none => rfl
        | some n =>
          exfalso
          by_cases hk : e.kind = .add
          · rw [applyEdit_add hk hl] at ha
            cases ha
          · refine h (e, i) List.mem_cons_self (replacesLine_iff.2 hk) (by simp [hl]) ?_
            simp [applyInTurn, ha]
      simp only [applyInTurn, ha] at h ⊢
      have := @ih lines fun x hx hk hl hm =>
        h x (List.mem_cons_of_mem _ hx) hk hl (List.mem_cons_of_mem _ hm)
      simpa [hline] using this

theorem countAt_map_runOrder (edits : List Edit) (k : EditKind) (p : Int → Bool) :
    countAt ((runOrder edits).map Prod.fst) k p = countAt edits k p := by
  have h : ((runOrder edits).map Prod.fst).Perm (edits.zipIdx.map Prod.fst) :=
    (List.mergeSort_perm _ _).map _
  rw [List.zipIdx_map_fst] at h
  exact h.countP_eq _

theorem length_addedAt (edits : List Edit) (n : Int) :
    (addedAt edits n).length = countAt edits .add (· == n) := by
  rw [addedAt, List.length_map, ← List.countP_eq_length_filter, countAt]
  apply List.countP_congr
  intro e _
  cases hl : e.line <;> simp

/-- A line goes to a removal. -/
theorem one_le_length_lineAfter (edits : List Edit) (n : Int) (x : String) :
    1 ≤ (lineAfter edits n x).length + countAt edits .remove (· == n) := by
  rw [lineAfter]
  cases hr : replacing? edits n with
  | none => simp
  | some e =>
    have hm := List.mem_of_find?_eq_some hr
    have hp := List.find?_some hr
    simp only [Bool.and_eq_true, beq_iff_eq] at hp
    by_cases hk : e.kind = .remove
    · have hc : 0 < countAt edits .remove (· == n) :=
        List.countP_pos_iff.2 ⟨e, hm, by simp [hk, hp.2]⟩
      omega
    · simp only [replaced, hk, if_false]
      split <;> simp

theorem two_le_length {l : List Edit} {a b : Edit} (ha : a ∈ l) (hb : b ∈ l) (hne : a ≠ b) :
    2 ≤ l.length := by
  match l with
  | [] => cases ha
  | [e] =>
    rw [List.mem_singleton] at ha hb
    exact absurd (ha.trans hb.symm) hne
  | _ :: _ :: _ => simp

/-- Two removals of a line count twice. -/
theorem two_le_countAt {edits : List Edit} {a b : Edit} {n : Int} (ha : a ∈ edits) (hb : b ∈ edits)
    (hne : a ≠ b) (hka : a.kind = .remove) (hkb : b.kind = .remove) (hla : a.line = some n)
    (hlb : b.line = some n) : 2 ≤ countAt edits .remove (· == n) := by
  rw [countAt, List.countP_eq_length_filter]
  refine two_le_length (List.mem_filter.2 ⟨ha, ?_⟩) (List.mem_filter.2 ⟨hb, ?_⟩) hne
  · simp [hka, hla]
  · simp [hkb, hlb]

/-- A line is one of the first lines. -/
def isWithin (k : Nat) (n : Int) : Bool := 1 ≤ n ∧ n ≤ k

theorem countAt_isWithin_succ (edits : List Edit) (kind : EditKind) (k : Nat) :
    countAt edits kind (isWithin (k + 1)) =
      countAt edits kind (isWithin k) + countAt edits kind (· == (k + 1 : Int)) := by
  apply countAt_or
  · intro n
    simp only [isWithin, decide_eq_true_iff, beq_iff_eq]
    omega
  · intro n
    simp only [isWithin, decide_eq_true_iff, beq_iff_eq]
    omega

/-- Changed once, the lines lose one line at most to every removal. -/
theorem length_le_length_linesAfter (edits : List Edit) (lines : List String) :
    lines.length + countAt edits .add (isWithin lines.length) ≤
      (linesAfter edits lines).length + countAt edits .remove (isWithin lines.length) := by
  induction lines using List.reverseRecOn with
  | nil =>
    have h : countAt edits .add (isWithin 0) = 0 := by
      rw [countAt, List.countP_eq_zero]
      intro e _
      cases hl : e.line with
      | none => simp
      | some n =>
        simp only [Option.any_some, isWithin, decide_eq_true_iff]
        omega
    simp only [List.length_nil, h]
    omega
  | append_singleton before x ih =>
    have h1 := one_le_length_lineAfter edits (before.length + 1) x
    have h2 := length_addedAt edits (before.length + 1)
    rw [linesAfter_append]
    simp only [List.length_append, List.length_cons, List.length_nil, Nat.zero_add,
      countAt_isWithin_succ]
    omega

/-- If two removals are aimed at a line, then it loses fewer. -/
theorem length_lt_length_linesAfter {edits : List Edit} {lines : List String} {n : Int}
    (hn : isWithin lines.length n = true) (h : 2 ≤ countAt edits .remove (· == n)) :
    lines.length + countAt edits .add (isWithin lines.length) <
      (linesAfter edits lines).length + countAt edits .remove (isWithin lines.length) := by
  induction lines using List.reverseRecOn with
  | nil =>
    simp only [isWithin, List.length_nil, decide_eq_true_iff] at hn
    omega
  | append_singleton before x ih =>
    have h1 := one_le_length_lineAfter edits (before.length + 1) x
    have h2 := length_addedAt edits (before.length + 1)
    have hle := length_le_length_linesAfter edits before
    rw [linesAfter_append]
    simp only [List.length_append, List.length_cons, List.length_nil, Nat.zero_add,
      countAt_isWithin_succ]
    by_cases he : n = before.length + 1
    · subst he
      omega
    · have hn' : isWithin before.length n = true := by
        simp only [isWithin, decide_eq_true_iff, List.length_append, List.length_cons,
          List.length_nil] at hn ⊢
        omega
      have := ih hn'
      omega

end ExportLint.Fix
