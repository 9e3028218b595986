import ExportLint.Fix.Application

/-!
# The order of a run of edits

A run goes from the last line upwards. At each line the insertions come first, the last one of them
leading, and the replacements follow in the order in which they are given. So a run falls into
groups: what is at a line is one block, and behind it come the edits of the lines above.
-/
namespace ExportLint.Fix

/-- The line that an edit counts as being at. Without a line, it counts as being at the top. -/
def Edit.height (e : Edit) : Int := e.line.getD 0

theorem runsBefore_iff {a b : Edit × Nat} :
    runsBefore a b = true ↔ b.1.height < a.1.height ∨ a.1.height = b.1.height ∧
      (a.1.kind.replacesLine = false ∧ b.1.kind.replacesLine = true ∨
        a.1.kind.replacesLine = true ∧ b.1.kind.replacesLine = true ∧ a.2 ≤ b.2 ∨
        a.1.kind.replacesLine = false ∧ b.1.kind.replacesLine = false ∧ b.2 ≤ a.2) := by
  simp only [runsBefore, Edit.height]
  split
  · rename_i hne
    rw [decide_eq_true_iff]
    omega
  · rename_i heq
    split <;> rename_i ha hb <;> simp only [ha, hb, decide_eq_true_iff] <;> grind

theorem runOrder_pairwise (edits : List Edit) :
    (runOrder edits).Pairwise fun a b => runsBefore a b = true := by
  apply List.pairwise_mergeSort
  · intro a b c hab hbc
    rw [runsBefore_iff] at hab hbc ⊢
    grind
  · intro a b
    rw [Bool.or_eq_true, runsBefore_iff, runsBefore_iff]
    grind

theorem mem_runOrder {edits : List Edit} {x : Edit × Nat} :
    x ∈ runOrder edits ↔ edits[x.2]? = some x.1 := by
  rw [runOrder, List.mem_mergeSort, List.mem_zipIdx_iff_getElem?]

theorem runOrder_fst_mem {edits : List Edit} {x : Edit × Nat} (h : x ∈ runOrder edits) :
    x.1 ∈ edits :=
  List.mem_of_getElem? (mem_runOrder.1 h)

theorem pairwise_zipIdx (edits : List Edit) :
    edits.zipIdx.Pairwise fun a b => a.2 < b.2 := by
  have h : (edits.zipIdx.map Prod.snd).Pairwise (· < ·) := by
    rw [List.zipIdx_map_snd]
    exact List.pairwise_lt_range'
  exact List.pairwise_map.1 h

/-- In a list in which elements with a property come first, they make up its first part. -/
theorem eq_filter_append_filter_not {α : Type} {p : α → Bool} {l : List α}
    (h : l.Pairwise fun a b => p b = true → p a = true) :
    l = l.filter p ++ l.filter fun a => !p a := by
  induction l with
  | nil => rfl
  | cons a l ih =>
    obtain ⟨ha, hl⟩ := List.pairwise_cons.1 h
    by_cases hp : p a = true
    · rw [List.filter_cons_of_pos hp, List.filter_cons_of_neg (by simp [hp]), List.cons_append,
        ← ih hl]
    · have hn : l.filter p = [] := List.filter_eq_nil_iff.2 fun b hb hpb => hp (ha b hb hpb)
      have he := ih hl
      rw [hn, List.nil_append] at he
      rw [List.filter_cons_of_neg hp, List.filter_cons_of_pos (by simp [hp]), hn, List.nil_append,
        ← he]

/-- The insertions at a line, in their order. -/
def additionsAt (edits : List Edit) (n : Int) : List (Edit × Nat) :=
  edits.zipIdx.filter fun x => !x.1.kind.replacesLine && x.1.height == n

/-- The replacements at a line, in their order. -/
def replacementsAt (edits : List Edit) (n : Int) : List (Edit × Nat) :=
  edits.zipIdx.filter fun x => x.1.kind.replacesLine && x.1.height == n

/-- Edits in the order of their positions, in one direction or the other, come in one way only. -/
theorem eq_of_positions {edits : List Edit} {l l' : List (Edit × Nat)} (r : Nat → Nat → Prop)
    (hr : ∀ m n, r m n → r n m → m = n) (hm : ∀ x ∈ l, edits[x.2]? = some x.1)
    (hp : l.Perm l') (h : l.Pairwise fun a b => r a.2 b.2)
    (h' : l'.Pairwise fun a b => r a.2 b.2) : l = l' := by
  refine List.Perm.eq_of_pairwise ?_ h h' hp
  intro a b ha hb hab hba
  have he : a.2 = b.2 := hr _ _ hab hba
  have ha' := hm a ha
  rw [he, hm b (hp.mem_iff.2 hb)] at ha'
  exact Prod.ext (Option.some.inj ha').symm he

theorem filter_runOrder_additions (edits : List Edit) (n : Int) :
    ((runOrder edits).filter fun x => !x.1.kind.replacesLine && x.1.height == n) =
      (additionsAt edits n).reverse := by
  apply eq_of_positions (fun i j => j ≤ i) fun i j h h' => Nat.le_antisymm h' h
  · exact fun x hx => mem_runOrder.1 (List.mem_filter.1 hx).1
  · exact ((List.mergeSort_perm _ _).filter _).trans (List.reverse_perm _).symm
  · have h := (runOrder_pairwise edits).filter fun x =>
      !x.1.kind.replacesLine && x.1.height == n
    refine h.imp_of_mem fun {a b} ha hb hab => ?_
    simp only [List.mem_filter, Bool.and_eq_true, Bool.not_eq_true', beq_iff_eq] at ha hb
    rw [runsBefore_iff] at hab
    grind
  · rw [List.pairwise_reverse]
    exact ((pairwise_zipIdx edits).filter _).imp fun h => Nat.le_of_lt h

theorem filter_runOrder_replacements (edits : List Edit) (n : Int) :
    ((runOrder edits).filter fun x => x.1.kind.replacesLine && x.1.height == n) =
      replacementsAt edits n := by
  apply eq_of_positions (fun i j => i ≤ j) fun i j => Nat.le_antisymm
  · exact fun x hx => mem_runOrder.1 (List.mem_filter.1 hx).1
  · exact (List.mergeSort_perm _ _).filter _
  · have h := (runOrder_pairwise edits).filter fun x =>
      x.1.kind.replacesLine && x.1.height == n
    refine h.imp_of_mem fun {a b} ha hb hab => ?_
    simp only [List.mem_filter, Bool.and_eq_true, beq_iff_eq] at ha hb
    rw [runsBefore_iff] at hab
    grind
  · exact ((pairwise_zipIdx edits).filter _).imp fun h => Nat.le_of_lt h

/-- The part of a run from a line upwards. -/
def runFrom (edits : List Edit) (n : Int) : List (Edit × Nat) :=
  (runOrder edits).filter fun x => decide (x.1.height ≤ n)

/-- The part of a run below a line. -/
def runBelow (edits : List Edit) (n : Int) : List (Edit × Nat) :=
  (runOrder edits).filter fun x => decide (n < x.1.height)

theorem runOrder_eq (edits : List Edit) (n : Int) :
    runOrder edits = runBelow edits n ++ runFrom edits n := by
  have h : (runOrder edits).Pairwise fun a b =>
      decide (n < b.1.height) = true → decide (n < a.1.height) = true := by
    refine (runOrder_pairwise edits).imp fun {a b} hab hb => ?_
    rw [runsBefore_iff] at hab
    rw [decide_eq_true_iff] at hb ⊢
    omega
  rw [eq_filter_append_filter_not h, runBelow, runFrom]
  congr 2
  funext x
  rw [← decide_not]
  congr 1
  rw [Int.not_lt]

/-- The part of a run at a line has the insertions before the replacements. -/
theorem filter_runOrder_height (edits : List Edit) (n : Int) :
    ((runOrder edits).filter fun x => x.1.height == n) =
      (additionsAt edits n).reverse ++ replacementsAt edits n := by
  have h : ((runOrder edits).filter fun x => x.1.height == n).Pairwise fun a b =>
      (!b.1.kind.replacesLine) = true → (!a.1.kind.replacesLine) = true := by
    refine ((runOrder_pairwise edits).filter _).imp_of_mem fun {a b} ha hb hab hr => ?_
    simp only [List.mem_filter, beq_iff_eq] at ha hb
    rw [runsBefore_iff] at hab
    rw [Bool.not_eq_true'] at hr ⊢
    grind
  rw [eq_filter_append_filter_not h, List.filter_filter, List.filter_filter,
    filter_runOrder_additions]
  simp only [Bool.not_not]
  rw [filter_runOrder_replacements]

/-- From a line upwards come its insertions, then its replacements, then the lines above. -/
theorem runFrom_succ (edits : List Edit) (n : Int) :
    runFrom edits (n + 1) = (additionsAt edits (n + 1)).reverse ++
      replacementsAt edits (n + 1) ++ runFrom edits n := by
  have h : (runFrom edits (n + 1)).Pairwise fun a b =>
      (b.1.height == n + 1) = true → (a.1.height == n + 1) = true := by
    refine ((runOrder_pairwise edits).filter _).imp_of_mem fun {a b} ha hb hab hn => ?_
    simp only [runFrom, List.mem_filter, decide_eq_true_iff] at ha hb
    rw [beq_iff_eq] at hn ⊢
    rw [runsBefore_iff] at hab
    omega
  rw [eq_filter_append_filter_not h, runFrom, List.filter_filter, List.filter_filter,
    ← filter_runOrder_height, runFrom]
  congr 1
  · apply List.filter_congr
    intro x _
    grind
  · apply List.filter_congr
    intro x _
    grind

end ExportLint.Fix
