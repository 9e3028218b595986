import ExportLint.Proofs.EditedLineEnds
import ExportLint.Proofs.MadeEdits

/-!
# Line ends after a run

In a file with line ends of two characters all lines but the last one are ended. A run of edits
keeps it so as long as the last line stays and nothing is put behind it: a line behind an open one
follows a bare line feed, and without the open line the text breaks off in a bare carriage return.
-/
namespace ExportLint.Fix

open Text

variable {lines next A : List String} {p : String} {e : Edit} {edits : List Edit}
  {xs : List (Edit × Nat)}

/-- An edit that keeps the ends of some lines: it adds an ended line behind the last one, or its new
line ends like the one that it expects. -/
inductive KeepsEnds (lines : List String) (e : Edit) : Prop where
  | add (kind : e.kind = .add) (line : e.line = some (lastLine lines : Int))
      (text : HasEnd true e.text.toList)
  | replace {n : Int} {x : String} (kind : e.kind ≠ .add) (line : e.line = some n) (one_le : 1 ≤ n)
      (at_ : lines[(n - 1).toNat]? = some x) (expected : e.expected = some x)
      (text : e.kind ≠ .remove → ∀ ended, HasEnd ended x.toList → HasEnd ended e.text.toList)

/-- An edit for an issue with plain names keeps the ends of lines whose first one is ended. -/
theorem EditFor.keepsEnds {c : Conventions} {i : Issue} (h : EditFor c lines i e)
    (hi : PlainNames i) {first : String} (hf : lines.head? = some first)
    (hended : HasEnd true first.toList) : KeepsEnds lines e := by
  rcases h.aim with ⟨hk, hl⟩ | ⟨hk, n, x, hl, hn, hx, hexp⟩
  · exact .add hk hl (h.hasEnd_added hi hk hf hended)
  · exact .replace hk hl hn hx hexp fun hkeeps ended hend => h.hasEnd_text hi hkeeps hexp hend

/-- All of some lines end in a carriage return. -/
def AllEnded (lines : List String) : Prop := ∀ l ∈ lines, HasEnd true l.toList

theorem allEnded_append {lines' : List String} :
    AllEnded (lines ++ lines') ↔ AllEnded lines ∧ AllEnded lines' :=
  List.forall_mem_append

section AllEnded

/-- An ended line may take the place of another line, or nothing may. -/
theorem AllEnded.exchange {before behind : List String} {x : String}
    (h : AllEnded (before ++ x :: behind)) (htext : e.kind ≠ .remove → HasEnd true e.text.toList) :
    AllEnded (before ++ (if e.kind = .remove then [] else [e.text]) ++ behind) := by
  obtain ⟨hbefore, hrest⟩ := allEnded_append.1 h
  rw [allEnded_append, allEnded_append]
  refine ⟨⟨hbefore, fun l hl => ?_⟩, fun l hl => hrest l (List.mem_cons_of_mem x hl)⟩
  split at hl
  · cases hl
  · rename_i hkeeps
    rw [List.mem_singleton.1 hl]
    exact htext hkeeps

/-- Where all lines are ended, they stay so. -/
theorem KeepsEnds.allEnded {lines' : List String} (h : KeepsEnds lines' e)
    (hm : Makes lines e next) (hended : AllEnded lines) : AllEnded next := by
  cases hm with
  | insert kind line inserts =>
    have htext : HasEnd true e.text.toList := by
      cases h with
      | add _ _ text => exact text
      | replace kind' => exact absurd kind kind'
    rw [inserts, insertLine, allEnded_append]
    refine ⟨fun l hl => hended l (List.mem_of_mem_take hl), fun l hl => ?_⟩
    rcases List.mem_cons.1 hl with rfl | hl
    · exact htext
    · exact hended l (List.mem_of_mem_drop hl)
  | @change before behind x kind line at_ expected changes =>
    subst at_
    rw [changes]
    refine hended.exchange fun hkeeps => ?_
    cases h with
    | add kind' => exact absurd kind' kind
    | replace _ _ _ _ expected' text =>
      have hx := expected _ expected'
      subst hx
      exact text hkeeps true (hended _ (by simp))

theorem allEnded_applyInTurn {lines' : List String} (h : ∀ x ∈ xs, KeepsEnds lines' x.1)
    (hended : AllEnded lines) : AllEnded (applyInTurn xs lines).2 := by
  induction xs generalizing lines with
  | nil => exact hended
  | cons x xs ih =>
    have hxs := fun y hy => h y (List.mem_cons_of_mem x hy)
    simp only [applyInTurn]
    split
    · rename_i next hnext
      exact ih hxs ((h x List.mem_cons_self).allEnded (makes_of_applyEdit hnext) hended)
    · exact ih hxs hended

end AllEnded

section LastLine

/-- A replacement of an open line by an open one, or its removal. -/
structure ReplacesOpen (e : Edit) (n : Int) : Prop where
  kind : e.kind.replacesLine = true
  line : e.line = some n
  expected : ∃ t, e.expected = some t ∧ HasEnd false t.toList
  text : e.kind ≠ .remove → HasEnd false e.text.toList

/-- Without the open line nothing is replaced. -/
theorem ReplacesOpen.not_made {behind : List String} (h : ReplacesOpen e (A.length + 1))
    (hended : AllEnded behind) : applyEdit (A ++ behind) e ≠ .ok next := by
  intro hok
  cases makes_of_applyEdit hok with
  | insert kind => exact replacesLine_iff.1 h.kind kind
  | @change before after x kind line at_ expected =>
    obtain ⟨t, ht, hopen⟩ := h.expected
    have hx := expected t ht
    subst hx
    rw [h.line, Option.some.injEq] at line
    have hlen : A.length = before.length := by omega
    have hmem : t ∈ behind := (List.append_inj at_ hlen).2 ▸ List.mem_cons_self
    exact (hended t hmem).ne hopen rfl

theorem applyInTurn_of_not_made (h : ∀ x ∈ xs, ∀ next, applyEdit lines x.1 ≠ .ok next) :
    (applyInTurn xs lines).2 = lines := by
  induction xs with
  | nil => rfl
  | cons x xs ih =>
    cases ha : applyEdit lines x.1 with
    | ok next => exact absurd ha (h x List.mem_cons_self next)
    | error f =>
      simp only [applyInTurn, ha]
      exact ih fun y hy => h y (List.mem_cons_of_mem x hy)

/-- The last line is open as long as it is not removed. -/
theorem applyInTurn_open {behind : List String} (hp : HasEnd false p.toList)
    (hended : AllEnded behind) (h : ∀ x ∈ xs, ReplacesOpen x.1 (A.length + 1)) :
    ((∃ x ∈ madeIn xs (A ++ p :: behind), x.1.kind = .remove) ∧
        (applyInTurn xs (A ++ p :: behind)).2 = A ++ behind) ∨
      (∀ x ∈ madeIn xs (A ++ p :: behind), x.1.kind ≠ .remove) ∧
        ∃ p', HasEnd false p'.toList ∧
          (applyInTurn xs (A ++ p :: behind)).2 = A ++ p' :: behind := by
  induction xs generalizing p with
  | nil => exact .inr ⟨fun x hx => (List.not_mem_nil hx).elim, p, hp, rfl⟩
  | cons x xs ih =>
    have hx := h x List.mem_cons_self
    have hxs := fun y hy => h y (List.mem_cons_of_mem x hy)
    have hreplace := applyEdit_replace (x := p) behind hx.kind hx.line rfl
    split at hreplace
    · simp only [madeIn, applyInTurn, hreplace]
      exact ih hp hxs
    · rename_i hfresh
      rw [replaced, if_neg hfresh] at hreplace
      by_cases hk : x.1.kind = .remove
      · rw [if_pos hk, List.append_nil] at hreplace
        simp only [madeIn, applyInTurn, hreplace]
        refine .inl ⟨⟨x, List.mem_cons_self, hk⟩, applyInTurn_of_not_made fun y hy next => ?_⟩
        exact (hxs y hy).not_made hended
      · rw [if_neg hk, List.append_assoc, List.singleton_append] at hreplace
        simp only [madeIn, applyInTurn, hreplace]
        rcases ih (hx.text hk) hxs with ⟨⟨y, hy, hremove⟩, hlines⟩ | ⟨hkept, p', hp', hlines⟩
        · exact .inl ⟨⟨y, List.mem_cons_of_mem x hy, hremove⟩, hlines⟩
        · exact .inr ⟨List.forall_mem_cons.2 ⟨hk, hkept⟩, p', hp', hlines⟩

end LastLine

section Above

/-- A replacement of an ended line by an ended one, or its removal. -/
structure ReplacesEnded (e : Edit) : Prop where
  kind : e.kind ≠ .add
  expected : ∃ t, e.expected = some t ∧ HasEnd true t.toList
  text : e.kind ≠ .remove → HasEnd true e.text.toList

/-- A line other than some line, and not below it, is above it. -/
theorem exists_above_of_ne {above behind before after : List String} {t : String}
    (h : above ++ p :: behind = before ++ t :: after) (hne : t ≠ p)
    (hle : before.length ≤ above.length) :
    ∃ mid, above = before ++ t :: mid ∧ after = mid ++ p :: behind := by
  rcases List.append_eq_append_iff.1 h with ⟨mid, hbefore, hrest⟩ | ⟨mid, habove, hrest⟩
  · have hnil : mid = [] := by
      rw [hbefore, List.length_append] at hle
      exact List.length_eq_zero_iff.1 (by omega)
    subst hnil
    exact absurd (List.cons.inj hrest).1.symm hne
  · cases mid with
    | nil => exact absurd (List.cons.inj hrest).1 hne
    | cons m mid =>
      obtain ⟨rfl, hafter⟩ := List.cons.inj hrest
      exact ⟨mid, habove, hafter⟩

/-- Replacements of ended lines, from an open line upwards, keep it and what is behind it. -/
theorem applyInTurn_above {above behind : List String} (habove : AllEnded above)
    (hp : HasEnd false p.toList) (h : ∀ x ∈ xs, ReplacesEnded x.1)
    (hdown : xs.Pairwise fun a b => b.1.height ≤ a.1.height)
    (hle : ∀ x ∈ xs, x.1.height ≤ above.length + 1) :
    ∃ above', AllEnded above' ∧
      (applyInTurn xs (above ++ p :: behind)).2 = above' ++ p :: behind := by
  induction xs generalizing above with
  | nil => exact ⟨above, habove, rfl⟩
  | cons x xs ih =>
    obtain ⟨hfirst, hdown⟩ := List.pairwise_cons.1 hdown
    have hx := h x List.mem_cons_self
    have hxs := fun y hy => h y (List.mem_cons_of_mem x hy)
    have hlex := hle x List.mem_cons_self
    simp only [applyInTurn]
    split
    · rename_i next hnext
      cases makes_of_applyEdit hnext with
      | insert kind => exact absurd kind hx.kind
      | @change before after t kind line at_ expected changes =>
        obtain ⟨t', ht', hended⟩ := hx.expected
        have ht := expected t' ht'
        subst ht
        have hheight : x.1.height = before.length + 1 := by rw [Edit.height, line]; rfl
        -- The line that is replaced is ended, so it is above the open one.
        obtain ⟨mid, rfl, rfl⟩ := exists_above_of_ne at_ (fun he => hended.ne hp (by rw [he]))
          (by omega)
        rw [changes, ← List.append_assoc]
        refine ih (habove.exchange hx.text) hxs hdown fun y hy => ?_
        have := hfirst y hy
        rw [List.length_append, List.length_append]
        omega
    · exact ih habove hxs hdown fun y hy => hle y (List.mem_cons_of_mem x hy)

end Above

section Run

/-- The insertions at a line put their texts behind it. -/
theorem applyInTurn_additionsAt (edits : List Edit) {before : List String} (hne : before ≠ [])
    (behind : List String) :
    applyInTurn (additionsAt edits before.length).reverse (before ++ behind) =
      ([], before ++ addedAt edits before.length ++ behind) := by
  have hn : (before.length : Int) ≠ 0 := by
    have := List.length_pos_iff.2 hne
    omega
  rw [applyInTurn_additions behind fun x hx => mem_additionsAt hn (List.mem_reverse.1 hx),
    List.map_reverse, List.reverse_reverse, map_additionsAt fun _ _ => .inl hn]

/-- The part of a run from the replacements of a line upwards. -/
def runReplacing (edits : List Edit) (n : Int) : List (Edit × Nat) :=
  replacementsAt edits n ++ runFrom edits (n - 1)

theorem runFrom_eq (edits : List Edit) (n : Int) :
    runFrom edits n = (additionsAt edits n).reverse ++ runReplacing edits n := by
  have h := runFrom_succ edits (n - 1)
  rwa [Int.sub_add_cancel, List.append_assoc] at h

/-- A file whose lines are ended, all but the last one, with edits that keep the ends. -/
structure OpenLast (A : List String) (p : String) (edits : List Edit) : Prop where
  ended : AllEnded A
  nonempty : A ≠ []
  last : HasEnd false p.toList
  keeps : ∀ e ∈ edits, KeepsEnds (A ++ [p]) e

namespace OpenLast

theorem lastLine_eq (A : List String) (p : String) :
    lastLine (A ++ [p]) = if p = "" then A.length else A.length + 1 := by
  simp only [lastLine, List.getLast?_concat, Option.some.injEq, List.length_append,
    List.length_singleton, Nat.add_sub_cancel]

theorem height_le (h : OpenLast A p edits) (he : e ∈ edits) : e.height ≤ A.length + 1 := by
  cases h.keeps e he with
  | add kind line =>
    rw [lastLine_eq] at line
    rw [Edit.height, line, Option.getD_some]
    split <;> omega
  | replace kind line one_le at_ =>
    have hlt := (List.getElem?_eq_some_iff.1 at_).1
    rw [List.length_append, List.length_singleton] at hlt
    rw [Edit.height, line, Option.getD_some]
    omega

/-- Insertions are at the last line that is not empty. -/
theorem add (h : OpenLast A p edits) (he : e ∈ edits) (hk : e.kind = .add) :
    e.line = some ((if p = "" then A.length else A.length + 1 : Nat) : Int) ∧
      HasEnd true e.text.toList := by
  cases h.keeps e he with
  | add kind line text =>
    rw [lastLine_eq] at line
    exact ⟨line, text⟩
  | replace kind => exact absurd hk kind

theorem allEnded_addedAt (h : OpenLast A p edits) (n : Int) : AllEnded (addedAt edits n) := by
  intro l hl
  obtain ⟨e, he, rfl⟩ := List.mem_map.1 hl
  obtain ⟨he, hat⟩ := List.mem_filter.1 he
  exact (h.add he (of_decide_eq_true hat).1).2

/-- Lines are added behind the last one exactly if it is not empty. -/
theorem addedAt_eq_nil_iff (h : OpenLast A p edits) :
    addedAt edits (A.length + 1) = [] ↔ ((∃ e ∈ edits, e.kind = .add) → p = "") := by
  rw [addedAt, List.map_eq_nil_iff, List.filter_eq_nil_iff]
  constructor
  · rintro hnone ⟨e, he, hk⟩
    by_contra hp
    have hline := (h.add he hk).1
    rw [if_neg hp] at hline
    exact hnone e he (decide_eq_true ⟨hk, hline⟩)
  · intro hempty e he hat
    obtain ⟨hk, hat⟩ := of_decide_eq_true hat
    have hline := (h.add he hk).1
    rw [if_pos (hempty ⟨e, he, hk⟩), hat, Option.some.injEq] at hline
    omega

/-- A run has what is at the last line, the insertions at the line above it, and then the rest. -/
theorem runOrder_eq (h : OpenLast A p edits) :
    runOrder edits = (additionsAt edits (A.length + 1)).reverse ++
      (replacementsAt edits (A.length + 1) ++ ((additionsAt edits A.length).reverse ++
        runReplacing edits A.length)) := by
  have hbelow : runBelow edits (A.length + 1) = [] := by
    rw [runBelow, List.filter_eq_nil_iff]
    intro x hx
    have := h.height_le (runOrder_fst_mem hx)
    rw [decide_eq_true_iff]
    omega
  rw [Fix.runOrder_eq edits (A.length + 1), hbelow, runFrom_succ, List.nil_append,
    List.append_assoc, runFrom_eq edits A.length]

theorem replacesOpen (h : OpenLast A p edits) {x : Edit × Nat}
    (hx : x ∈ replacementsAt edits (A.length + 1)) : ReplacesOpen x.1 (A.length + 1) := by
  obtain ⟨hkind, hline⟩ := mem_replacementsAt (by omega) hx
  have hmem : x.1 ∈ edits :=
    List.mem_of_getElem? (List.mem_zipIdx_iff_getElem?.1 (List.mem_filter.1 hx).1)
  cases h.keeps _ hmem with
  | add kind => exact absurd kind (replacesLine_iff.1 hkind)
  | @replace n t kind line one_le at_ expected text =>
    rw [hline, Option.some.injEq] at line
    have hindex : (n - 1).toNat = A.length := by omega
    rw [hindex, List.getElem?_concat_length, Option.some.injEq] at at_
    subst at_
    exact ⟨hkind, hline, ⟨p, expected, h.last⟩, fun hkeeps => text hkeeps false h.last⟩

/-- The rest of a run replaces ended lines. -/
theorem replacesEnded (h : OpenLast A p edits) {x : Edit × Nat}
    (hx : x ∈ runReplacing edits A.length) :
    ReplacesEnded x.1 ∧ x.1.height ≤ A.length := by
  have hpos := List.length_pos_iff.2 h.nonempty
  obtain ⟨hmem, hheight, hkind⟩ : x.1 ∈ edits ∧ x.1.height ≤ A.length ∧ x.1.kind ≠ .add := by
    rcases List.mem_append.1 hx with hx | hx
    · obtain ⟨hkind, hline⟩ := mem_replacementsAt (by omega) hx
      refine ⟨List.mem_of_getElem? (List.mem_zipIdx_iff_getElem?.1 (List.mem_filter.1 hx).1), ?_,
        replacesLine_iff.1 hkind⟩
      simp [Edit.height, hline]
    · obtain ⟨hrun, hle⟩ := List.mem_filter.1 hx
      rw [decide_eq_true_iff] at hle
      have hmem := runOrder_fst_mem hrun
      refine ⟨hmem, by omega, fun hk => ?_⟩
      rw [Edit.height, (h.add hmem hk).1, Option.getD_some] at hle
      split at hle <;> omega
  refine ⟨?_, hheight⟩
  cases h.keeps _ hmem with
  | add kind => exact absurd kind hkind
  | @replace n t kind line one_le at_ expected text =>
    rw [Edit.height, line, Option.getD_some] at hheight
    rw [List.getElem?_append_left (by omega)] at at_
    have hended := h.ended t (List.mem_of_getElem? at_)
    exact ⟨kind, ⟨t, expected, hended⟩, fun hkeeps => text hkeeps true hended⟩

theorem runReplacing_down (h : OpenLast A p edits) :
    (runReplacing edits A.length).Pairwise fun a b => b.1.height ≤ a.1.height := by
  have hpairwise := runOrder_pairwise edits
  rw [h.runOrder_eq] at hpairwise
  have hrest := (List.pairwise_append.1 (List.pairwise_append.1
    (List.pairwise_append.1 hpairwise).2.1).2.1).2.1
  refine hrest.imp fun {a b} hab => ?_
  rw [runsBefore_iff] at hab
  omega

/-- The run starts with the insertions behind the last line. -/
theorem applyInTurn_lowest (A : List String) (p : String) (edits : List Edit) :
    applyInTurn (additionsAt edits (A.length + 1)).reverse (A ++ [p]) =
      ([], A ++ p :: addedAt edits (A.length + 1)) := by
  have hne : A ++ [p] ≠ [] := by simp
  have hadded := applyInTurn_additionsAt edits hne []
  rwa [List.length_append, List.length_singleton, Int.natCast_add, Int.natCast_one,
    List.append_nil, List.append_nil, List.append_assoc, List.singleton_append] at hadded

/-- The part of the run behind the replacements of the last line. -/
theorem mem_of_rest (h : OpenLast A p edits) {x : Edit × Nat}
    (hx : x ∈ (additionsAt edits A.length).reverse ++ runReplacing edits A.length) :
    x.1 ∈ edits := by
  have hrun : x ∈ runOrder edits := by
    rw [h.runOrder_eq]
    exact List.mem_append_right _ (List.mem_append_right _ hx)
  exact runOrder_fst_mem hrun

theorem line_ne_of_rest (h : OpenLast A p edits) {x : Edit × Nat}
    (hx : x ∈ (additionsAt edits A.length).reverse ++ runReplacing edits A.length)
    (hremove : x.1.kind = .remove) : x.1.line ≠ some (A.length + 1 : Int) := by
  intro hline
  have hpos := List.length_pos_iff.2 h.nonempty
  rcases List.mem_append.1 hx with hx | hx
  · rw [(mem_additionsAt (by omega) (List.mem_reverse.1 hx)).1] at hremove
    cases hremove
  · have hle := (h.replacesEnded hx).2
    rw [Edit.height, hline, Option.getD_some] at hle
    omega

/-- The rest of the run keeps an open line, and what is behind it. -/
theorem applyInTurn_rest (h : OpenLast A p edits) {last : String}
    (hl : HasEnd false last.toList) (behind : List String) :
    ∃ above, AllEnded above ∧
      (applyInTurn ((additionsAt edits A.length).reverse ++ runReplacing edits A.length)
        (A ++ last :: behind)).2 = above ++ last :: behind := by
  have habove : AllEnded (A ++ addedAt edits A.length) :=
    allEnded_append.2 ⟨h.ended, h.allEnded_addedAt _⟩
  rw [applyInTurn_append, applyInTurn_additionsAt edits h.nonempty]
  refine applyInTurn_above habove hl (fun x hx => (h.replacesEnded hx).1) h.runReplacing_down
    fun x hx => ?_
  have := (h.replacesEnded hx).2
  rw [List.length_append]
  omega

/-- All insertions are made. -/
theorem made_add_iff (h : OpenLast A p edits) :
    (∃ x ∈ madeIn (runOrder edits) lines, x.1.kind = .add) ↔ ∃ e ∈ edits, e.kind = .add := by
  constructor
  · rintro ⟨x, hx, hk⟩
    exact ⟨x.1, runOrder_fst_mem (mem_of_mem_madeIn hx), hk⟩
  · rintro ⟨e, he, hk⟩
    obtain ⟨i, hi⟩ := List.mem_iff_getElem?.1 he
    have hrun : (e, i) ∈ runOrder edits := mem_runOrder.2 hi
    exact ⟨(e, i), mem_madeIn_of_add hrun hk (by simp [(h.add he hk).1]), hk⟩

end OpenLast

/-- What a run leaves of lines of which the last one alone is open: it is removed, or it stays with
ended lines around it. Lines are behind it only if some were added and it was not empty. -/
inductive RunEnds (A : List String) (p : String) (made : List (Edit × Nat))
    (final : List String) : Prop where
  | removed (removes : ∃ x ∈ made, x.1.kind = .remove ∧ x.1.line = some (A.length + 1 : Int))
      (ended : AllEnded final)
  | kept {above behind : List String} {last : String}
      (keeps : ∀ x ∈ made, x.1.kind = .remove → x.1.line ≠ some (A.length + 1 : Int))
      (lines : final = above ++ last :: behind) (above_ended : AllEnded above)
      (last_open : HasEnd false last.toList) (behind_ended : AllEnded behind)
      (behind_iff : behind = [] ↔ ((∃ x ∈ made, x.1.kind = .add) → p = ""))

theorem OpenLast.runEnds (h : OpenLast A p edits) :
    RunEnds A p (madeIn (runOrder edits) (A ++ [p]))
      (applyInTurn (runOrder edits) (A ++ [p])).2 := by
  have hfirst := applyInTurn_lowest A p edits
  have hended := h.allEnded_addedAt (A.length + 1)
  rcases applyInTurn_open h.last hended fun x hx => h.replacesOpen hx with
    ⟨⟨x, hx, hremove⟩, hlines⟩ | ⟨hkept, last, hopen, hlines⟩
  · refine .removed ⟨x, ?_, hremove, (h.replacesOpen (mem_of_mem_madeIn hx)).line⟩ ?_
    · rw [h.runOrder_eq, madeIn_append, hfirst, madeIn_append]
      exact List.mem_append_right _ (List.mem_append_left _ hx)
    · rw [h.runOrder_eq, applyInTurn_append, hfirst, applyInTurn_append, hlines]
      exact allEnded_applyInTurn (fun y hy => h.keeps _ (h.mem_of_rest hy))
        (allEnded_append.2 ⟨h.ended, hended⟩)
  · obtain ⟨above, habove, hfinal⟩ := h.applyInTurn_rest hopen (addedAt edits (A.length + 1))
    refine .kept (fun x hx hremove => ?_) ?_ habove hopen hended ?_
    · rw [h.runOrder_eq, madeIn_append, hfirst, madeIn_append] at hx
      rcases List.mem_append.1 hx with hx | hx
      · have hadd := mem_additionsAt (by omega) (List.mem_reverse.1 (mem_of_mem_madeIn hx))
        rw [hadd.1] at hremove
        cases hremove
      · rcases List.mem_append.1 hx with hx | hx
        · exact absurd hremove (hkept x hx)
        · exact h.line_ne_of_rest (mem_of_mem_madeIn hx) hremove
    · rw [h.runOrder_eq, applyInTurn_append, hfirst, applyInTurn_append, hlines]
      exact hfinal
    · rw [h.made_add_iff]
      exact h.addedAt_eq_nil_iff

end Run

end ExportLint.Fix
