import ExportLint.Proofs.EditCounts

/-!
# Edits that say the same

Several edits may ask for the same change of a line: they expect what it holds and give it one text.
The first of them changes the line, and the next one no longer finds what it expects there. So
unless the edits are idle, all of them succeed only if they are one and the same edit.
-/
namespace ExportLint.Fix

/-- An edit is aimed at a line that it replaces. -/
def Aimed (e : Edit) : Prop := e.kind.replacesLine = true ∧ e.line.isSome = true

/-- Edits agree on some lines: those that replace a line expect what it holds, and give it the same
text. -/
structure Agree (lines : List String) (edits : List Edit) : Prop where
  current : ∀ e ∈ edits, e.kind.replacesLine = true → ∀ n, e.line = some n →
    1 ≤ n ∧ ∃ x, lines[(n - 1).toNat]? = some x ∧ e.expected = some x
  text : ∀ a ∈ edits, ∀ b ∈ edits, Aimed a → Aimed b → a.line = b.line → a.text = b.text

/-- Edits of a line are one edit, or they leave the line as it is. -/
def Repeatable (edits : List Edit) : Prop :=
  ∀ a ∈ edits, ∀ b ∈ edits, Aimed a → Aimed b → a.line = b.line →
    a = b ∨ a.kind ≠ .remove ∧ b.kind ≠ .remove ∧ a.expected = some a.text

/-- The texts of the insertions behind the lines with a property. -/
def addedWhere (edits : List Edit) (p : Int → Bool) : List String :=
  (edits.filter fun e => e.kind = .add ∧ e.line.any p).map (·.text)

/-- Every line is changed once, by the first edit that replaces it. Apart from that there are the
insertions, with those above the first line and those below the last one in some order. -/
def MadeOnce (lines : List String) (edits : List Edit) (final : List String) : Prop :=
  ∃ top bottom, final = top ++ linesAfter edits lines ++ bottom ∧
    top.Perm (addedWhere edits (· ≤ 0)) ∧ bottom.Perm (addedWhere edits (lines.length < ·))

theorem perm_filter_runOrder (edits : List Edit) (p : Edit → Bool) :
    (((runOrder edits).filter fun x => p x.1).map Prod.fst).Perm (edits.filter p) := by
  rw [← map_fst_filter_zipIdx]
  exact ((List.mergeSort_perm _ _).filter _).map _

theorem perm_insertedTexts_runFrom (edits : List Edit) :
    (insertedTexts (runFrom edits 0)).Perm (addedWhere edits (· ≤ 0)) := by
  have h := (perm_filter_runOrder edits fun e => e.kind = .add ∧ e.line.any (· ≤ 0)).map (·.text)
  refine List.Perm.trans (List.Perm.of_eq ?_) h
  rw [insertedTexts, runFrom, List.filter_filter, List.map_map]
  congr 1
  apply List.filter_congr
  intro x _
  cases hl : x.1.line <;> simp [Edit.height, hl]

theorem insertLine_append (lines behind : List String) {n : Int} (h : lines.length < n)
    (text : String) : ∃ behind', insertLine (lines ++ behind)
      (insertionPoint (lines ++ behind) n) text = lines ++ behind' ∧
        behind'.Perm (text :: behind) := by
  obtain ⟨k, hk⟩ : ∃ k, insertionPoint (lines ++ behind) n = lines.length + k := by
    refine ⟨min n.toNat (lines ++ behind).length - lines.length, ?_⟩
    simp only [insertionPoint, List.length_append]
    omega
  refine ⟨behind.take k ++ text :: behind.drop k, ?_, ?_⟩
  · rw [hk, insertLine, List.take_length_add_append, List.drop_length_add_append, List.append_assoc]
  · have h : (behind.take k ++ text :: behind.drop k).Perm
        (text :: (behind.take k ++ behind.drop k)) := List.perm_middle
    rwa [List.take_append_drop] at h

/-- Insertions below all lines are made behind them. -/
theorem applyInTurn_below {lines : List String} (behind : List String) {xs : List (Edit × Nat)}
    (h : ∀ x ∈ xs, x.1.kind = .add ∧ ∃ n : Int, x.1.line = some n ∧ lines.length < n) :
    ∃ behind', applyInTurn xs (lines ++ behind) = ([], lines ++ behind') ∧
      behind'.Perm (xs.map (·.1.text) ++ behind) := by
  induction xs generalizing behind with
  | nil => exact ⟨behind, rfl, by simp⟩
  | cons x xs ih =>
    obtain ⟨hk, n, hl, hn⟩ := h x List.mem_cons_self
    obtain ⟨next, hi, hp⟩ := insertLine_append lines behind hn x.1.text
    obtain ⟨behind', ha, hp'⟩ := ih next fun y hy => h y (List.mem_cons_of_mem _ hy)
    refine ⟨behind', ?_, ?_⟩
    · simp only [applyInTurn, applyEdit_add hk hl, hi]
      exact ha
    · rw [List.map_cons, List.cons_append]
      exact hp'.trans ((hp.append_left _).trans List.perm_middle)

namespace Agree

variable {lines : List String} {edits : List Edit}

/-- Every edit that is aimed at a line suits the lines. -/
theorem suits (h : Agree lines edits) {e : Edit} (he : e ∈ edits) (ha : Aimed e) :
    Suits lines e := by
  obtain ⟨n, hl⟩ := Option.isSome_iff_exists.1 ha.2
  obtain ⟨h1, x, hx, hs⟩ := h.current e he ha.1 n hl
  exact ⟨n, hl, .inr ⟨h1, x, hx, .inr hs⟩⟩

/-- Below all lines there are only insertions. -/
theorem mem_runBelow (h : Agree lines edits) {x : Edit × Nat}
    (hx : x ∈ runBelow edits lines.length) :
    x.1.kind = .add ∧ ∃ n : Int, x.1.line = some n ∧ lines.length < n := by
  obtain ⟨hm, hb⟩ := List.mem_filter.1 hx
  rw [decide_eq_true_iff] at hb
  cases hl : x.1.line with
  | none =>
    simp only [Edit.height, hl, Option.getD_none] at hb
    omega
  | some n =>
    simp only [Edit.height, hl, Option.getD_some] at hb
    refine ⟨?_, n, rfl, hb⟩
    by_contra hk
    obtain ⟨h1, y, hy, -⟩ := h.current x.1 (runOrder_fst_mem hm) (replacesLine_iff.2 hk) n hl
    have := (List.getElem?_eq_some_iff.1 hy).1
    omega

theorem applyInTurn_runBelow (h : Agree lines edits) :
    ∃ bottom, applyInTurn (runBelow edits lines.length) lines =
      (faultsOn lines (runBelow edits lines.length), lines ++ bottom) ∧
        bottom.Perm (addedWhere edits (lines.length < ·)) := by
  obtain ⟨bottom, ha, hp⟩ := applyInTurn_below [] fun x hx => h.mem_runBelow hx
  have hf : faultsOn lines (runBelow edits lines.length) = [] := by
    refine faultsOn_eq_nil fun x hx => faultOn_eq_none_iff.2 ?_
    obtain ⟨hk, n, hl, -⟩ := h.mem_runBelow hx
    exact ⟨n, hl, .inl hk⟩
  rw [List.append_nil] at ha hp
  refine ⟨bottom, by rw [ha, hf], hp.trans ?_⟩
  have hp' := (perm_filter_runOrder edits fun e =>
    e.kind = .add ∧ e.line.any ((lines.length : Int) < ·)).map (·.text)
  refine List.Perm.trans (List.Perm.of_eq ?_) hp'
  rw [List.map_map, runBelow]
  congr 1
  apply List.filter_congr
  intro x hx
  by_cases hb : lines.length < x.1.height
  · have hm : x ∈ runBelow edits lines.length :=
      List.mem_filter.2 ⟨hx, decide_eq_true hb⟩
    obtain ⟨hk, n, hl, hn⟩ := h.mem_runBelow hm
    simp [hb, hk, hl, hn]
  · cases hl : x.1.line with
    | none => simp [hb]
    | some n =>
      simp only [Edit.height, hl, Option.getD_some] at hb
      simp [Edit.height, hl, hb]

/-- Edits of a line that can be repeated come to one change of it. -/
theorem oneChange (h : Agree lines edits) (hd : edits.Nodup) (hr : Repeatable edits) {k : Nat}
    {x : String} (hx : lines[k]? = some x) : OneChange edits (k + 1) x := by
  have hn : (k : Int) + 1 ≠ 0 := by omega
  have hi : ((k : Int) + 1 - 1).toNat = k := by omega
  have hnd : ((replacementsAt edits (k + 1)).map Prod.fst).Nodup := by
    rw [map_replacementsAt hn]
    exact hd.filter _
  by_cases hlen : (replacementsAt edits (k + 1)).length ≤ 1
  · exact .inl hlen
  · right
    intro r hrm
    obtain ⟨hk, hl⟩ := mem_replacementsAt hn hrm
    have mem (s : Edit × Nat) (hs : s ∈ replacementsAt edits (k + 1)) : s.1 ∈ edits :=
      List.fst_mem_of_mem_zipIdx (List.mem_filter.1 hs).1
    obtain ⟨s, hsm, hne⟩ : ∃ s ∈ replacementsAt edits (k + 1), s.1 ≠ r.1 := by
      by_contra hall
      push Not at hall
      match hs : replacementsAt edits (k + 1) with
      | [] => simp [hs] at hlen
      | [_] => simp [hs] at hlen
      | a :: b :: _ =>
        rw [hs] at hnd hall
        have hab : a.1 = b.1 := (hall a (by simp)).trans (hall b (by simp)).symm
        simp [hab] at hnd
    obtain ⟨hsk, hsl⟩ := mem_replacementsAt hn hsm
    obtain ⟨-, y, hy, he⟩ := h.current r.1 (mem r hrm) hk _ hl
    rw [hi, hx] at hy
    cases hy
    rcases hr r.1 (mem r hrm) s.1 (mem s hsm) ⟨hk, by simp [hl]⟩ ⟨hsk, by simp [hsl]⟩
      (hl.trans hsl.symm) with heq | ⟨hkeep, -, ht⟩
    · exact absurd heq.symm hne
    · rw [he] at ht
      exact ⟨hkeep, he, (Option.some.inj ht).symm⟩

/-- Edits that can be repeated are all judged by the lines as they were, and each of their changes
is made once. -/
theorem applyEdits (h : Agree lines edits) (hd : edits.Nodup) (hr : Repeatable edits) :
    ∃ final, Fix.applyEdits lines edits = (edits.map fun e => (e, faultOn lines e), final) ∧
      MadeOnce lines edits final := by
  obtain ⟨bottom, hb, hp⟩ := h.applyInTurn_runBelow
  refine ⟨_, applyEdits_eq (fun k x hx => h.oneChange hd hr hx) hb, _, bottom, rfl, ?_, hp⟩
  exact (List.reverse_perm _).trans (perm_insertedTexts_runFrom edits)

end Agree

/-- An edit below some lines leaves them as they are. -/
theorem applyEdit_keeps {before behind next : List String} {e : Edit}
    (h : before.length < e.height) (ha : applyEdit (before ++ behind) e = .ok next) :
    ∃ behind', next = before ++ behind' := by
  cases hl : e.line with
  | none =>
    simp only [Edit.height, hl, Option.getD_none] at h
    omega
  | some n =>
    simp only [Edit.height, hl, Option.getD_some] at h
    simp only [applyEdit, hl] at ha
    split at ha
    · cases ha
      obtain ⟨behind', hi, -⟩ := insertLine_append before behind h e.text
      exact ⟨behind', hi⟩
    · split at ha
      · cases ha
      · have hle : before.length ≤ (n - 1).toNat := by omega
        split at ha
        · cases ha
        · split at ha
          · cases ha
            exact ⟨_, List.eraseIdx_append_of_length_le hle _⟩
          · cases ha
            exact ⟨_, List.set_append_right _ _ hle⟩

theorem applyInTurn_keeps {before : List String} (behind : List String) {xs : List (Edit × Nat)}
    (h : ∀ x ∈ xs, before.length < x.1.height) :
    ∃ behind', (applyInTurn xs (before ++ behind)).2 = before ++ behind' := by
  induction xs generalizing behind with
  | nil => exact ⟨behind, rfl⟩
  | cons x xs ih =>
    obtain ⟨e, i⟩ := x
    have hxs := fun rest => ih rest fun y hy => h y (List.mem_cons_of_mem _ hy)
    simp only [applyInTurn]
    split
    · rename_i next ha
      obtain ⟨behind', rfl⟩ := applyEdit_keeps (h _ List.mem_cons_self) ha
      exact hxs behind'
    · exact hxs behind

/-- All edits that are aimed at a line succeed. -/
def AllMade (lines : List String) (edits : List Edit) : Prop :=
  ∀ x ∈ (applyEdits lines edits).1, Aimed x.1 → x.2 = none

theorem lookup_ne_none {xs : List (Nat × EditFault)} {i : Nat} (h : i ∈ xs.map Prod.fst) :
    xs.lookup i ≠ none := by
  obtain ⟨x, hx, rfl⟩ := List.mem_map.1 h
  intro hn
  exact absurd (List.lookup_eq_none_iff.1 hn x hx) (by simp)

theorem AllMade.not_mem_faults {lines : List String} {edits : List Edit} (h : AllMade lines edits)
    {x : Edit × Nat} (hx : x ∈ runOrder edits) (ha : Aimed x.1) :
    x.2 ∉ (applyInTurn (runOrder edits) lines).1.map Prod.fst := by
  intro hm
  refine lookup_ne_none hm (h (x.1, _) ?_ ha)
  simp only [applyEdits, List.mem_map]
  exact ⟨x, List.mem_zipIdx_iff_getElem?.2 (mem_runOrder.1 hx), rfl⟩

/-- The line at which a run arrives is as it was. -/
theorem exists_runBelow_keeps (edits : List Edit) (before behind : List String) (x : String) :
    ∃ behind', (applyInTurn (runBelow edits (before.length + 1)) (before ++ x :: behind)).2 =
      before ++ x :: behind' := by
  have hbelow : ∀ y ∈ runBelow edits (before.length + 1),
      ((before ++ [x]).length : Int) < y.1.height := by
    intro y hy
    have := (List.mem_filter.1 hy).2
    rw [decide_eq_true_iff] at this
    simp only [List.length_append, List.length_cons, List.length_nil]
    omega
  obtain ⟨behind', hb⟩ := applyInTurn_keeps behind hbelow
  refine ⟨behind', ?_⟩
  simpa using hb

/-- The replacements of a line find it as it was. What fails there is a fault of the whole run. -/
theorem exists_faults_replacementsAt (edits : List Edit) (before behind : List String)
    (x : String) : ∃ behind',
      ∀ f ∈ (applyInTurn (replacementsAt edits (before.length + 1)) (before ++ x :: behind')).1,
        f ∈ (applyInTurn (runOrder edits) (before ++ x :: behind)).1 := by
  obtain ⟨below, hb⟩ := exists_runBelow_keeps edits before behind x
  have h0 : (before.length : Int) + 1 ≠ 0 := by omega
  have hadd : ∀ y ∈ (additionsAt edits (before.length + 1)).reverse,
      y.1.kind = .add ∧ y.1.line = some ((before ++ [x]).length : Int) := by
    intro y hy
    simpa using mem_additionsAt h0 (List.mem_reverse.1 hy)
  obtain ⟨rest, ha⟩ : ∃ rest, applyInTurn (additionsAt edits (before.length + 1)).reverse
      (before ++ x :: below) = ([], before ++ x :: rest) :=
    ⟨_, by simpa using applyInTurn_additions below hadd⟩
  refine ⟨rest, fun f hf => ?_⟩
  rw [runOrder_eq edits (before.length + 1), applyInTurn_append, hb, runFrom_succ,
    List.append_assoc, applyInTurn_append, ha, applyInTurn_append]
  exact List.mem_append_right _ (List.mem_append_right _ (List.mem_append_left _ hf))

/-- The second of two edits of a line does not find what it expects. -/
theorem mem_faults_of_stale {before : List String} (behind : List String) {x : String} {n : Int}
    {r s : Edit × Nat} (rest : List (Edit × Nat)) (hn : n = before.length + 1)
    (hr : r.1.kind.replacesLine = true ∧ r.1.line = some n)
    (hs : s.1.kind.replacesLine = true ∧ s.1.line = some n) (hkeep : r.1.kind ≠ .remove)
    (hre : r.1.expected = some x) (hse : s.1.expected = some x) (ht : r.1.text ≠ x) :
    (s.2, EditFault.stale n) ∈ (applyInTurn (r :: s :: rest) (before ++ x :: behind)).1 := by
  have hfirst : applyEdit (before ++ x :: behind) r.1 = .ok (before ++ r.1.text :: behind) := by
    rw [applyEdit_replace _ hr.1 hr.2 hn]
    simp [replaced, hre, hkeep]
  have hsecond : applyEdit (before ++ r.1.text :: behind) s.1 = .error (.stale n) := by
    rw [applyEdit_replace _ hs.1 hs.2 hn, if_pos]
    simpa [hse] using Ne.symm ht
  simp only [applyInTurn, hfirst, hsecond]
  exact List.mem_cons_self

/-- Edits of one line all remove it, or none of them does. -/
def RemoveAlike (edits : List Edit) : Prop :=
  ∀ a ∈ edits, ∀ b ∈ edits, Aimed a → Aimed b → a.line = b.line →
    (a.kind = .remove ↔ b.kind = .remove)

/-- If two edits of a line succeed and the line stays, then they leave it as it is. -/
theorem AllMade.expected_eq_text {lines : List String} {edits : List Edit}
    (h : AllMade lines edits) (hg : Agree lines edits) (hl : RemoveAlike edits) {a b : Edit}
    (ha : a ∈ edits) (hb : b ∈ edits) (haim : Aimed a) (hbim : Aimed b) (hab : a.line = b.line)
    (hne : a ≠ b) (hkeep : a.kind ≠ .remove) : a.expected = some a.text := by
  obtain ⟨n, hn⟩ := Option.isSome_iff_exists.1 haim.2
  obtain ⟨h1, x, hx, he⟩ := hg.current a ha haim.1 n hn
  obtain ⟨before, behind, hlines, hlen⟩ := exists_split_at h1 hx
  have h0 : n ≠ 0 := by omega
  obtain ⟨behind', hf⟩ := exists_faults_replacementsAt edits before behind x
  rw [← hlines, ← hlen] at hf
  have mem {r : Edit × Nat} (hr : r ∈ replacementsAt edits n) : r ∈ edits.zipIdx :=
    (List.mem_filter.1 hr).1
  have mem_of {e : Edit} (hm : e ∈ edits) (hk : Aimed e) (hen : e.line = some n) :
      e ∈ (replacementsAt edits n).map Prod.fst := by
    rw [map_replacementsAt h0, List.mem_filter]
    exact ⟨hm, by simp [hk.1, hen]⟩
  have expects {r : Edit × Nat} (hr : r ∈ replacementsAt edits n) : r.1.expected = some x := by
    obtain ⟨hk, hrl⟩ := mem_replacementsAt h0 hr
    obtain ⟨-, y, hy, hre⟩ := hg.current r.1 (List.fst_mem_of_mem_zipIdx (mem hr)) hk n hrl
    rw [hx] at hy
    rwa [Option.some.inj hy]
  have ham := mem_of ha haim hn
  have hbm := mem_of hb hbim (hab ▸ hn)
  match hrs : replacementsAt edits n with
  | [] => simp [hrs] at ham
  | [r] =>
    simp only [hrs, List.map_cons, List.map_nil, List.mem_singleton] at ham hbm
    exact absurd (ham.trans hbm.symm) hne
  | r :: s :: rest =>
    have hr : r ∈ replacementsAt edits n := by simp [hrs]
    have hs : s ∈ replacementsAt edits n := by simp [hrs]
    have hrl := mem_replacementsAt h0 hr
    have hsl := mem_replacementsAt h0 hs
    have hre : r.1 ∈ edits := List.fst_mem_of_mem_zipIdx (mem hr)
    have hrim : Aimed r.1 := ⟨hrl.1, by simp [hrl.2]⟩
    have hrk : r.1.kind ≠ .remove := fun hk =>
      hkeep ((hl a ha r.1 hre haim hrim (hn.trans hrl.2.symm)).2 hk)
    have hrt : a.text = r.1.text := hg.text a ha r.1 hre haim hrim (hn.trans hrl.2.symm)
    by_contra ht
    have htx : r.1.text ≠ x := by
      intro h
      rw [he, hrt, h] at ht
      exact ht rfl
    have hfault := mem_faults_of_stale behind' rest hlen hrl hsl hrk
      (expects hr) (expects hs) htx
    rw [← hrs] at hfault
    refine h.not_mem_faults (x := s) ?_ ⟨hsl.1, by simp [hsl.2]⟩
      (List.mem_map.2 ⟨_, hf _ hfault, rfl⟩)
    exact mem_runOrder.2 (List.mem_zipIdx_iff_getElem?.1 (mem hs))

theorem length_addedWhere (edits : List Edit) (p : Int → Bool) :
    (addedWhere edits p).length = countAt edits .add p := by
  rw [addedWhere, List.length_map, ← List.countP_eq_length_filter, countAt]

/-- If all removals succeed and the lines are each changed once, then no two of them are aimed at
one line. -/
theorem AllMade.eq_of_remove {lines : List String} {edits : List Edit} (h : AllMade lines edits)
    (hg : Agree lines edits) (hm : MadeOnce lines edits (applyEdits lines edits).2) {a b : Edit}
    (ha : a ∈ edits) (hb : b ∈ edits) (haim : Aimed a) (hab : a.line = b.line)
    (hka : a.kind = .remove) (hkb : b.kind = .remove) : a = b := by
  by_contra hne
  obtain ⟨n, hn⟩ := Option.isSome_iff_exists.1 haim.2
  have within {e : Edit} (he : e ∈ edits) (hk : e.kind = .remove) {m : Int} (hl : e.line = some m) :
      isWithin lines.length m = true := by
    obtain ⟨h1, x, hx, -⟩ := hg.current e he (replacesLine_iff.2 (by simp [hk])) m hl
    have := (List.getElem?_eq_some_iff.1 hx).1
    simp only [isWithin, decide_eq_true_iff]
    omega
  have hlt := length_lt_length_linesAfter (within ha hka hn)
    (two_le_countAt ha hb hne hka hkb hn (hab ▸ hn))
  have hlen : (applyEdits lines edits).2.length + countAt edits .remove (fun _ => true) =
      lines.length + countAt edits .add (fun _ => true) := by
    rw [← countAt_map_runOrder edits .remove, ← countAt_map_runOrder edits .add]
    exact length_applyInTurn fun x hx hk hl => h.not_mem_faults hx ⟨hk, hl⟩
  have hremoved : countAt edits .remove (fun _ => true) =
      countAt edits .remove (isWithin lines.length) :=
    countAt_congr fun e he hk m hl => (within he hk hl).symm
  have hadded : countAt edits .add (fun _ => true) =
      countAt edits .add (· ≤ 0) + countAt edits .add (0 < ·) := by
    apply countAt_or <;> intro m <;> simp only [decide_eq_true_iff, true_iff] <;> omega
  have hbelow : countAt edits .add (0 < ·) =
      countAt edits .add (isWithin lines.length) +
        countAt edits .add ((lines.length : Int) < ·) := by
    apply countAt_or <;> intro m <;> simp only [isWithin, decide_eq_true_iff] <;> omega
  obtain ⟨top, bottom, hf, ht, hbot⟩ := hm
  have hfl := congrArg List.length hf
  rw [List.length_append, List.length_append, ht.length_eq, hbot.length_eq, length_addedWhere,
    length_addedWhere] at hfl
  omega

/-- Edits that agree all succeed and are each made once only if they can be repeated. -/
theorem AllMade.repeatable {lines : List String} {edits : List Edit} (h : AllMade lines edits)
    (hg : Agree lines edits) (hl : RemoveAlike edits)
    (hm : MadeOnce lines edits (applyEdits lines edits).2) : Repeatable edits := by
  intro a ha b hb haim hbim hab
  by_cases hne : a = b
  · exact .inl hne
  · have halike := hl a ha b hb haim hbim hab
    by_cases hk : a.kind = .remove
    · exact absurd (h.eq_of_remove hg hm ha hb haim hab hk (halike.1 hk)) hne
    · exact .inr ⟨hk, fun hkb => hk (halike.2 hkb),
        h.expected_eq_text hg hl ha hb haim hbim hab hne hk⟩

end ExportLint.Fix
