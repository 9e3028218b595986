import ExportLint.Proofs.LineEndRuns
import ExportLint.Proofs.Utf8Encoding

/-!
# Line ends that are kept

A file whose line ends are pairs of a carriage return and a line feed may have no line end behind
its last line. What is added to the file is then put behind a line without an end, and if that line
is dropped then the one above it is left with half of its own. Nothing else breaks the pairs.
-/
namespace ExportLint.Fix

open Text

section FinalText

variable {A final above behind : List String} {p last : String} {made : List (Edit × Nat)}

theorem AllEnded.lineFeed_not_mem (h : AllEnded final) : ∀ l ∈ final, '\n' ∉ l.toList :=
  fun l hl => (h l hl).lineFeed_not_mem

/-- Lines that are all ended break off in half of a line end, unless there are none. -/
theorem endsPaired_of_allEnded (h : AllEnded final) :
    EndsPaired (unlines final).toList ↔ (unlines final).toList = [] := by
  rcases List.eq_nil_or_concat final with rfl | ⟨front, l, rfl⟩
  · refine iff_of_true (endsPaired_iff.2 ?_) rfl
    exact List.not_mem_nil
  · rw [List.concat_eq_append] at h ⊢
    have hl : IsEnded l.toList := (h l (by simp)).isEnded
    have hsplit := splitLines_unlines h.lineFeed_not_mem (by simp)
    refine iff_of_false (fun hpaired => ?_) fun hnil => ?_
    · rw [endsPaired_iff, hsplit, List.map_append, List.map_singleton,
        linesEnded_concat_iff] at hpaired
      exact hpaired.2 hl.mem
    · rw [hnil, List.map_append, List.map_singleton] at hsplit
      have hempty : ([] : List Char) = l.toList := by
        have hlast := congrArg List.getLast? hsplit
        rw [List.getLast?_concat] at hlast
        exact Option.some.inj hlast
      exact not_isEnded_nil (hempty ▸ hl)

/-- An open line has pairs for line ends around it exactly if it is the last one. -/
theorem endsPaired_of_open (ha : AllEnded above) (hl : HasEnd false last.toList)
    (hb : AllEnded behind) :
    EndsPaired (unlines (above ++ last :: behind)).toList ↔ behind = [] := by
  have hfree : ∀ l ∈ above ++ last :: behind, '\n' ∉ l.toList := by
    intro l hm
    rcases List.mem_append.1 hm with hm | hm
    · exact ha.lineFeed_not_mem l hm
    · rcases List.mem_cons.1 hm with rfl | hm
      · exact hl.lineFeed_not_mem
      · exact hb.lineFeed_not_mem l hm
  rw [endsPaired_iff, splitLines_unlines hfree (by simp)]
  rcases List.eq_nil_or_concat behind with rfl | ⟨front, l, rfl⟩
  · rw [List.map_append, List.map_singleton, linesEnded_concat_iff, List.forall_mem_map]
    exact iff_of_true ⟨fun x hx => (ha x hx).isEnded, (hasEnd_false_iff.1 hl).1⟩ rfl
  · rw [List.concat_eq_append, ← List.cons_append, ← List.append_assoc, List.map_append,
      List.map_singleton, linesEnded_concat_iff]
    refine iff_of_false (fun h => h.2 ?_) (by simp)
    exact (hb l (by simp)).isEnded.mem

/-- What a run leaves has pairs for line ends exactly if it is empty, or the last line stays and
nothing is behind it. -/
theorem RunEnds.endsPaired_iff (h : RunEnds A p made final) :
    EndsPaired (unlines final).toList ↔ (unlines final).toList = [] ∨
      (¬∃ x ∈ made, x.1.kind = .remove ∧ x.1.line = some (A.length + 1 : Int)) ∧
        ((∃ x ∈ made, x.1.kind = .add) → p = "") := by
  cases h with
  | removed removes ended =>
    rw [endsPaired_of_allEnded ended, iff_self_or]
    exact fun h => absurd removes h.1
  | @kept above behind last keeps lines above_ended last_open behind_ended behind_iff =>
    have hpaired := endsPaired_of_open above_ended last_open behind_ended
    have hkeeps : ¬∃ x ∈ made, x.1.kind = .remove ∧ x.1.line = some (A.length + 1 : Int) := by
      rintro ⟨x, hx, hk, hl⟩
      exact keeps x hx hk hl
    rw [lines, hpaired, behind_iff, and_iff_right hkeeps, iff_or_self, ← behind_iff, ← hpaired]
    intro hnil
    rw [hnil, Text.endsPaired_iff]
    exact List.not_mem_nil

end FinalText

section OneFile

variable {d d' : Disk} {now : Moment} {c : Config} {o : Options} {file : String}
  {is : List Issue} {bytes : List UInt8} {cs : List Char} {b : Batch}

/-- The lines of a text whose line ends are pairs, with at least one of them. -/
theorem exists_lines_of_endsPaired (hpaired : EndsPaired cs) (hfeed : '\n' ∈ cs) :
    ∃ A p, lines (String.ofList cs) = A ++ [p] ∧ AllEnded A ∧ A ≠ [] ∧ HasEnd false p.toList ∧
      A.length = cs.count '\n' ∧ (p = "" ↔ cs.getLast? = some '\n') := by
  have hlines := toList_lines cs
  have hlen := length_splitLines cs
  have hcount : 0 < cs.count '\n' := List.count_pos_iff.2 hfeed
  rcases List.eq_nil_or_concat (lines (String.ofList cs)) with hnil | ⟨A, p, hA⟩
  · rw [← hlines, hnil, List.map_nil, List.length_nil] at hlen
    omega
  · rw [List.concat_eq_append] at hA
    rw [hA, List.map_append, List.map_singleton] at hlines
    have hfree {line : List Char} (hm : line ∈ A.map String.toList ++ [p.toList]) : '\n' ∉ line :=
      not_mem_of_mem_splitLines (hlines ▸ hm)
    rw [endsPaired_iff, ← hlines, linesEnded_concat_iff, List.forall_mem_map] at hpaired
    have hlenA : A.length = cs.count '\n' := by
      rw [← hlines, List.length_append, List.length_map, List.length_singleton] at hlen
      omega
    have hne : A ≠ [] := List.length_pos_iff.1 (by omega)
    refine ⟨A, p, hA, fun l hl => ?_, hne, ?_, hlenA, ?_⟩
    · exact hasEnd_of_isEnded (hpaired.1 l hl)
        (hfree (List.mem_append_left _ (List.mem_map_of_mem hl)))
    · exact hasEnd_false_iff.2 ⟨hpaired.2, hfree (by simp)⟩
    · rw [getLast?_eq_lineFeed_iff hlines.symm (by simpa using hne), String.toList_eq_nil_iff]

theorem decode_bytesOf (final : List String) :
    Utf8.decode (bytesOf final) = .ok (unlines final).toList := by
  have h := Utf8.decode_encode (unlines final).toList
  rwa [String.ofList_toList] at h

/-- The last line of a text is dropped. -/
def DropsLast (cs : List Char) (b : Batch) : Prop :=
  ∃ r ∈ b.results, r.success = true ∧ r.edit.kind = .remove ∧
    r.edit.line = some (cs.count '\n' + 1 : Int)

/-- A line is added to a file. -/
def Adds (b : Batch) : Prop := ∃ r ∈ b.results, r.success = true ∧ r.edit.kind = .add

/-- A run for one file makes the edits of its issues that are allowed. -/
theorem exists_edits_of_run (hdry : o.dryRun = false)
    (h : run d now c o [(file, is)] = .ok (b, d')) :
    ∃ proposed, Fix.edits d c.conventions o.categories file is = .ok proposed ∧
      applyAll d now c o (proposed.filter fun e => !isRisky c o e)
        (proposed.filter (isRisky c o)) = (b, d') := by
  cases hproposed : Fix.edits d c.conventions o.categories file is with
  | error f =>
    have hfails : run d now c o [(file, is)] = .error f := by
      rw [run, List.mapM_cons]
      dsimp only
      rw [hproposed]
      rfl
    rw [hfails] at h
    cases h
  | ok proposed =>
    have hgroups : ([(file, is)].mapM fun f =>
        Fix.edits d c.conventions o.categories f.1 f.2) = .ok [proposed] := by
      rw [List.mapM_cons, hproposed]
      rfl
    rw [run_eq now hgroups, makeAllowed, hdry, Except.ok.injEq] at h
    simp only [List.flatten_cons, List.flatten_nil, List.append_nil, Bool.false_eq_true,
      if_false] at h
    exact ⟨proposed, rfl, h⟩

/-- A file whose line ends are pairs of a carriage return and a line feed, with at least one of
them, is fixed for issues with plain names. Then its line ends are pairs again exactly if it is left
empty, or its last line is not dropped and, if something is added, the file ended in a line end. -/
theorem line_ends_kept_iff (hb : d.readBytes (Path.parse file).text = .ok bytes)
    (hcs : Utf8.decode bytes = .ok cs) (hfeed : '\n' ∈ cs) (hpaired : EndsPaired cs)
    (hplain : ∀ i ∈ is, PlainNames i) (hdry : o.dryRun = false)
    (h : run d now c o [(file, is)] = .ok (b, d')) :
    ∃ bytes' cs', d'.readBytes (Path.parse file).text = .ok bytes' ∧
      Utf8.decode bytes' = .ok cs' ∧
      (EndsPaired cs' ↔
        cs' = [] ∨ ¬DropsLast cs b ∧ (Adds b → cs.getLast? = some '\n')) := by
  obtain ⟨proposed, hproposed, happly⟩ := exists_edits_of_run hdry h
  obtain ⟨A, p, hlines, hA, hne, hp, hlen, hend⟩ := exists_lines_of_endsPaired hpaired hfeed
  have hread : d.readLines (Path.parse file).text = .ok (A ++ [p]) := by
    simp only [Disk.readLines, hb, hcs, hlines]
  have hfile : ∀ e ∈ proposed.filter fun e => !isRisky c o e, e.file = file := fun e he =>
    (exists_editFor hproposed (List.mem_filter.1 he).1).1
  have hopen : OpenLast A p (applicable (proposed.filter fun e => !isRisky c o e)) := by
    refine ⟨hA, hne, hp, fun e he => ?_⟩
    have he' := (List.mem_filter.1 (mem_applicable_iff.1 he).1).1
    obtain ⟨-, lines, hlines', i, hi, hfor⟩ := exists_editFor hproposed he'
    rw [Path.tidy, hread, Except.ok.injEq] at hlines'
    subst hlines'
    obtain ⟨first, rest, rfl⟩ := List.exists_cons_of_ne_nil hne
    exact hfor.keepsEnds (hplain i hi) rfl (hA first List.mem_cons_self)
  have hfull : bytes ≠ [] := by
    rintro rfl
    cases hcs
    exact List.not_mem_nil hfeed
  have hsettles := settles_applyAll now c o (proposed.filter (isRisky c o)) hb hfull hread hfile
  rw [happly] at hsettles
  rcases hsettles with ⟨hfails, hkeeps⟩ | ⟨final, ⟨hsuccesses, hfinal⟩, hwritten⟩
  · refine ⟨bytes, cs, hkeeps, hcs, iff_of_true hpaired (.inr ⟨?_, ?_⟩)⟩
    · rintro ⟨r, hr, hs, -⟩
      exact Bool.false_ne_true ((hfails r hr).symm.trans hs)
    · rintro ⟨r, hr, hs, -⟩
      exact absurd ((hfails r hr).symm.trans hs) Bool.false_ne_true
  · have hends := hopen.runEnds
    rw [← hfinal] at hends
    refine ⟨_, _, hwritten, decode_bytesOf final, ?_⟩
    rw [hends.endsPaired_iff, DropsLast, Adds, hsuccesses fun e => e.kind = .remove ∧
      e.line = some (cs.count '\n' + 1 : Int), hsuccesses fun e => e.kind = .add, hend, hlen]

end OneFile

/-- The text `a;`, a line end of two characters, and `b;` without one. -/
def openBytes : List UInt8 := [97, 59, 13, 10, 98, 59]

/-- A file with that text. -/
def openDisk : Disk := ⟨["work"], [(["work", "a.ts"], .file (.ordinary openBytes))]⟩

/-- An export that is missing from it. -/
def openIssue : Issue :=
  { id := "EXP-0001", kind := .missingExport, severity := .error, file := "a.ts", message := "",
    autoFixable := true, metadata := [("exportName", .str "b")] }

/-- What becomes of it. -/
def openRun : Except Failure (Batch × Disk) :=
  run openDisk ⟨2024, 1, 2, 3, 4, 5, 0, some 0⟩ spacedConfig { createBackup := some false }
    [("a.ts", [openIssue])]

/-- The export is put behind the last line, and a bare line feed between them. -/
theorem openRun_breaks_ends : ∃ b d', openRun = .ok (b, d') ∧ Adds b ∧
    ∃ bytes' cs', d'.readBytes (Path.parse "a.ts").text = .ok bytes' ∧
      Utf8.decode bytes' = .ok cs' ∧ ¬EndsPaired cs' := by
  have hcs : Utf8.decode openBytes = .ok ['a', ';', '\r', '\n', 'b', ';'] := rfl
  have hpaired : EndsPaired ['a', ';', '\r', '\n', 'b', ';'] := by
    have hsplit : splitLines ['a', ';', '\r', '\n', 'b', ';'] =
        [['a', ';', '\r']] ++ [['b', ';']] := rfl
    rw [endsPaired_iff, hsplit, linesEnded_concat_iff, List.forall_mem_singleton]
    exact ⟨⟨['a', ';'], rfl, by decide⟩, by decide⟩
  have hplain : ∀ i ∈ [openIssue], PlainNames i := by
    intro i hi
    obtain rfl := List.mem_singleton.1 hi
    refine ⟨fun v hv => ?_, fun s hs => ?_⟩
    · cases hv
      decide
    · cases hs
  have hrun : openRun.toOption.any fun r =>
      (r.1.results.any fun o => o.success && o.edit.kind == .add) &&
        (r.2.readBytes (Path.parse "a.ts").text).toOption.any fun bytes =>
          (Utf8.decode bytes).toOption.any fun cs => !cs.isEmpty := by
    decide +kernel
  cases hok : openRun with
  | error f =>
    rw [hok] at hrun
    cases hrun
  | ok r =>
    obtain ⟨b, d'⟩ := r
    rw [hok, Except.toOption, Option.any_some, Bool.and_eq_true] at hrun
    have hadds : Adds b := by
      simpa [Adds] using hrun.1
    obtain ⟨bytes', cs', hbytes', hcs', hiff⟩ := line_ends_kept_iff (d := openDisk) (b := b)
      rfl hcs (by decide) hpaired hplain rfl hok
    refine ⟨b, d', rfl, hadds, bytes', cs', hbytes', hcs', fun h => ?_⟩
    rcases hiff.1 h with hnil | ⟨-, hend⟩
    · have hkept := hrun.2
      rw [hbytes', Except.toOption, Option.any_some, hcs', hnil] at hkept
      cases hkept
    · exact absurd (hend hadds) (by decide)

end ExportLint.Fix
