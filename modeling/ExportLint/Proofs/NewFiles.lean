import ExportLint.Proofs.DirectoryTrees
import ExportLint.Proofs.DiskWriting

/-!
# Files that are not there yet

A directory takes a new file under any name that leads nowhere so far. What is there stays there
when files are written.
-/
namespace ExportLint

namespace Path

variable {p : Path} {name : String}

/-- The text of a path ends with its last step. -/
theorem exists_text_append (p : Path) (name : String) :
    ∃ before, (p ++ ⟨"", [name]⟩ : Path).text = before ++ name := by
  have hne : (p.steps ++ [name]).isEmpty = false := by simp
  rw [append_steps, text, hne, Bool.and_false, if_neg Bool.false_ne_true]
  by_cases hs : p.steps = []
  · rw [hs, List.nil_append, String.intercalate_singleton]
    exact ⟨p.root, rfl⟩
  · rw [intercalate_append hs (List.cons_ne_nil _ _), String.intercalate_singleton]
    exact ⟨p.root ++ ("/".intercalate p.steps ++ "/"), by simp only [String.append_assoc]⟩

end Path

namespace Disk

variable {d d' : Disk} {root name : String} {r : Place}

theorem endsInSlash_below (p : Path) (hname : Path.IsStep name) :
    endsInSlash (p ++ ⟨"", [name]⟩ : Path).text = false := by
  obtain ⟨before, htext⟩ := Path.exists_text_append p name
  have hne : name.toList ≠ [] := fun he => hname.ne_empty (String.toList_inj.1 he)
  rw [endsInSlash, htext, String.toList_append, List.getLast?_append_of_ne_nil _ hne,
    beq_eq_false_iff_ne]
  exact fun hslash => hname.no_slash (List.mem_of_getLast? hslash)

/-- The last step leads to its place, unless a link is to be followed there. -/
theorem follow_last {last : Bool} {fuel links : Nat} (hname : name ≠ "..")
    (hl : last = false ∨ ∀ t, d.entryAt? (r ++ [name]) ≠ some (.link t))
    (hfuel : [name].length ≤ fuel) : d.follow last fuel links r [name] = .ok (r ++ [name]) := by
  obtain ⟨fuel, rfl⟩ : ∃ k, fuel = k + 1 := ⟨fuel - 1, by rw [List.length_singleton] at hfuel; omega⟩
  rw [follow_cons_iff]
  by_cases hd : d.entryAt? (r ++ [name]) = some .directory
  · exact .enter hname hd (follow_nil d last fuel links _)
  · exact .stop hname hd (fun hlast => hl.resolve_left (by simp [hlast])) rfl rfl

/-- A name in a directory has its place there. -/
theorem locate_in_directory {last : Bool} (hroot : d.isDirectory (Path.tidy root) = true)
    (hname : Path.IsName name)
    (hl : last = false ∨ ∀ t, d.entryAt? (d.resolve (Path.tidy root) ++ [name]) ≠ some (.link t)) :
    d.locate last (Path.parse root ++ ⟨"", [name]⟩ : Path).text =
      .ok (d.resolve (Path.tidy root) ++ [name]) := by
  obtain ⟨hloc, hdir⟩ := located_of_isDirectory hroot
  have hparse := Path.wellFormed_parse root
  have hbelow : (Path.parse root ++ ⟨"", [name]⟩ : Path).WellFormed :=
    hparse.append fun s hs => List.mem_singleton.1 hs ▸ hname.toIsStep
  rw [locate, Path.tidy, Path.stepsOf_text hparse, Path.rootOf_text hparse, Bool.true_or] at hloc
  rw [locate, Path.stepsOf_text hbelow, Path.rootOf_text hbelow,
    endsInSlash_below _ hname.toIsStep, Bool.or_false]
  exact follow_append hloc hdir (enough_fuelFor d _) (.inr (List.cons_ne_nil _ _))
    fun _ _ hfuel => follow_last hname.ne_points hl hfuel

/-- A new file can be written in a directory, if its name is not taken by a link either. -/
theorem exists_writeBytes_new (hroot : d.isDirectory (Path.tidy root) = true)
    (hname : Path.IsName name)
    (hnew : d.exists? (Path.parse root ++ ⟨"", [name]⟩ : Path).text = false)
    (hlink : d.isLink (Path.parse root ++ ⟨"", [name]⟩ : Path).text = false) (bytes : List UInt8) :
    ∃ d', d.writeBytes (Path.parse root ++ ⟨"", [name]⟩ : Path).text bytes = .ok d' := by
  have hslash := endsInSlash_below (Path.parse root) hname.toIsStep
  have hnot (t : String) :
      d.entryAt? (d.resolve (Path.tidy root) ++ [name]) ≠ some (.link t) := by
    intro ht
    rw [isLink, locate_in_directory hroot hname (.inl rfl)] at hlink
    dsimp only at hlink
    rw [ht] at hlink
    cases hlink
  have hlocate : d.locate true (Path.parse root ++ ⟨"", [name]⟩ : Path).text =
      .ok (d.resolve (Path.tidy root) ++ [name]) := locate_in_directory hroot hname (.inr hnot)
  have hempty : (Path.parse root ++ ⟨"", [name]⟩ : Path).text.isEmpty = false := by
    obtain ⟨before, htext⟩ := Path.exists_text_append (Path.parse root) name
    rw [htext, ← Bool.not_eq_true, String.isEmpty_iff]
    simp [hname.ne_empty]
  have hnone : d.entryAt? (d.resolve (Path.tidy root) ++ [name]) = none := by
    rw [exists?, find, hempty, hlocate, hslash] at hnew
    cases he : d.entryAt? (d.resolve (Path.tidy root) ++ [name]) with
    | none => rfl
    | some e => cases e <;> simp [he, Except.toOption] at hnew
  simp [writeBytes, store, hempty, hlocate, hnone, hslash, entryAt?_of_isDirectory hroot]

/-- What exists goes on existing. -/
theorem Grows.exists? (h : Grows d d') {p : String} (hp : d.exists? p = true) :
    d'.exists? p = true := by
  simp only [Disk.exists?, find] at hp ⊢
  split at hp
  · cases hp
  · rename_i hne
    rw [if_neg hne]
    cases hq : d.locate true p with
    | error o =>
      rw [hq] at hp
      cases hp
    | ok q =>
      rw [hq] at hp
      rw [h.locate hq]
      dsimp only at hp ⊢
      cases he : d.entryAt? q with
      | none =>
        rw [he] at hp
        cases hp
      | some e =>
        rw [he] at hp
        cases e with
        | file b =>
          obtain ⟨b', hb⟩ := h.file q b he
          rw [hb]
          cases hs : endsInSlash p with
          | true =>
            rw [hs] at hp
            cases hp
          | false => rfl
        | directory =>
          rw [h.directory q he]
          rfl
        | link t =>
          rw [(h.link q t).2 he]
          rfl

end Disk

end ExportLint
