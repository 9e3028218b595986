import ExportLint.Module.Sources

/-!
# Places in an inventory

The exports and imports of an inventory are at places in the text that it was read from: each place
goes from the start of one node to the end of another.
-/
namespace ExportLint

/-- The places of the exports and imports of a file. -/
def Inventory.locations (i : Inventory) : List Location :=
  i.exports.map (·.location) ++ i.imports.map (·.location)

/-- A place goes from the start of one node to the end of another. -/
def Source.Spanned (src : Source) (l : Location) : Prop :=
  ∃ first last : Node, l = src.span first last

namespace Detection

variable {src : Source} {scope : Scope} {e : Export}

/-- Exports of declared names are made from them, one by one. -/
theorem exists_of_mem_declaredExports {make : Declared → Export} {open_ : List String}
    {ds : List Declared} (h : e ∈ (declaredExports make open_ ds).1) : ∃ d ∈ ds, e = make d := by
  fun_induction declaredExports make open_ ds with
  | case1 => exact absurd h List.not_mem_nil
  | case2 _ _ _ _ _ ih =>
    obtain ⟨d, hd, he⟩ := ih h
    exact ⟨d, List.mem_cons_of_mem _ hd, he⟩
  | case3 _ d ds _ _ es left hs ih =>
    rcases List.mem_cons.1 h with he | he
    · exact ⟨d, List.mem_cons_self, he⟩
    · obtain ⟨d, hd, he⟩ := ih (by rw [hs]; exact he)
      exact ⟨d, List.mem_cons_of_mem _ hd, he⟩
  | case4 _ _ _ _ _ ih =>
    obtain ⟨d, hd, he⟩ := ih h
    exact ⟨d, List.mem_cons_of_mem _ hd, he⟩
  | case5 _ d ds _ _ es left hs ih =>
    rcases List.mem_cons.1 h with he | he
    · exact ⟨d, List.mem_cons_self, he⟩
    · obtain ⟨d, hd, he⟩ := ih (by rw [hs]; exact he)
      exact ⟨d, List.mem_cons_of_mem _ hd, he⟩

theorem spanned_clauseExports {doc : Option String} {n : Node}
    (h : e ∈ clauseExports scope doc n) : scope.source.Spanned e.location := by
  obtain ⟨element, -, rfl⟩ := List.mem_map.1 h
  exact ⟨element, element, rfl⟩

/-- A declaration is exported as one, at a place of the source. -/
theorem placed_declarationExports {doc : Option String} {open_ : List String} {n : Node}
    (h : e ∈ (declarationExports scope doc open_ n).1) :
    e.shape = .declaration ∧ scope.source.Spanned e.location := by
  unfold declarationExports at h
  dsimp only at h
  generalize (if n.hasToken "default" = true then ExportForm.default else .named) = form at h
  split at h
  · obtain ⟨value, -, rfl⟩ := List.mem_map.1 h
    exact ⟨rfl, _, n, rfl⟩
  · split at h
    · split at h
      · rw [List.mem_singleton.1 h]
        exact ⟨rfl, n, n, rfl⟩
      · exact absurd h List.not_mem_nil
    · obtain ⟨d, -, rfl⟩ := exists_of_mem_declaredExports h
      exact ⟨rfl, d.nameNode, n, rfl⟩

/-- A statement exports the names of its clause, or something that is no clause. -/
theorem statementExports_cases {open_ : List String} {previous : Option Node} {n : Node}
    (h : e ∈ (statementExports scope open_ previous n).1) :
    (∃ doc, e ∈ clauseExports scope doc n) ∨
      e.shape ≠ .clause ∧ scope.source.Spanned e.location := by
  unfold statementExports at h
  split at h
  · exact .inl ⟨_, h⟩
  · rw [List.mem_singleton.1 h]
    exact .inr ⟨nofun, n, n, rfl⟩
  · rw [List.mem_singleton.1 h]
    exact .inr ⟨nofun, n, n, rfl⟩
  · rw [List.mem_singleton.1 h]
    exact .inr ⟨nofun, n, n, rfl⟩
  · obtain ⟨hshape, hspanned⟩ := placed_declarationExports h
    exact .inr ⟨by simp [hshape], hspanned⟩
  · exact absurd h List.not_mem_nil

/-- What statements export, one of them exports. -/
theorem exists_statement_of_mem_exportsFrom {open_ : List String} {previous : Option Node}
    {ns : List Node} (h : e ∈ exportsFrom scope open_ previous ns) :
    ∃ n ∈ ns, ∃ awaiting before, e ∈ (statementExports scope awaiting before n).1 := by
  fun_induction exportsFrom scope open_ previous ns with
  | case1 => exact absurd h List.not_mem_nil
  | case2 open_ previous n ns next _ es left hs ih =>
    rcases List.mem_append.1 h with he | he
    · exact ⟨n, List.mem_cons_self, open_, previous, by rw [hs]; exact he⟩
    · obtain ⟨m, hm, hrest⟩ := ih he
      exact ⟨m, List.mem_cons_of_mem _ hm, hrest⟩
  | case3 _ _ _ _ _ _ ih =>
    obtain ⟨m, hm, hrest⟩ := ih h
    exact ⟨m, List.mem_cons_of_mem _ hm, hrest⟩

theorem spanned_exportsFrom {open_ : List String} {previous : Option Node} {ns : List Node}
    (h : e ∈ exportsFrom scope open_ previous ns) : scope.source.Spanned e.location := by
  obtain ⟨n, -, awaiting, before, hn⟩ := exists_statement_of_mem_exportsFrom h
  rcases statementExports_cases hn with ⟨doc, hclause⟩ | ⟨-, hspanned⟩
  · exact spanned_clauseExports hclause
  · exact hspanned

/-- Reading the parts of an import leaves its place as it is. -/
theorem location_readImportPart (src : Source) (i : Import) (part : Node) :
    (readImportPart src i part).location = i.location := by
  unfold readImportPart
  split
  · rfl
  · split <;> rfl
  · rfl
  · rfl

theorem location_foldl_readImportPart (src : Source) (parts : List Node) (i : Import) :
    (parts.foldl (readImportPart src) i).location = i.location := by
  induction parts generalizing i with
  | nil => rfl
  | cons part parts ih => rw [List.foldl_cons, ih, location_readImportPart]

theorem location_readImportChild (src : Source) (state : Import × Option Node) (child : Node) :
    (readImportChild src state child).1.location = state.1.location := by
  unfold readImportChild
  split
  · exact location_foldl_readImportPart src _ _
  · dsimp only
    split <;> rfl
  · rfl

theorem location_foldl_readImportChild (src : Source) (children : List Node)
    (state : Import × Option Node) :
    (children.foldl (readImportChild src) state).1.location = state.1.location := by
  induction children generalizing state with
  | nil => rfl
  | cons child children ih => rw [List.foldl_cons, ih, location_readImportChild]

theorem spanned_import {n : Node} {i : Import} (h : import? src n = some i) :
    src.Spanned i.location := by
  obtain ⟨s, -, rfl⟩ := Option.map_eq_some_iff.1 h
  exact ⟨n, n, location_foldl_readImportChild src _ _⟩

end Detection

/-- Every place in an inventory is one of its source. -/
theorem Inventory.spanned_of_mem_locations {src : Source} {root : Node} {l : Location}
    (h : l ∈ (Inventory.ofTree src root).locations) : src.Spanned l := by
  unfold Inventory.ofTree at h
  dsimp only at h
  split at h
  · exact absurd h List.not_mem_nil
  · rcases List.mem_append.1 h with hl | hl
    · obtain ⟨e, he, rfl⟩ := List.mem_map.1 hl
      exact Detection.spanned_exportsFrom he
    · obtain ⟨i, hi, rfl⟩ := List.mem_map.1 hl
      obtain ⟨n, -, hn⟩ := List.mem_filterMap.1 hi
      exact Detection.spanned_import hn

end ExportLint
