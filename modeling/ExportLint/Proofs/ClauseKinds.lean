import ExportLint.Proofs.SourcePlaces
import ExportLint.Proofs.UnusedExports
import ExportLint.Rule.TypeLevel

/-!
# Types and values of one name in clauses

A type and a value may be declared under one name, and the inventory keeps one kind for a name,
that of its first declaration. So the export of such a name by a clause counts as one of a type
exactly if the type is declared first. Where the value is declared first, no statement that exports
the name is offered to be changed into one that exports types.
-/
namespace ExportLint

namespace Declarations

theorem lookup_insert (ds : Declarations) (key name : String) (kind : ExportKind) :
    (ds.insert key kind).lookup name =
      (ds.lookup name).or (if key = name then some kind else none) := by
  unfold insert
  split
  · rename_i hkey
    obtain ⟨k, hk⟩ := Option.isSome_iff_exists.1 hkey
    by_cases hname : key = name
    · rw [← hname, hk]
      rfl
    · rw [if_neg hname, Option.or_none]
  · have hone : List.lookup name [(key, kind)] = if key = name then some kind else none := by
      by_cases hname : key = name
      · simp [hname]
      · simp [List.lookup_cons, hname, beq_false_of_ne (Ne.symm hname)]
    rw [List.lookup_append, hone]

end Declarations

/-- The name that an export has in its own file. -/
def Export.localName (e : Export) : String := e.sourceName.getD e.name

namespace Detection

variable {src : Source} {root : Node} {scope : Scope} {name : String} {e : Export}

/-- What the statements below the root declare, in order. -/
def topDeclared (src : Source) (root : Node) : List Declared :=
  (root.children.filterMap declaring?).flatMap (declaredNames src)

/-- The first declaration of a name decides about its kind, whatever follows. -/
theorem lookup_foldl_insert (l : List Declared) (ds : Declarations) (name : String) :
    (l.foldl (fun ds d => ds.insert d.name d.kind) ds).lookup name =
      (ds.lookup name).or ((l.find? fun d => d.name == name).map (·.kind)) := by
  induction l generalizing ds with
  | nil => rw [List.foldl_nil, List.find?_nil, Option.map_none, Option.or_none]
  | cons d l ih =>
    rw [List.foldl_cons, ih, Declarations.lookup_insert, Option.or_assoc, List.find?_cons]
    by_cases hname : d.name = name
    · rw [if_pos hname, beq_iff_eq.2 hname]
      rfl
    · rw [if_neg hname, beq_false_of_ne hname]
      rfl

theorem lookup_declarations (src : Source) (root : Node) (name : String) :
    (declarations src root).lookup name =
      ((topDeclared src root).find? fun d => d.name == name).map (·.kind) := by
  rw [declarations, lookup_foldl_insert]
  rfl

/-- The name is declared as a value: as a function, a class, a variable, an enumeration or a
namespace. -/
def DeclaredAsValue (src : Source) (root : Node) (name : String) : Prop :=
  ∃ d ∈ topDeclared src root, d.name = name ∧ d.kind.isTypeLevel = false

instance : Decidable (DeclaredAsValue src root name) :=
  inferInstanceAs (Decidable (∃ d ∈ _, _ ∧ _))

/-- The first declaration of the name is one of a type. -/
def TypeFirst (src : Source) (root : Node) (name : String) : Prop :=
  ∃ before d after, topDeclared src root = before ++ d :: after ∧ d.name = name ∧
    d.kind.isTypeLevel = true ∧ ∀ b ∈ before, b.name ≠ name

theorem typeFirst_iff : TypeFirst src root name ↔
    ((declarations src root).lookup name).any (·.isTypeLevel) = true := by
  rw [lookup_declarations, Option.any_map, Option.any_eq_true]
  constructor
  · rintro ⟨before, d, after, hsplit, hname, htype, hbefore⟩
    have hfound : (topDeclared src root).find? (fun d => d.name == name) = some d := by
      refine List.find?_eq_some_iff_append.2 ⟨beq_iff_eq.2 hname, before, after, hsplit, ?_⟩
      intro b hb
      rw [beq_false_of_ne (hbefore b hb)]
      rfl
    exact ⟨d, hfound, htype⟩
  · rintro ⟨d, hd, htype⟩
    obtain ⟨hname, before, after, hsplit, hbefore⟩ := List.find?_eq_some_iff_append.1 hd
    refine ⟨before, d, after, hsplit, beq_iff_eq.1 hname, htype, fun b hb hb' => ?_⟩
    have hne := hbefore b hb
    rw [beq_iff_eq.2 hb'] at hne
    cases hne

instance : Decidable (TypeFirst src root name) := decidable_of_iff _ typeFirst_iff.symm

/-- A clause gives a name that is declared in its file the kind of the declaration. -/
theorem kind_of_mem_clauseExports {doc : Option String} {n : Node} {kind : ExportKind}
    (h : e ∈ clauseExports scope doc n) (hform : e.form ≠ .reexport)
    (hkind : scope.declarations.lookup e.localName = some kind) : e.kind = kind := by
  obtain ⟨element, -, rfl⟩ := List.mem_map.1 h
  have hspecifier : (sourceSpecifier? scope.source n).isSome = false := by
    cases hs : (sourceSpecifier? scope.source n).isSome with
    | false => rfl
    | true =>
      simp only [hs, if_true] at hform
      exact absurd rfl hform
  have hlocal (s t : String) : (if s = t then none else some s).getD t = s := by
    split
    · rename_i hst
      exact hst.symm
    · rfl
  simp only [Export.localName, hlocal] at hkind
  simp [hspecifier, hkind]

/-- Clauses are exported by statements with a clause alone. -/
theorem exists_clause_of_mem_exportsFrom {open_ : List String} {previous : Option Node}
    {ns : List Node} (h : e ∈ exportsFrom scope open_ previous ns) (hshape : e.shape = .clause) :
    ∃ doc, ∃ n ∈ ns, e ∈ clauseExports scope doc n := by
  obtain ⟨n, hn, awaiting, before, hm⟩ := exists_statement_of_mem_exportsFrom h
  rcases statementExports_cases hm with ⟨doc, hclause⟩ | ⟨hother, -⟩
  · exact ⟨doc, n, hn, hclause⟩
  · exact absurd hshape hother

/-- A clause exports a name that is declared as a value as a type exactly if it is declared as a
type first. -/
theorem isTypeLevel_iff_typeFirst (he : e ∈ (Inventory.ofTree src root).exports)
    (hshape : e.shape = .clause) (hform : e.form ≠ .reexport)
    (hvalue : DeclaredAsValue src root e.localName) :
    e.kind.isTypeLevel = true ↔ TypeFirst src root e.localName := by
  have hfrom : e ∈ exportsFrom (scopeOf src root (importsOf src root)) [] none root.children := by
    unfold Inventory.ofTree at he
    dsimp only at he
    split at he
    · exact absurd he List.not_mem_nil
    · exact he
  obtain ⟨doc, n, -, hclause⟩ := exists_clause_of_mem_exportsFrom hfrom hshape
  obtain ⟨d, hd, hname, -⟩ := hvalue
  have hfound : ((topDeclared src root).find? fun d => d.name == e.localName).isSome := by
    rw [List.find?_isSome]
    exact ⟨d, hd, beq_iff_eq.2 hname⟩
  obtain ⟨first, hfirst⟩ := Option.isSome_iff_exists.1 hfound
  have hlookup : (declarations src root).lookup e.localName = some first.kind := by
    rw [lookup_declarations, hfirst]
    rfl
  rw [typeFirst_iff, hlookup, kind_of_mem_clauseExports hclause hform hlookup]
  rfl

end Detection

namespace Rule

open Detection

variable {c : Context} {p : Project} {src : Source} {root : Node} {file : String} {e : Export}

/-- The exports of types by clauses that do not say so. -/
def plainlyExported (p : Project) (file : String) : List Export :=
  ((p.exportsOf file).filter fun e => e.shape == .clause).filter fun e =>
    !e.typeOnly && isTypeExport p file e

theorem mem_plainlyExported_iff : e ∈ plainlyExported p file ↔
    e ∈ p.exportsOf file ∧ e.shape = .clause ∧ e.typeOnly = false ∧
      isTypeExport p file e = true := by
  simp only [plainlyExported, List.mem_filter, beq_iff_eq, Bool.and_eq_true, Bool.not_eq_true',
    and_assoc]

/-- The rule reports these exports, one by one. It offers to change a statement where all that the
clauses on its line export are types. -/
theorem exists_plainTypeExports_eq (c : Context) (p : Project) (file : String) :
    ∃ offer : Export → Finding, plainTypeExports c p file = (plainlyExported p file).map offer ∧
      ∀ e, (offer e).IsOn file e ∧ ((offer e).autoFixable = true ↔
        ∀ other ∈ p.exportsOf file, other.shape = .clause →
          other.location.startLine = e.location.startLine → isTypeExport p file other = true) := by
  refine ⟨_, rfl, fun e => ⟨⟨rfl, rfl, rfl⟩, ?_⟩⟩
  simp only [List.all_eq_true, List.mem_filter, beq_iff_eq, and_imp]

theorem isTypeExport_eq (htypeOnly : e.typeOnly = false) (hform : e.form ≠ .reexport) :
    isTypeExport p file e = e.kind.isTypeLevel := by
  rw [isTypeExport, htypeOnly, if_neg Bool.false_ne_true, if_pos (bne_iff_ne.2 hform)]

/-- A name that is declared as a value and exported by a clause of its file: the export has the kind
of a type, and the rule takes it for one, exactly if the name is declared as a type before that. If
it is not, no clause on the line of the export is offered to be changed. -/
theorem value_taken_for_type_iff (c : Context)
    (hp : p.exportsOf src.file = (Inventory.ofTree src root).exports)
    (he : e ∈ (Inventory.ofTree src root).exports) (hshape : e.shape = .clause)
    (hform : e.form ≠ .reexport) (hvalue : DeclaredAsValue src root e.localName) :
    (e.kind.isTypeLevel = true ↔ TypeFirst src root e.localName) ∧
      (∃ offer : Export → Finding, (∀ e, (offer e).IsOn src.file e) ∧
        plainTypeExports c p src.file = (plainlyExported p src.file).map offer) ∧
      (e ∈ plainlyExported p src.file ↔
        e.typeOnly = false ∧ TypeFirst src root e.localName) ∧
      (e.typeOnly = false → ¬TypeFirst src root e.localName →
        ∀ x ∈ plainTypeExports c p src.file,
          x.location.map (·.startLine) = some e.location.startLine → x.autoFixable = false) := by
  have hkind := isTypeLevel_iff_typeFirst he hshape hform hvalue
  obtain ⟨offer, heq, hoffer⟩ := exists_plainTypeExports_eq c p src.file
  refine ⟨hkind, ⟨offer, fun e => (hoffer e).1, heq⟩, ?_, ?_⟩
  · rw [mem_plainlyExported_iff, hp]
    constructor
    · rintro ⟨-, -, htypeOnly, htype⟩
      rw [isTypeExport_eq htypeOnly hform] at htype
      exact ⟨htypeOnly, hkind.1 htype⟩
    · rintro ⟨htypeOnly, hfirst⟩
      refine ⟨he, hshape, htypeOnly, ?_⟩
      rw [isTypeExport_eq htypeOnly hform]
      exact hkind.2 hfirst
  · -- The export itself keeps the statements on its line from being changed.
    intro htypeOnly hfirst x hx hline
    rw [heq] at hx
    obtain ⟨shown, -, rfl⟩ := List.mem_map.1 hx
    rw [(hoffer shown).1.location] at hline
    have hstart : e.location.startLine = shown.location.startLine := (Option.some.inj hline).symm
    rw [Bool.eq_false_iff]
    intro hfix
    have htype := (hoffer shown).2.1 hfix e (by rwa [hp]) hshape hstart
    rw [isTypeExport_eq htypeOnly hform] at htype
    exact hfirst (hkind.1 htype)

/-- A file that declares a type and a value of one name and exports it by a clause. -/
def shapeText : String := "interface Shape {}\nconst Shape = 1;\nexport { Shape };\n"

/-- The project of one file. -/
def soleProject (r : ReadSource) : Project := .ofInventories ["work"] "." [r.inventory]

theorem exportsOf_soleProject (r : ReadSource) :
    (soleProject r).exportsOf r.source.file = (Inventory.ofTree r.source r.root).exports := by
  have hfile : (Inventory.ofTree r.source r.root).file = r.source.file := by
    unfold Inventory.ofTree
    dsimp only
    split <;> rfl
  have hlist : (soleProject r).exports = [(r.source.file, r.inventory.exports)] := by
    rw [← hfile]
    rfl
  rw [Project.exportsOf, hlist, List.lookup_cons_self]
  rfl

/-- A clause that exports a value is offered to be changed into one of types, since an interface of
the same name stands before the value. -/
theorem shape_offered_as_type :
    ∃ r e, ReadSource.ofText {} "a.ts" shapeText.toList = .ok r ∧
      DeclaredAsValue r.source r.root e.localName ∧ e ∈ r.inventory.exports ∧
      e.name = "Shape" ∧ e.kind.isTypeLevel = true ∧
      ∃ x ∈ plainTypeExports appContext (soleProject r) r.source.file,
        x.IsOn r.source.file e ∧ x.autoFixable = true := by
  have hfacts : (ReadSource.ofText {} "a.ts" shapeText.toList).toOption.any (fun r =>
      (∃ e ∈ r.inventory.exports, e.name = "Shape" ∧ e.shape = .clause ∧ e.form ≠ .reexport ∧
        e.typeOnly = false ∧ DeclaredAsValue r.source r.root e.localName ∧
        TypeFirst r.source r.root e.localName) ∧
      ∀ x ∈ plainTypeExports appContext (soleProject r) r.source.file,
        x.autoFixable = true) = true := by
    decide +kernel
  cases hr : ReadSource.ofText {} "a.ts" shapeText.toList with
  | error f =>
    rw [hr] at hfacts
    cases hfacts
  | ok r =>
    rw [hr] at hfacts
    obtain ⟨⟨e, he, hname, hshape, hform, htypeOnly, hvalue, hfirst⟩, hfix⟩ :=
      of_decide_eq_true hfacts
    obtain ⟨hkind, ⟨offer, hoffer, heq⟩, hreported, -⟩ := value_taken_for_type_iff appContext
      (exportsOf_soleProject r) he hshape hform hvalue
    have hmem : offer e ∈ plainTypeExports appContext (soleProject r) r.source.file := by
      rw [heq]
      exact List.mem_map_of_mem (hreported.2 ⟨htypeOnly, hfirst⟩)
    exact ⟨r, e, rfl, hvalue, he, hname, hkind.2 hfirst, offer e, hmem, hoffer e, hfix _ hmem⟩

end Rule

end ExportLint
