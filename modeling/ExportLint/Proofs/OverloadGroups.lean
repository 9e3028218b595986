import ExportLint.Module.Sources

/-!
# Overloaded functions

The signatures of a function and its implementation export one symbol. While the statements of a
file are read, a name is open from a signature on until a function declaration of it closes it. A
generator function exports its name and closes nothing. So a group of signatures with their
implementation adds one export exactly if the name is closed before it and the implementation is no
generator function, or if it is open before it and the implementation is one.
-/
namespace ExportLint.Detection

/-- What a declaration is to the overloads of its name. -/
inductive Role where
  | signature
  | function
  | generator
  | other
  deriving DecidableEq, Repr

namespace Role

def ofKind (kind : String) : Role :=
  if kind = "function_signature" then .signature
  else if kind = "function_declaration" then .function
  else if kind = "generator_function_declaration" then .generator
  else .other

/-- The name is open behind a declaration. -/
def opens (awaiting : Bool) : Role → Bool
  | .signature => true
  | .function => false
  | .generator | .other => awaiting

/-- The exports that a declaration makes: none if the name is open and it is part of a group. -/
def made (awaiting : Bool) : Role → Nat
  | .signature | .function => if awaiting then 0 else 1
  | .generator | .other => 1

def opensAll (awaiting : Bool) (rs : List Role) : Bool := rs.foldl opens awaiting

def madeAll (awaiting : Bool) : List Role → Nat
  | [] => 0
  | r :: rs => r.made awaiting + madeAll (r.opens awaiting) rs

variable {awaiting : Bool} {r : Role} {rs ss : List Role}

@[simp] theorem opensAll_nil : opensAll awaiting [] = awaiting := rfl

@[simp] theorem opensAll_cons :
    opensAll awaiting (r :: rs) = opensAll (r.opens awaiting) rs := rfl

@[simp] theorem madeAll_nil : madeAll awaiting [] = 0 := rfl

@[simp] theorem madeAll_cons :
    madeAll awaiting (r :: rs) = r.made awaiting + madeAll (r.opens awaiting) rs := rfl

@[simp] theorem madeAll_append :
    madeAll awaiting (rs ++ ss) = madeAll awaiting rs + madeAll (opensAll awaiting rs) ss := by
  induction rs generalizing awaiting with
  | nil => simp
  | cons r rs ih => simp [ih, Nat.add_assoc]

/-- A name is open if a signature of it has no function declaration behind it. -/
theorem opensAll_iff : opensAll awaiting rs = true ↔
    (∃ front back, rs = front ++ .signature :: back ∧ .function ∉ back) ∨
      awaiting = true ∧ .function ∉ rs := by
  induction rs generalizing awaiting with
  | nil => simp
  | cons r rs ih =>
    have hsplit : (∃ front back, r :: rs = front ++ .signature :: back ∧ .function ∉ back) ↔
        r = .signature ∧ .function ∉ rs ∨
          ∃ front back, rs = front ++ .signature :: back ∧ .function ∉ back := by
      constructor
      · rintro ⟨front, back, heq, hback⟩
        cases front with
        | nil =>
          obtain ⟨rfl, rfl⟩ := List.cons.inj heq
          exact .inl ⟨rfl, hback⟩
        | cons s front => exact .inr ⟨front, back, (List.cons.inj heq).2, hback⟩
      · rintro (⟨rfl, hrs⟩ | ⟨front, back, rfl, hback⟩)
        · exact ⟨[], rs, rfl, hrs⟩
        · exact ⟨r :: front, back, rfl, hback⟩
    rw [opensAll_cons, ih, hsplit]
    cases r <;> grind [opens]

/-- However many signatures a group has, they make one export if the name is closed before them, and
the implementation makes one more if it is a generator function. -/
theorem madeAll_group (n : Nat) : madeAll awaiting (List.replicate (n + 1) .signature ++ [r]) =
    (if awaiting then 0 else 1) + r.made true := by
  have hmore (n : Nat) : madeAll true (List.replicate n .signature ++ [r]) = r.made true := by
    induction n with
    | zero => rfl
    | succ n ih => rw [List.replicate_succ, List.cons_append, madeAll_cons, opens, ih]; simp [made]
  rw [List.replicate_succ, List.cons_append, madeAll_cons, opens, hmore, made]

end Role

variable {src : Source} {scope : Scope} {name : String} {open_ : List String}

/-- The names that an export statement exports as their declaration. -/
def exportedDeclarations (src : Source) (n : Node) : List Declared :=
  if n.kind = "export_statement" ∧ shape? n = some .declaration then
    (n.child? "declaration").elim [] (declaredNames src)
  else []

/-- The names that a statement exports in another way. -/
def exportedOtherwise (scope : Scope) (n : Node) : List String :=
  if n.kind = "export_statement" ∧ exportedDeclarations scope.source n = [] then
    (statementExports scope [] none n).1.map (·.name)
  else []

/-- The declarations of one name among some. -/
def rolesIn (name : String) (ds : List Declared) : List Role :=
  (ds.filter fun d => d.name == name).map fun d => Role.ofKind d.node.kind

/-- The exported declarations of a name, in the order of the statements. -/
def rolesOf (src : Source) (name : String) (ns : List Node) : List Role :=
  rolesIn name (ns.flatMap (exportedDeclarations src))

/-- How many exports of a name some statements make. -/
def exportCount (scope : Scope) (name : String) (ns : List Node) : Nat :=
  (exportsFrom scope [] none ns).countP fun e => e.name == name

theorem rolesIn_same {d : Declared} (h : d.name = name) (ds : List Declared) :
    rolesIn name (d :: ds) = Role.ofKind d.node.kind :: rolesIn name ds := by
  simp [rolesIn, h]

theorem rolesIn_other {d : Declared} (h : d.name ≠ name) (ds : List Declared) :
    rolesIn name (d :: ds) = rolesIn name ds := by
  simp [rolesIn, h]

theorem contains_filter_ne (key : String) :
    (open_.filter (· != key)).contains name = (open_.contains name && name != key) := by
  rw [Bool.eq_iff_iff]
  simp

/-- The declarations of a statement make the exports of a name that its roles say, and leave the name
open or closed. -/
theorem declaredExports_spec {make : Declared → Export} (hmake : ∀ d, (make d).name = d.name)
    (open_ : List String) (ds : List Declared) :
    (declaredExports make open_ ds).1.countP (fun e => e.name == name) =
        Role.madeAll (open_.contains name) (rolesIn name ds) ∧
      (declaredExports make open_ ds).2.contains name =
        Role.opensAll (open_.contains name) (rolesIn name ds) := by
  fun_induction declaredExports make open_ ds with
  | case1 => exact ⟨rfl, rfl⟩
  | case2 open_ d ds hkind hopen ih =>
    by_cases h : d.name = name
    · rw [h] at hopen
      rw [hopen] at ih ⊢
      rw [rolesIn_same h, Role.ofKind, if_pos hkind]
      simpa [Role.made, Role.opens] using ih
    · rwa [rolesIn_other h]
  | case3 open_ d ds hkind hopen es left hs ih =>
    rw [hs] at ih
    obtain ⟨hmade, hleft⟩ := ih
    rw [List.countP_cons, hmake, hmade, hleft, List.contains_cons]
    by_cases h : d.name = name
    · have hclosed : open_.contains name = false := by rwa [h, Bool.not_eq_true] at hopen
      rw [rolesIn_same h, Role.ofKind, if_pos hkind, hclosed]
      simp [h, Role.made, Role.opens, Nat.add_comm]
    · have hne : (name == d.name) = false := beq_false_of_ne (Ne.symm h)
      rw [rolesIn_other h, hne, Bool.false_or, if_neg (by simpa using h)]
      exact ⟨rfl, rfl⟩
  | case4 open_ d ds hkind hopen ih =>
    rw [contains_filter_ne] at ih
    by_cases h : d.name = name
    · rw [h, bne_self_eq_false, Bool.and_false] at ih
      rw [rolesIn_same h, Role.ofKind, if_neg hkind, if_pos hopen.1, ← h, hopen.2]
      simpa [h, Role.made, Role.opens] using ih
    · have hne : (name != d.name) = true := bne_iff_ne.2 (Ne.symm h)
      rw [hne, Bool.and_true] at ih
      rwa [rolesIn_other h]
  | case5 open_ d ds hkind hopen es left hs ih =>
    rw [hs] at ih
    obtain ⟨hmade, hleft⟩ := ih
    rw [List.countP_cons, hmake, hmade, hleft]
    by_cases h : d.name = name
    · rw [rolesIn_same h, Role.ofKind, if_neg hkind, if_pos (by simpa using h)]
      by_cases hfunction : d.node.kind = "function_declaration"
      · have hclosed : open_.contains name = false :=
          Bool.eq_false_iff.2 fun hc => hopen ⟨hfunction, h ▸ hc⟩
        rw [if_pos hfunction, hclosed]
        simp [Role.made, Role.opens, Nat.add_comm]
      · rw [if_neg hfunction]
        split <;> simp [Role.made, Role.opens, Nat.add_comm]
    · rw [rolesIn_other h, if_neg (by simpa using h)]
      exact ⟨rfl, rfl⟩

/-- A statement that declares nothing exports its names whatever is open, and leaves that alone. -/
theorem statementExports_of_undeclared {n : Node} (hn : n.kind = "export_statement")
    (h : exportedDeclarations scope.source n = []) (open_ : List String) (previous : Option Node) :
    (statementExports scope open_ previous n).1.map (·.name) = exportedOtherwise scope n ∧
      (statementExports scope open_ previous n).2 = open_ := by
  rw [exportedOtherwise, if_pos ⟨hn, h⟩]
  unfold statementExports
  dsimp only
  cases hshape : shape? n with
  | none => exact ⟨rfl, rfl⟩
  | some shape =>
    cases shape with
    | clause => exact ⟨by simp [clauseExports, Function.comp_def], rfl⟩
    | namespaceStar => exact ⟨rfl, rfl⟩
    | star => exact ⟨rfl, rfl⟩
    | assignment => exact ⟨rfl, rfl⟩
    | declaration =>
      rw [exportedDeclarations, if_pos ⟨hn, hshape⟩] at h
      dsimp only
      unfold declarationExports
      dsimp only
      cases hchild : n.child? "declaration" with
      | none => exact ⟨by simp [anonymousDefault, Function.comp_def], rfl⟩
      | some declaration =>
        rw [hchild, Option.elim_some] at h
        dsimp only
        rw [h]
        dsimp only
        split <;> exact ⟨rfl, rfl⟩

theorem statementExports_of_declared {n : Node} (h : exportedDeclarations scope.source n ≠ [])
    (open_ : List String) (previous : Option Node) :
    ∃ make : Declared → Export, statementExports scope open_ previous n =
        declaredExports make open_ (exportedDeclarations scope.source n) ∧
      ∀ d, (make d).name = d.name := by
  unfold exportedDeclarations at h ⊢
  split at h
  · rename_i hn
    rw [if_pos hn]
    cases hchild : n.child? "declaration" with
    | none => rw [hchild] at h; exact absurd rfl h
    | some declaration =>
      rw [hchild, Option.elim_some] at h
      unfold statementExports declarationExports
      simp only [hn.2, hchild]
      exact ⟨_, rfl, fun d => rfl⟩
  · exact absurd rfl h

/-- What a statement exports under a name, and whether it leaves the name open. -/
theorem statementExports_spec {n : Node} (hn : n.kind = "export_statement") (open_ : List String)
    (previous : Option Node) :
    (statementExports scope open_ previous n).1.countP (fun e => e.name == name) =
        (exportedOtherwise scope n).count name +
          Role.madeAll (open_.contains name) (rolesOf scope.source name [n]) ∧
      (statementExports scope open_ previous n).2.contains name =
        Role.opensAll (open_.contains name) (rolesOf scope.source name [n]) := by
  rw [rolesOf, List.flatMap_singleton]
  by_cases h : exportedDeclarations scope.source n = []
  · obtain ⟨hnames, hleft⟩ := statementExports_of_undeclared hn h open_ previous
    rw [hleft, h, ← hnames, List.count, List.countP_map]
    exact ⟨rfl, rfl⟩
  · obtain ⟨make, hexports, hmake⟩ := statementExports_of_declared h open_ previous
    rw [hexports, exportedOtherwise, if_neg fun hn => h hn.2, List.count_nil, Nat.zero_add]
    exact declaredExports_spec hmake open_ _

theorem rolesOf_append (ms ns : List Node) :
    rolesOf src name (ms ++ ns) = rolesOf src name ms ++ rolesOf src name ns := by
  simp [rolesOf, rolesIn]

/-- Some statements export a name as often as they do without declaring it and as their declarations
of it say. -/
theorem count_exportsFrom (open_ : List String) (previous : Option Node) (ns : List Node) :
    (exportsFrom scope open_ previous ns).countP (fun e => e.name == name) =
      (ns.flatMap (exportedOtherwise scope)).count name +
        Role.madeAll (open_.contains name) (rolesOf scope.source name ns) := by
  fun_induction exportsFrom scope open_ previous ns with
  | case1 => rfl
  | case2 open_ previous n ns next hn es left hs ih =>
    obtain ⟨hmade, hleft⟩ := @statementExports_spec scope name n hn open_ previous
    rw [hs] at hmade hleft
    dsimp only at hmade hleft
    have hsplit : rolesOf scope.source name (n :: ns) =
        rolesOf scope.source name [n] ++ rolesOf scope.source name ns := rolesOf_append [n] ns
    rw [List.countP_append, hmade, ih, hleft, List.flatMap_cons, List.count_append, hsplit,
      Role.madeAll_append]
    omega
  | case3 open_ previous n ns next hn ih =>
    have hdeclared : exportedDeclarations scope.source n = [] := if_neg fun h => hn h.1
    have hother : exportedOtherwise scope n = [] := if_neg fun h => hn h.1
    rw [ih, List.flatMap_cons, hother, List.nil_append, rolesOf, rolesOf, List.flatMap_cons,
      hdeclared, List.nil_append]

/-- A signature of the name stands behind the last function declaration of it. -/
def LeftOpen (src : Source) (name : String) (ns : List Node) : Prop :=
  ∃ front back, rolesOf src name ns = front ++ .signature :: back ∧ .function ∉ back

theorem opensAll_rolesOf {ns : List Node} :
    Role.opensAll false (rolesOf src name ns) = true ↔ LeftOpen src name ns := by
  rw [Role.opensAll_iff, LeftOpen]
  simp

/-- Some statements export a name by declarations of these roles, and in no other way. -/
structure Declares (scope : Scope) (name : String) (ns : List Node) (rs : List Role) : Prop where
  roles : rolesOf scope.source name ns = rs
  alone : ∀ n ∈ ns, name ∉ exportedOtherwise scope n

/-- One or more signatures of a name and its implementation, among statements for other names. -/
def IsOverloadGroup (scope : Scope) (name : String) (ns : List Node) (implementation : Role) :
    Prop :=
  ∃ n, Declares scope name ns (List.replicate (n + 1) .signature ++ [implementation])

/-- Statements that export a name by declarations alone add the exports that their roles say. -/
theorem Declares.exportCount_append {before ns : List Node} {rs : List Role}
    (h : Declares scope name ns rs) : exportCount scope name (before ++ ns) =
      exportCount scope name before +
        Role.madeAll (Role.opensAll false (rolesOf scope.source name before)) rs := by
  have hnone : (ns.flatMap (exportedOtherwise scope)).count name = 0 := by
    rw [List.count_eq_zero, List.mem_flatMap]
    rintro ⟨n, hn, hname⟩
    exact h.alone n hn hname
  rw [exportCount, exportCount, count_exportsFrom, count_exportsFrom, List.flatMap_append,
    List.count_append, hnone, rolesOf_append, h.roles, List.contains_nil, Role.madeAll_append]
  omega

/-- A group of overloads adds one export to those of the statements before it exactly if it is
implemented by a function declaration and no group before has left the name open, or if it is
implemented by a generator function and one has. An implementation without signatures adds one
export exactly if the name is not open or it is a generator function. -/
theorem overloads_exported_once_iff (scope : Scope) (name : String) (before ns : List Node)
    {implementation : Role} (h : implementation = .function ∨ implementation = .generator) :
    (IsOverloadGroup scope name ns implementation →
      (exportCount scope name (before ++ ns) = exportCount scope name before + 1 ↔
        (LeftOpen scope.source name before ↔ implementation = .generator))) ∧
    (Declares scope name ns [implementation] →
      (exportCount scope name (before ++ ns) = exportCount scope name before + 1 ↔
        (LeftOpen scope.source name before → implementation = .generator))) := by
  rw [← opensAll_rolesOf]
  constructor
  · rintro ⟨n, hgroup⟩
    rw [hgroup.exportCount_append, Role.madeAll_group, Nat.add_left_cancel_iff]
    cases Role.opensAll false (rolesOf scope.source name before) <;>
      rcases h with rfl | rfl <;> simp [Role.made]
  · intro hlone
    rw [hlone.exportCount_append, Role.madeAll_cons, Role.madeAll_nil, Nat.add_zero,
      Nat.add_left_cancel_iff]
    cases Role.opensAll false (rolesOf scope.source name before) <;>
      rcases h with rfl | rfl <;> simp [Role.made]

/-- The inventory of a file holds the exports of its statements. -/
theorem countP_ofTree {root : Node} (h : (Inventory.ofTree src root).errors = []) :
    (Inventory.ofTree src root).exports.countP (fun e => e.name == name) =
      exportCount (scopeOf src root (importsOf src root)) name root.children := by
  unfold Inventory.ofTree at h ⊢
  dsimp only at h ⊢
  split at h
  · cases h
  · rw [if_neg ‹_›, exportCount]

/-- A generator function with a signature. -/
def walkText : String :=
  "export function walk(n: number): Iterable<number>;\n" ++
    "export function* walk(n: number): Iterable<number> \x7b yield n; \x7d\n"

/-- The signature and the generator function that implements it are exported one by one. -/
theorem walk_exported_twice :
    ∃ r, ReadSource.ofText {} "a.ts" walkText.toList = .ok r ∧
      IsOverloadGroup (scopeOf r.source r.root (importsOf r.source r.root)) "walk" r.root.children
        .generator ∧
      r.inventory.errors = [] ∧ r.inventory.exports.countP (fun e => e.name == "walk") ≠ 1 := by
  have hfacts : (ReadSource.ofText {} "a.ts" walkText.toList).toOption.any (fun r =>
      rolesOf r.source "walk" r.root.children = [.signature, .generator] ∧
      (∀ n ∈ r.root.children, "walk" ∉
        exportedOtherwise (scopeOf r.source r.root (importsOf r.source r.root)) n) ∧
      r.inventory.errors = []) = true := by
    decide +kernel
  cases hr : ReadSource.ofText {} "a.ts" walkText.toList with
  | error f =>
    rw [hr] at hfacts
    cases hfacts
  | ok r =>
    rw [hr] at hfacts
    obtain ⟨hroles, halone, herrors⟩ := of_decide_eq_true hfacts
    have hgroup : IsOverloadGroup (scopeOf r.source r.root (importsOf r.source r.root)) "walk"
        r.root.children .generator := ⟨0, hroles, halone⟩
    have hclosed : ¬LeftOpen r.source "walk" [] := by
      rintro ⟨front, back, hnone, -⟩
      cases front <;> cases hnone
    have honce := (overloads_exported_once_iff (scopeOf r.source r.root
      (importsOf r.source r.root)) "walk" [] r.root.children (.inr rfl)).1 hgroup
    refine ⟨r, rfl, hgroup, herrors, ?_⟩
    rw [ReadSource.inventory] at herrors ⊢
    rw [countP_ofTree herrors]
    exact fun hone => hclosed ((honce.1 hone).2 rfl)

end ExportLint.Detection
