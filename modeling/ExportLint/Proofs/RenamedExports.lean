import Mathlib.Data.List.Pairwise
import ExportLint.Proofs.ConventionalNames
import ExportLint.Proofs.DroppedDuplicates

/-!
# Exports under the names that are offered

A name is offered for each export on its own, so two exports of a file can come out with one name.
The old names have the same letters and digits then, up to case, since every style keeps these. So
the exports stay apart exactly if no offered name is the one that such an export comes out with.
-/
namespace ExportLint.Rule

variable {c : Context} {file name : String} {es : List Export} {e other : Export}
  {found : List Finding}

/-- No two exports have one name and one level. -/
def Distinct (es : List Export) : Prop := es.Pairwise fun a b => sameSymbol a b = false

instance (es : List Export) : Decidable (Distinct es) :=
  inferInstanceAs (Decidable (es.Pairwise fun a b => sameSymbol a b = false))

theorem sameSymbol_comm (a b : Export) : sameSymbol a b = sameSymbol b a :=
  Bool.eq_iff_iff.2 <| by
    rw [sameSymbol_iff, sameSymbol_iff, eq_comm, @eq_comm _ a.kind.isTypeLevel]

/-- Exports are distinct exactly if each is the only one of its name and level. -/
theorem distinct_iff : Distinct es ↔ ∀ e ∈ es, (es.filter (sameSymbol e)).length < 2 := by
  constructor
  · intro h e he
    obtain ⟨before, after, rfl⟩ := List.append_of_mem he
    have hsplit : ∀ d ∈ before ++ after, sameSymbol e d = false :=
      (List.pairwise_cons.1 ((List.pairwise_middle fun {a b} hab => by
        rwa [sameSymbol_comm]).1 h)).1
    have hnone {ds : List Export} (hds : ∀ d ∈ ds, d ∈ before ++ after) :
        ds.filter (sameSymbol e) = [] :=
      List.filter_eq_nil_iff.2 fun d hd => Bool.eq_false_iff.1 (hsplit d (hds d hd))
    rw [List.filter_append, List.filter_cons_of_pos (sameSymbol_self e),
      hnone fun d hd => List.mem_append_left after hd,
      hnone fun d hd => List.mem_append_right before hd]
    exact Nat.lt_succ_self 1
  · intro h
    refine List.pairwise_iff_forall_sublist.2 fun {a b} hab => Bool.eq_false_iff.2 fun hsame => ?_
    have hone := h a (hab.subset List.mem_cons_self)
    have htwo := (hab.filter (sameSymbol a)).length_le
    rw [List.filter_cons_of_pos (sameSymbol_self a), List.filter_cons_of_pos hsame] at htwo
    simp only [List.length_cons] at htwo
    omega

/-- The rule that a file exports a name once has nothing to say exactly if the exports that count
are distinct. -/
theorem namesAreExportedOnce_eq_nil_iff :
    namesAreExportedOnce c file es = .ok [] ↔ Distinct (es.filter countsAsNamed) := by
  rw [namesAreExportedOnce, Except.ok.injEq, List.filterMap_eq_nil_iff, distinct_iff]
  refine forall₂_congr fun e _ => ?_
  rw [duplicateFinding?]
  dsimp only
  split
  · rename_i hlt
    exact iff_of_true rfl hlt
  · rename_i hlt
    exact iff_of_false (Option.some_ne_none _) hlt

/-- The name that is offered for an export. -/
def offered? (c : Context) (file : String) (e : Export) : Option String :=
  match namingFinding c file e with
  | .ok (some x) =>
    match x.autoFixable, x.metadata.get? "suggestedName" with
    | true, some (.str name) => some name
    | _, _ => none
  | _ => none

/-- An export under the name that is offered for it, if there is one. -/
def renamed (c : Context) (file : String) (e : Export) : Export :=
  { e with name := (offered? c file e).getD e.name }

theorem offered?_eq_some_iff : offered? c file e = some name ↔
    ∃ x, namingFinding c file e = .ok (some x) ∧ x.autoFixable = true ∧
      x.metadata.get? "suggestedName" = some (.str name) := by
  rw [offered?]
  split
  · rename_i x hx
    split
    · rename_i hfix hname
      simp [hx, hfix, hname]
    · rename_i hnot
      refine iff_of_false (by simp) ?_
      rintro ⟨y, hy, hfix, hname⟩
      rw [hx] at hy
      cases hy
      exact hnot name hfix hname
  · rename_i hnot
    refine iff_of_false (by simp) ?_
    rintro ⟨x, hx, -⟩
    exact hnot x hx

/-- What is offered is the name in the style of the kind. -/
theorem styledName_of_offered? (h : offered? c file e = some name) : styledName c e = name := by
  obtain ⟨x, hx, hfix, hname⟩ := offered?_eq_some_iff.1 h
  obtain ⟨pattern, -, htold⟩ := namingFinding_spec hx
  rw [htold.suggested hfix] at hname
  cases hname
  rfl

/-- A rename keeps the letters and digits of a name. -/
theorem letters_renamed (c : Context) (file : String) (e : Export) :
    Naming.letters (renamed c file e).name.toList = Naming.letters e.name.toList := by
  cases h : offered? c file e with
  | none => rw [renamed, h, Option.getD_none]
  | some name =>
    rw [renamed, h, Option.getD_some, ← styledName_of_offered? h]
    exact CaseStyle.letters_apply _ e.name

/-- Exports of different names come out as one only if one of them is renamed. -/
theorem offered?_of_sameSymbol (hname : e.name ≠ other.name)
    (h : sameSymbol (renamed c file e) (renamed c file other) = true) :
    offered? c file e = some (renamed c file other).name ∨
      offered? c file other = some (renamed c file e).name := by
  have hsame := (sameSymbol_iff.1 h).1
  cases he : offered? c file e with
  | some name =>
    left
    rw [← hsame, renamed, he, Option.getD_some]
  | none =>
    right
    cases ho : offered? c file other with
    | some name => rw [hsame, renamed, ho, Option.getD_some]
    | none => exact absurd (by simpa [renamed, he, ho] using hsame) hname

/-- Let no two exports of a file have one name and one level. This holds under the names that are
offered, too, exactly if none is offered that another export of the level comes out with. Only exports
whose names have the same letters and digits, up to case, are to be looked at for this. The rule that
a file exports a name once has nothing to say then. -/
theorem renamed_distinct_iff (h : namesFollowConventions c file es = .ok found)
    (hdistinct : Distinct es) :
    (∀ e ∈ es, ∀ name, offered? c file e = some name ↔
      ∃ x ∈ found, namingFinding c file e = .ok (some x) ∧ x.autoFixable = true ∧
        x.metadata.get? "suggestedName" = some (.str name)) ∧
      (Distinct (es.map (renamed c file)) ↔
        ∀ e ∈ es, ∀ name, offered? c file e = some name → ∀ other ∈ es,
          other.name ≠ e.name → other.kind.isTypeLevel = e.kind.isTypeLevel →
          Naming.letters other.name.toList = Naming.letters e.name.toList →
            (renamed c file other).name ≠ name) ∧
      (Distinct (es.map (renamed c file)) → ∀ once : Context,
        namesAreExportedOnce once file (es.map (renamed c file)) = .ok []) := by
  refine ⟨fun e he name => ?_, ?_, fun hnew once => ?_⟩
  · rw [offered?_eq_some_iff]
    refine exists_congr fun x => ?_
    rw [mem_namesFollowConventions_iff h]
    exact ⟨fun hx => ⟨⟨e, he, hx.1⟩, hx⟩, fun hx => hx.2⟩
  · rw [Distinct, List.pairwise_map]
    constructor
    · intro hnew e he name hoffered other hother hne hlevel _ hclash
      have : Std.Symm fun a b =>
          sameSymbol (renamed c file a) (renamed c file b) = false :=
        ⟨fun a b hab => by rwa [sameSymbol_comm]⟩
      have hapart := hnew.forall he hother fun heq => hne (heq ▸ rfl)
      refine Bool.eq_false_iff.1 hapart (sameSymbol_iff.2 ⟨?_, hlevel.symm⟩)
      rw [hclash, renamed, hoffered, Option.getD_some]
    · intro hapart
      refine hdistinct.imp_of_mem fun {a b} ha hb hab => Bool.eq_false_iff.2 fun hsame => ?_
      have hlevel : a.kind.isTypeLevel = b.kind.isTypeLevel := (sameSymbol_iff.1 hsame).2
      have hname : a.name ≠ b.name := fun hname =>
        Bool.eq_false_iff.1 hab (sameSymbol_iff.2 ⟨hname, hlevel⟩)
      have hletters : Naming.letters a.name.toList = Naming.letters b.name.toList := by
        rw [← letters_renamed c file a, ← letters_renamed c file b, (sameSymbol_iff.1 hsame).1]
      rcases offered?_of_sameSymbol hname hsame with ho | ho
      · exact hapart a ha _ ho b hb hname.symm hlevel.symm hletters.symm rfl
      · exact hapart b hb _ ho a ha hname hlevel hletters rfl
  · exact namesAreExportedOnce_eq_nil_iff.2 (hnew.filter countsAsNamed)

/-- Two functions whose names are one in camel case. -/
def underscoredExport : Export where
  file := "proj/a.ts"
  name := "foo_bar"
  form := .named
  kind := .function
  location := ⟨"proj/a.ts", 1, 17, 1, 35⟩

def camelExport : Export where
  file := "proj/a.ts"
  name := "fooBar"
  form := .named
  kind := .function
  location := ⟨"proj/a.ts", 2, 17, 2, 34⟩

def twinExports : List Export := [underscoredExport, camelExport]

/-- The name of the second one is offered for the first one, and the file exports it twice then. -/
theorem twinExports_come_out_as_one :
    ∃ found, namesFollowConventions namingContext "proj/a.ts" twinExports = .ok found ∧
      Distinct twinExports ∧
      (∃ x ∈ found, x.autoFixable = true ∧
        x.metadata.get? "suggestedName" = some (.str camelExport.name)) ∧
      ¬Distinct (twinExports.map (renamed namingContext "proj/a.ts")) ∧
      namesAreExportedOnce namingContext "proj/a.ts"
        (twinExports.map (renamed namingContext "proj/a.ts")) ≠ .ok [] := by
  obtain ⟨found, hfound⟩ := usesConventions_namingContext.exists_found rfl "proj/a.ts" twinExports
  have hdistinct : Distinct twinExports := by decide
  obtain ⟨htold, hiff, -⟩ := renamed_distinct_iff hfound hdistinct
  have hoffered : offered? namingContext "proj/a.ts" underscoredExport = some camelExport.name := by
    decide +kernel
  have hkept : offered? namingContext "proj/a.ts" camelExport = none := by decide +kernel
  have hfirst : underscoredExport ∈ twinExports := List.mem_cons_self
  have hsecond : camelExport ∈ twinExports := List.mem_cons_of_mem _ List.mem_cons_self
  obtain ⟨x, hx, -, hfix, hname⟩ := (htold _ hfirst _).1 hoffered
  have htwice : ¬Distinct (twinExports.map (renamed namingContext "proj/a.ts")) := by
    intro hnew
    refine hiff.1 hnew _ hfirst _ hoffered _ hsecond (by decide) rfl (by decide +kernel) ?_
    rw [renamed, hkept, Option.getD_none]
  refine ⟨found, hfound, hdistinct, ⟨x, hx, hfix, hname⟩, htwice, fun hnone => htwice ?_⟩
  have hcounted : ∀ e ∈ twinExports.map (renamed namingContext "proj/a.ts"),
      countsAsNamed e = true := by decide +kernel
  rw [← List.filter_eq_self.2 hcounted]
  exact namesAreExportedOnce_eq_nil_iff.1 hnone

end ExportLint.Rule
