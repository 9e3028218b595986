import ExportLint.Fix.Edit

/-!
# Outcomes of fixing

A batch counts its edits. An edit that conflicts with another one is never applied and counts as
failed.
-/
namespace ExportLint.Fix

/-- What became of an edit. -/
structure Outcome where
  success : Bool
  edit : Edit
  error : Option String := none
  backup : Option String := none
  deriving DecidableEq, Repr

namespace Outcome

def read : Schema.Reader Outcome :=
  Schema.record "FixResult" fun ms =>
    Outcome.mk <$> Schema.field ms "success" Schema.boolean
      <*> Schema.field ms "operation" Edit.read
      <*> Schema.fieldOr ms "error" none (Schema.optional Schema.string)
      <*> Schema.fieldOr ms "backupPath" none (Schema.optional Schema.string)

def toJson (o : Outcome) : Json :=
  .obj <| [("success", .bool o.success), ("operation", o.edit.toJson)] ++
    Json.optional "error" (o.error.map .str) ++ Json.optional "backupPath" (o.backup.map .str)

end Outcome

/-- The outcomes of a run of edits. -/
structure Batch where
  total : Int := 0
  successful : Int := 0
  failed : Int := 0
  results : List Outcome := []
  conflicts : List Outcome := []
  skipped : List Edit := []
  backupDirectory : Option String := none
  dryRun : Bool := false
  deriving DecidableEq, Repr

namespace Batch

/-- The batch of some outcomes, with its counts. -/
def ofResults (results conflicts : List Outcome) (skipped : List Edit)
    (backupDirectory : Option String) (dryRun : Bool) : Batch where
  total := results.length + conflicts.length
  successful := (results.countP (·.success) : Nat)
  failed := (results.countP (!·.success) : Nat) + conflicts.length
  results
  conflicts
  skipped
  backupDirectory
  dryRun

/-- Every edit of a batch either succeeded or failed. -/
theorem ofResults_total (results conflicts : List Outcome) (skipped : List Edit)
    (backupDirectory : Option String) (dryRun : Bool) :
    (ofResults results conflicts skipped backupDirectory dryRun).successful +
        (ofResults results conflicts skipped backupDirectory dryRun).failed =
      (ofResults results conflicts skipped backupDirectory dryRun).total := by
  have h := List.length_eq_countP_add_countP (fun o : Outcome => o.success) (l := results)
  simp only [ofResults]
  simp only [Bool.not_eq_true] at h
  have h' : results.countP (fun o => !o.success) =
      results.countP (fun o => decide (o.success = false)) := by
    congr 1
    funext o
    cases o.success <;> rfl
  omega

def read : Schema.Reader Batch :=
  Schema.record "BatchFixResult" fun ms =>
    Batch.mk <$> Schema.fieldOr ms "totalOperations" 0 Schema.integer
      <*> Schema.fieldOr ms "successfulFixes" 0 Schema.integer
      <*> Schema.fieldOr ms "failedFixes" 0 Schema.integer
      <*> Schema.fieldOr ms "results" [] (Schema.list Outcome.read)
      <*> Schema.fieldOr ms "conflicts" [] (Schema.list Outcome.read)
      <*> Schema.fieldOr ms "skipped" [] (Schema.list Edit.read)
      <*> Schema.fieldOr ms "backupDirectory" none (Schema.optional Schema.string)
      <*> Schema.fieldOr ms "dryRun" false Schema.boolean

def toJson (b : Batch) : Json :=
  .obj <| [("totalOperations", .int b.total), ("successfulFixes", .int b.successful),
    ("failedFixes", .int b.failed), ("results", .arr (b.results.map (·.toJson))),
    ("conflicts", .arr (b.conflicts.map (·.toJson))),
    ("skipped", .arr (b.skipped.map (·.toJson)))] ++
    Json.optional "backupDirectory" (b.backupDirectory.map .str) ++ [("dryRun", .bool b.dryRun)]

end Batch

/-- Choices for one run. What is left open follows the configuration. -/
structure Options where
  dryRun : Bool := false
  createBackup : Option Bool := none
  backupDirectory : Option String := none
  categories : Option (List Category) := none
  maxRisk : Option Risk := none
  deriving DecidableEq, Repr

def Options.read : Schema.Reader Options :=
  Schema.record "AutoFixOptions" fun ms =>
    Options.mk <$> Schema.fieldOr ms "dryRun" false Schema.boolean
      <*> Schema.fieldOr ms "createBackup" none (Schema.optional Schema.boolean)
      <*> Schema.fieldOr ms "backupDirectory" none (Schema.optional Schema.string)
      <*> Schema.fieldOr ms "fixTypes" none (Schema.optional (Schema.list Schema.named))
      <*> Schema.fieldOr ms "maxRiskLevel" none (Schema.optional Schema.named)

end ExportLint.Fix
