import ExportLint.Issue.Basic

/-!
# Summaries

The counts of a run. The success rate is the share of fixable issues that were fixed; it is one
where there was nothing to fix.
-/
namespace ExportLint

open Decimal (Binary64)

structure Summary where
  errors : Int := 0
  warnings : Int := 0
  infos : Int := 0
  fixed : Int := 0
  successRate : Binary64 := .ofNat 1
  total : Int := 0
  fixable : Int := 0
  deriving DecidableEq, Repr

namespace Summary

def withSeverity (s : Severity) (is : List Issue) : Nat := is.countP fun i => i.severity == s

/-- The summary of issues of which some were fixed. -/
def ofIssues (is fixed : List Issue) : Summary :=
  let fixable := is.countP (·.autoFixable)
  { errors := withSeverity .error is
    warnings := withSeverity .warning is
    infos := withSeverity .info is
    fixed := fixed.length
    successRate := if fixable = 0 then .ofNat 1 else .ofRatio false fixed.length fixable
    total := is.length
    fixable }

def read : Schema.Reader Summary :=
  Schema.record "AnalysisSummary" fun ms =>
    Summary.mk <$> Schema.fieldOr ms "errorCount" 0 Schema.integer
      <*> Schema.fieldOr ms "warningCount" 0 Schema.integer
      <*> Schema.fieldOr ms "infoCount" 0 Schema.integer
      <*> Schema.fieldOr ms "fixedCount" 0 Schema.integer
      <*> Schema.fieldOr ms "successRate" (.ofNat 1) Schema.real
      <*> Schema.fieldOr ms "totalIssues" 0 Schema.integer
      <*> Schema.fieldOr ms "autoFixableCount" 0 Schema.integer

def toJson (s : Summary) : Json :=
  .obj [("errorCount", .int s.errors), ("warningCount", .int s.warnings),
    ("infoCount", .int s.infos), ("fixedCount", .int s.fixed), ("successRate", .real s.successRate),
    ("totalIssues", .int s.total), ("autoFixableCount", .int s.fixable)]

end Summary

end ExportLint
