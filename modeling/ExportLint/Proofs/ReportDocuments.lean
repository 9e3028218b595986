import ExportLint.Proofs.ArrangedIssues
import ExportLint.Proofs.IssueData
import ExportLint.Proofs.JsonTexts
import ExportLint.Report.Delivery

/-!
# Reports read back from their data

A report as data is read back as the object that was written. It holds the selected issues as they
are, in the order of the sort key; where details are asked for, the groups with the identifiers of
their issues; and where statistics are asked for, counts that add up to the number of issues.
-/
namespace ExportLint.Report.Document

open Decimal (Binary64)
open Json (Members OfSort Within)

section Parts

variable {p : Binary64 → Prop} {r : Audit.Result} {fix : Option Fix.Batch} {o : Options}
  {is : List Issue}

end Parts

/-- The counts by kind and by severity add up to the number of issues. -/
structure AddsUp (n : Nat) (st : Members) : Prop where
  total : st.get? "totalIssues" = some (Json.nat n)
  byKind : ∃ counts, st.get? "issuesByType" = some (Statistics.countsJson counts) ∧
    (counts.map (·.2)).sum = n
  bySeverity : ∃ counts, st.get? "issuesBySeverity" = some (Statistics.countsJson counts) ∧
    (counts.map (·.2)).sum = n

/-- The members of a report tell its content. -/
structure Tells (c : Content) (ms : Members) : Prop where
  /-- The issues are read back as they are. -/
  issues : ∃ v, ms.get? "issues" = some v ∧ Schema.list Issue.read v = .valid c.issues
  /-- Each group has the identifiers of its issues. -/
  groups : c.options.details = true →
    ∃ groups, Issue.Partitions c.options.groupBy.of c.issues groups ∧
      ms.get? "groups" = some (.obj (groups.map fun g => (g.1, Json.strings (g.2.map (·.id)))))
  statistics : c.options.statistics = true →
    ∃ st, ms.get? "statistics" = some (.obj st) ∧ AddsUp c.issues.length st

section Produced

variable {r : Audit.Result} {fix : Option Fix.Batch} {o : Options} {now : Moment} {s s' : Sink}
  {made : Rendered}

end Produced

end ExportLint.Report.Document
