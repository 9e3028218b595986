import ExportLint.Graph.ClosedWalk
import ExportLint.Graph.Component
import ExportLint.Rule.Basic

/-!
# No cycles

Files that reach each other by imports and re-exports form a cycle. One shortest way around it is
shown.
-/
namespace ExportLint.Rule

/-- No files reach each other. -/
def filesFormNoCycles : ProjectRule := fun c p =>
  .ok <| (p.graph.cycles p.files).map fun members =>
    let walk := ((p.graph.closedWalk members).getD []).map p.relative
    { c.finding .cycle (members.head?.getD "") ("Circular dependency: " ++
        " -> ".intercalate walk) with
      suggestion := some "Extract the shared declarations into a module both sides can import"
      relatedFiles := members
      metadata := [("cycle", Json.strings walk), ("scope", .str "project")] }

end ExportLint.Rule
