import ExportLint.Audit.Records
import ExportLint.Audit.Result
import ExportLint.Audit.Run
import ExportLint.CommandLine.Command
import ExportLint.CommandLine.Grammar
import ExportLint.CommandLine.Run
import ExportLint.CommandLine.Usage
import ExportLint.Config.Basic
import ExportLint.Config.Check
import ExportLint.Config.Default
import ExportLint.Config.Draft
import ExportLint.Config.Environment
import ExportLint.Config.Merge
import ExportLint.Decimal.Binary64
import ExportLint.Decimal.Shortest
import ExportLint.Disk.Basic
import ExportLint.Failure
import ExportLint.Fix.Application
import ExportLint.Fix.Batch
import ExportLint.Fix.Clause
import ExportLint.Fix.Edit
import ExportLint.Fix.Proposal
import ExportLint.Fix.Replacement
import ExportLint.Fix.Run
import ExportLint.Graph.Basic
import ExportLint.Graph.ClosedWalk
import ExportLint.Graph.Component
import ExportLint.Issue.Basic
import ExportLint.Issue.Group
import ExportLint.Issue.Summary
import ExportLint.Json.Display
import ExportLint.Json.Reader
import ExportLint.Json.Value
import ExportLint.Json.Writer
import ExportLint.Main
import ExportLint.Module.Detection
import ExportLint.Module.Export
import ExportLint.Module.Import
import ExportLint.Module.Inspector
import ExportLint.Module.Inventory
import ExportLint.Module.Location
import ExportLint.Module.Sources
import ExportLint.Named
import ExportLint.Naming.CaseStyle
import ExportLint.Naming.Key
import ExportLint.Naming.Words
import ExportLint.Path.Basic
import ExportLint.Path.Steps
import ExportLint.Pattern.Basic
import ExportLint.Pattern.Reader
import ExportLint.Pattern.Search
import ExportLint.Project.Basic
import ExportLint.Project.Resolver
import ExportLint.Proofs.AnalyzedIssues
import ExportLint.Proofs.Attempts
import ExportLint.Proofs.Backups
import ExportLint.Proofs.BatchAccounts
import ExportLint.Proofs.BatchFiles
import ExportLint.Proofs.CaselessDigits
import ExportLint.Proofs.CheckedSettings
import ExportLint.Proofs.ClauseKinds
import ExportLint.Proofs.ClosedWalks
import ExportLint.Proofs.ComponentSearch
import ExportLint.Proofs.Components
import ExportLint.Proofs.DecimalNumbers
import ExportLint.Proofs.DirectoryTrees
import ExportLint.Proofs.DiskGrowth
import ExportLint.Proofs.DiskWriting
import ExportLint.Proofs.DroppedDuplicates
import ExportLint.Proofs.EditCounts
import ExportLint.Proofs.EditOrder
import ExportLint.Proofs.EditedLineEnds
import ExportLint.Proofs.FaultPaths
import ExportLint.Proofs.FileCopies
import ExportLint.Proofs.FileIndependence
import ExportLint.Proofs.FiledSettings
import ExportLint.Proofs.FixedIssues
import ExportLint.Proofs.GlobLanguage
import ExportLint.Proofs.GlobPatterns
import ExportLint.Proofs.InspectorSessions
import ExportLint.Proofs.IssueNumbers
import ExportLint.Proofs.JsonMembers
import ExportLint.Proofs.JsonTexts
import ExportLint.Proofs.KeptLineEnds
import ExportLint.Proofs.LineEdits
import ExportLint.Proofs.LineEndRuns
import ExportLint.Proofs.LineEnds
import ExportLint.Proofs.LineNumbers
import ExportLint.Proofs.MadeEdits
import ExportLint.Proofs.MergedMembers
import ExportLint.Proofs.MergedRules
import ExportLint.Proofs.MissingExports
import ExportLint.Proofs.NameWords
import ExportLint.Proofs.NearestDoubles
import ExportLint.Proofs.NewFiles
import ExportLint.Proofs.PageMarkup
import ExportLint.Proofs.PathTexts
import ExportLint.Proofs.PatternStretches
import ExportLint.Proofs.PatternTexts
import ExportLint.Proofs.ProposedEdits
import ExportLint.Proofs.ReachableNodes
import ExportLint.Proofs.ReadSettings
import ExportLint.Proofs.RebuiltSettings
import ExportLint.Proofs.RelativePaths
import ExportLint.Proofs.RelistedProjects
import ExportLint.Proofs.RelistedReports
import ExportLint.Proofs.RepeatedBatches
import ExportLint.Proofs.RepeatedEdits
import ExportLint.Proofs.Repetitions
import ExportLint.Proofs.ReportDocuments
import ExportLint.Proofs.ReportedCycles
import ExportLint.Proofs.RestyledNames
import ExportLint.Proofs.RuleOptions
import ExportLint.Proofs.SavedSettings
import ExportLint.Proofs.ScannedFiles
import ExportLint.Proofs.SearchLength
import ExportLint.Proofs.SettingsLoading
import ExportLint.Proofs.SettingsMerging
import ExportLint.Proofs.ShadowedKeys
import ExportLint.Proofs.SimultaneousEdits
import ExportLint.Proofs.SourcePlaces
import ExportLint.Proofs.StyledNames
import ExportLint.Proofs.UnusedExports
import ExportLint.Proofs.Utf8Encoding
import ExportLint.Proofs.WantedNames
import ExportLint.Proofs.WrittenRows
import ExportLint.Proofs.WrongFields
import ExportLint.Report.Basic
import ExportLint.Report.Console
import ExportLint.Report.Csv
import ExportLint.Report.Delivery
import ExportLint.Report.Document
import ExportLint.Report.Html
import ExportLint.Report.Markdown
import ExportLint.Rule.Basic
import ExportLint.Rule.Cycle
import ExportLint.Rule.Duplicate
import ExportLint.Rule.Link
import ExportLint.Rule.Naming
import ExportLint.Rule.Table
import ExportLint.Rule.TypeLevel
import ExportLint.Scan.Glob
import ExportLint.Scan.GlobPattern
import ExportLint.Scan.Walk
import ExportLint.Schema.Field
import ExportLint.Schema.Validated
import ExportLint.Syntax.ClassBody
import ExportLint.Syntax.Cursor
import ExportLint.Syntax.Declaration
import ExportLint.Syntax.Ending
import ExportLint.Syntax.Expression
import ExportLint.Syntax.Goal
import ExportLint.Syntax.Literal
import ExportLint.Syntax.Markup
import ExportLint.Syntax.Node
import ExportLint.Syntax.Operator
import ExportLint.Syntax.Pattern
import ExportLint.Syntax.Reader
import ExportLint.Syntax.Statement
import ExportLint.Syntax.TypeForm
import ExportLint.Terminal.Markup
import ExportLint.Terminal.Shown
import ExportLint.Terminal.Table
import ExportLint.Text.CaseMap
import ExportLint.Text.CaseMap.Table
import ExportLint.Text.Letter
import ExportLint.Text.Letter.Table
import ExportLint.Text.Lines
import ExportLint.Text.Quoted
import ExportLint.Text.Utf8
import ExportLint.Text.Width
import ExportLint.Text.Width.Table
import ExportLint.Time.Moment
import ExportLint.Time.Reader
import ExportLint.Proofs.ConventionalNames
import ExportLint.Proofs.BindingNames
import ExportLint.Proofs.OverloadGroups
import ExportLint.Proofs.RenamedPlaces
import ExportLint.Proofs.KeptCharacters
import ExportLint.Proofs.RenamedExports
import ExportLint.Proofs.DestructuredNames
import ExportLint.Proofs.TidiedClauses
import ExportLint.Proofs.RemainingExports
import ExportLint.Proofs.ConflictingExports
import ExportLint.Proofs.InternalModules
import ExportLint.Proofs.ResolvedSpecifiers
import ExportLint.Proofs.MarkdownTables
