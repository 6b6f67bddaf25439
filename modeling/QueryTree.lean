import QueryTree.Main
import QueryTree.Frame.Compose
import QueryTree.Proofs.Outcome
import QueryTree.Proofs.Entries
import QueryTree.Proofs.Json.Reading
import QueryTree.Proofs.Json.UniqueNames
import QueryTree.Proofs.Document.Grammar
import QueryTree.Proofs.Document.Acceptance
import QueryTree.Proofs.Document.Tree
import QueryTree.Proofs.Field.Alias
import QueryTree.Proofs.Field.Stored
import QueryTree.Proofs.Field.Canonical
import QueryTree.Proofs.Document.Stored
import QueryTree.Proofs.Document.Canonical
import QueryTree.Proofs.Document.RoundTrip
import QueryTree.Proofs.Document.Conversion
import QueryTree.Proofs.Field.WellFormed
import QueryTree.Proofs.Frame.Reachable
import QueryTree.Proofs.Frame.Storage
import QueryTree.Proofs.Sql.ColumnTexts
import QueryTree.Proofs.Sql.Clauses
import QueryTree.Proofs.Sql.Node
import QueryTree.Proofs.Sql.Resolution
import QueryTree.Proofs.Sql.Unambiguous
import QueryTree.Proofs.Sql.Unions
import QueryTree.Proofs.Sql.SetOperations
import QueryTree.Proofs.Frame.Calls
import QueryTree.Proofs.Sql.Canonical
import QueryTree.Proofs.Frame.OutputColumns
import QueryTree.Proofs.Frame.Reloading
import QueryTree.Proofs.Files
import QueryTree.Proofs.Json.Numbers
import QueryTree.Proofs.Json.Lexing
import QueryTree.Proofs.Json.Nesting
import QueryTree.Proofs.Json.ReadBack
import QueryTree.Proofs.Document.ReadBack
import QueryTree.Proofs.QueryFile.Actions
import QueryTree.Proofs.QueryFile.Labels
import QueryTree.Proofs.Frame.LabelledFiles
import QueryTree.Proofs.Sql.Depth
import QueryTree.Proofs.Sql.Template
import QueryTree.Proofs.Sql.ClauseTexts
import QueryTree.Proofs.Sql.Scope
import QueryTree.Proofs.Sql.Composition
import QueryTree.Proofs.Frame.Adoption
import QueryTree.Proofs.Document.Walk
import QueryTree.Proofs.Document.Settled
import QueryTree.Proofs.Document.Aliases
import QueryTree.Proofs.Document.FirstFault
import QueryTree.Proofs.ColumnSheet
import QueryTree.Proofs.QueryFile.Storing
import QueryTree.Proofs.CommandLine.Import
import QueryTree.Proofs.Document.Alike
import QueryTree.Proofs.Document.Reordering
import QueryTree.Proofs.Document.FlatForm
import QueryTree.Proofs.Frame.Alignment
import QueryTree.Proofs.Frame.JoinedColumns
import QueryTree.Proofs.Frame.ComposedColumns
import QueryTree.Proofs.Frame.ComposedNodes
import QueryTree.Proofs.Frame.FieldEdits
import QueryTree.Proofs.Frame.ConditionTexts
import QueryTree.Proofs.Frame.Conditions
import QueryTree.Proofs.Frame.Sorting
import QueryTree.Proofs.Frame.Commuting
import QueryTree.Proofs.Text.Words
import QueryTree.Proofs.Text.Padding
import QueryTree.Proofs.Keyword
import QueryTree.Proofs.ColumnSheet.Padding
import QueryTree.Proofs.ColumnSheet.Fields
import QueryTree.Proofs.Frame.Answers
