import Blockwork.Catalog.Kind
import Blockwork.Catalog.Slot
import Blockwork.Collaboration.Board
import Blockwork.Collaboration.Message
import Blockwork.Dict
import Blockwork.Editing.Command
import Blockwork.Editing.Session
import Blockwork.Editing.Regeneration
import Blockwork.Generation.Program
import Blockwork.Generation.Pass
import Blockwork.Generation.Statements
import Blockwork.Generation.Values
import Blockwork.Graph.Basic
import Blockwork.Graph.Block
import Blockwork.Graph.Error
import Blockwork.Graph.Links
import Blockwork.Graph.Tables
import Blockwork.Graph.Tree
import Blockwork.Graph.Validity
import Blockwork.Json.Document
import Blockwork.Json.Reader
import Blockwork.Json.Record
import Blockwork.Json.Value
import Blockwork.Json.Writer
import Blockwork.Number.Double
import Blockwork.Number.Decimal
import Blockwork.Python.Expr
import Blockwork.Python.NameTable
import Blockwork.Python.Layout
import Blockwork.Snapshot.Capture
import Blockwork.Snapshot.Form
import Blockwork.Snapshot.FormReader
import Blockwork.Snapshot.FormWriter
import Blockwork.Snapshot.Restore
import Blockwork.Text.Casing
import Blockwork.Text.Spacing
import Blockwork.Text.Printable
import Blockwork.Workspace.Edit
import Blockwork.Proofs.BlockShape
import Blockwork.Proofs.Linkage
import Blockwork.Proofs.Ancestry
import Blockwork.Proofs.EditRules
import Blockwork.Proofs.Moves
import Blockwork.Proofs.Pruning
import Blockwork.Proofs.Names
import Blockwork.Proofs.References
import Blockwork.Proofs.WellFormed
import Blockwork.Proofs.Validity
import Blockwork.Proofs.Atomicity
import Blockwork.Proofs.Reachability
import Blockwork.Proofs.Planning
import Blockwork.Proofs.Replay
import Blockwork.Proofs.RoundTrip
import Blockwork.Proofs.SavedTables
import Blockwork.Proofs.Grammar
import Blockwork.Proofs.Reading
import Blockwork.Proofs.Lexing
import Blockwork.Proofs.BlockStructure
import Blockwork.Proofs.Identifiers
import Blockwork.Proofs.Phrases
import Blockwork.Proofs.Passes
import Blockwork.Proofs.Meaning
import Blockwork.Proofs.ValueRules
import Blockwork.Proofs.StatementRules
import Blockwork.Proofs.SourceText
import Blockwork.Proofs.Refusals
import Blockwork.Proofs.DistinctNames
import Blockwork.Proofs.NumericEquality
import Blockwork.Proofs.SnapshotEquality
import Blockwork.Proofs.Regeneration
import Blockwork.Proofs.NearestDouble
import Blockwork.Proofs.NumberText
import Blockwork.Proofs.JsonText
import Blockwork.Proofs.JsonContent
import Blockwork.Proofs.SavedText
import Blockwork.Proofs.TextRoundTrip
import Blockwork.Proofs.LatestAnswers
import Blockwork.Proofs.SkippedSlots
import Blockwork.Proofs.Paths
import Blockwork.Proofs.Requests
import Blockwork.Proofs.Walks
import Blockwork.Proofs.Notifications
import Blockwork.Proofs.Relabeling
import Blockwork.Proofs.SourceIdentity
import Blockwork.Proofs.Rebinding
import Blockwork.Proofs.NativeForms
import Blockwork.Proofs.NativeLoading
import Blockwork.Proofs.Scanning
import Blockwork.Proofs.GivenNames
import Blockwork.Proofs.Templates
import Blockwork.Proofs.WordRules
import Blockwork.Proofs.SourceWords
import Blockwork.Proofs.NewIds
import Blockwork.Proofs.Placement
import Blockwork.Proofs.Removal
import Blockwork.Proofs.Reshaping
import Blockwork.Proofs.ShapeEdits
import Blockwork.Proofs.Detachment
import Blockwork.Proofs.LoadStages
import Blockwork.Proofs.LoadedStructure
import Blockwork.Proofs.NativeParameters
import Blockwork.Proofs.WantedImports
import Blockwork.Proofs.WatchedPass
import Blockwork.Proofs.FollowedPass
import Blockwork.Proofs.NestedText
import Blockwork.Proofs.HoistedFunctions
import Blockwork.Proofs.ExactRendering
import Blockwork.Proofs.LoopSuites
import Blockwork.Proofs.CompleteHoisting
import Blockwork.Proofs.StringLiterals
import Blockwork.Proofs.CommentText
import Blockwork.Proofs.Placeholder
import Blockwork.Proofs.BoardConsistency
import Blockwork.Proofs.SlotTables
import Blockwork.Proofs.NameSearch
