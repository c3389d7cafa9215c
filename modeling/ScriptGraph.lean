import ScriptGraph.Bytes.Sha256
import ScriptGraph.Bytes.Utf16
import ScriptGraph.Bytes.Utf8
import ScriptGraph.Cache.Basic
import ScriptGraph.Cache.Record
import ScriptGraph.Cache.Reuse
import ScriptGraph.Cache.Storage
import ScriptGraph.Command.Arguments
import ScriptGraph.Command.Run
import ScriptGraph.Document.JsonText
import ScriptGraph.Document.Scalar
import ScriptGraph.Document.Shape
import ScriptGraph.Document.Shapes
import ScriptGraph.Entries
import ScriptGraph.Environment
import ScriptGraph.FileOutcome
import ScriptGraph.Graph.CallGraph
import ScriptGraph.Graph.DataGraph
import ScriptGraph.Graph.Digraph
import ScriptGraph.Keyword
import ScriptGraph.Log.Basic
import ScriptGraph.Log.Operation
import ScriptGraph.Log.Progress
import ScriptGraph.Log.Setup
import ScriptGraph.Main
import ScriptGraph.MessagePack.Decode
import ScriptGraph.MessagePack.Encode
import ScriptGraph.Name
import ScriptGraph.Number.Double
import ScriptGraph.Number.Integer
import ScriptGraph.Number.Shortest
import ScriptGraph.Object
import ScriptGraph.Proofs.Bytes.Utf16
import ScriptGraph.Proofs.Bytes.Utf8
import ScriptGraph.Proofs.Cache.Packing
import ScriptGraph.Proofs.Cache.Records
import ScriptGraph.Proofs.Cache.Storage
import ScriptGraph.Proofs.Cache.Values
import ScriptGraph.Proofs.Entries
import ScriptGraph.Proofs.Except
import ScriptGraph.Proofs.Graph.Assembly
import ScriptGraph.Proofs.Graph.Entering
import ScriptGraph.Proofs.Graph.FileOrder
import ScriptGraph.Proofs.Graph.Normalised
import ScriptGraph.Proofs.Graph.ReadBack
import ScriptGraph.Proofs.Graph.Regrouping
import ScriptGraph.Proofs.Graph.RoundTrip
import ScriptGraph.Proofs.MessagePack.Packing
import ScriptGraph.Proofs.MessagePack.RoundTrip
import ScriptGraph.Proofs.Name
import ScriptGraph.Proofs.Number.Double
import ScriptGraph.Proofs.Scan.Accounting
import ScriptGraph.Proofs.Scan.CompletionOrder
import ScriptGraph.Proofs.Scan.DamagedCache
import ScriptGraph.Proofs.Scan.DiscardedRecords
import ScriptGraph.Proofs.Scan.Encodings
import ScriptGraph.Proofs.Scan.History
import ScriptGraph.Proofs.Scan.Interleaving
import ScriptGraph.Proofs.Scan.Reports
import ScriptGraph.Proofs.Scan.Results
import ScriptGraph.Proofs.Scan.Reuse
import ScriptGraph.Proofs.Scan.Sifting
import ScriptGraph.Proofs.Scan.Visits
import ScriptGraph.Proofs.Scan.Workers
import ScriptGraph.Proofs.Script.Balance
import ScriptGraph.Proofs.Script.CleanText
import ScriptGraph.Proofs.Script.Cleaning
import ScriptGraph.Proofs.Script.DelimitedNames
import ScriptGraph.Proofs.Script.Groups
import ScriptGraph.Proofs.Script.IntroducedNames
import ScriptGraph.Proofs.Script.LetterCase
import ScriptGraph.Proofs.Script.LookBack
import ScriptGraph.Proofs.Script.NameIdentity
import ScriptGraph.Proofs.Script.NoiseFilter
import ScriptGraph.Proofs.Script.Opacity
import ScriptGraph.Proofs.Script.Outcomes
import ScriptGraph.Proofs.Script.References
import ScriptGraph.Proofs.Script.SearchOrder
import ScriptGraph.Proofs.Script.Subqueries
import ScriptGraph.Proofs.Script.TokenBoundaries
import ScriptGraph.Proofs.Text.Characters
import ScriptGraph.Proofs.Text.Hits
import ScriptGraph.Proofs.Text.Spelling
import ScriptGraph.Proofs.Tree.WellFormed
import ScriptGraph.Proofs.Value
import ScriptGraph.Proofs.Value.Keys
import ScriptGraph.Scan.Basic
import ScriptGraph.Scan.Find
import ScriptGraph.Scan.Visit
import ScriptGraph.Scan.Workers
import ScriptGraph.Script.Cleaning
import ScriptGraph.Script.Definition
import ScriptGraph.Script.Encoding
import ScriptGraph.Script.Input
import ScriptGraph.Script.Noise
import ScriptGraph.Script.Paren
import ScriptGraph.Script.Parse
import ScriptGraph.Script.References
import ScriptGraph.Text.Blank
import ScriptGraph.Text.CaseFold
import ScriptGraph.Text.CodeRange
import ScriptGraph.Text.Cursor
import ScriptGraph.Text.DecimalDigit
import ScriptGraph.Text.Letter
import ScriptGraph.Text.LowerCase
import ScriptGraph.Text.Pattern
import ScriptGraph.Text.Printable
import ScriptGraph.Text.Quoted
import ScriptGraph.Text.Similarity
import ScriptGraph.Text.UpperCase
import ScriptGraph.Text.WordChar
import ScriptGraph.Tree.Basic
import ScriptGraph.Tree.Path
import ScriptGraph.Value.Access
import ScriptGraph.Value.Basic
import ScriptGraph.Value.Display
