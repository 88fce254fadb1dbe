import ShaderGraph.Binary64.Arithmetic
import ShaderGraph.Binary64.Basic
import ShaderGraph.Binary64.Read
import ShaderGraph.Binary64.Shortest
import ShaderGraph.Binary64.Text
import ShaderGraph.Command.Arguments
import ShaderGraph.Command.Basic
import ShaderGraph.Command.Run
import ShaderGraph.Diagnostic
import ShaderGraph.Digest
import ShaderGraph.Editor.Command
import ShaderGraph.Editor.Variables
import ShaderGraph.Editor.Words
import ShaderGraph.Failure
import ShaderGraph.Fingerprint
import ShaderGraph.Graph.Artifact
import ShaderGraph.Graph.Code
import ShaderGraph.Graph.DecisionTree
import ShaderGraph.Graph.Description
import ShaderGraph.Graph.Generate
import ShaderGraph.Graph.Identifier
import ShaderGraph.Graph.Record
import ShaderGraph.Graph.TexCoordinate
import ShaderGraph.Host
import ShaderGraph.Include.Directive
import ShaderGraph.Include.Roots
import ShaderGraph.Instant
import ShaderGraph.Json.Basic
import ShaderGraph.Json.Integer
import ShaderGraph.Json.Reader
import ShaderGraph.Json.Shape
import ShaderGraph.Json.Writer
import ShaderGraph.Main
import ShaderGraph.Memory.Disk
import ShaderGraph.Memory.World
import ShaderGraph.Moment
import ShaderGraph.OrderedMap
import ShaderGraph.Path.Basic
import ShaderGraph.Path.Text
import ShaderGraph.Pin.Argument
import ShaderGraph.Pin.Basic
import ShaderGraph.Pin.Default
import ShaderGraph.Pin.Metadata
import ShaderGraph.Pin.Signature
import ShaderGraph.Pin.Spelling
import ShaderGraph.Pin.Tooltip
import ShaderGraph.Project.Basic
import ShaderGraph.Project.Document
import ShaderGraph.Project.File
import ShaderGraph.Remap.Location
import ShaderGraph.Remap.Message
import ShaderGraph.Remap.Project
import ShaderGraph.Source.Function
import ShaderGraph.Source.Scan
import ShaderGraph.Store.Basic
import ShaderGraph.Store.Documents
import ShaderGraph.Store.Manifest
import ShaderGraph.Text.Blank
import ShaderGraph.Text.Digit
import ShaderGraph.Text.Lines
import ShaderGraph.Text.Numeral
import ShaderGraph.Text.Printable
import ShaderGraph.Text.Search
import ShaderGraph.Text.Style
import ShaderGraph.Text.Word
import ShaderGraph.Update.Library
import ShaderGraph.Update.Project
import ShaderGraph.Update.Report
import ShaderGraph.Watch.Handler
import ShaderGraph.Watch.Watcher
import ShaderGraph.Yaml.Base64
import ShaderGraph.Yaml.Basic
import ShaderGraph.Yaml.Cell
import ShaderGraph.Yaml.Cursor
import ShaderGraph.Yaml.Display
import ShaderGraph.Yaml.Literal
import ShaderGraph.Yaml.Moment
import ShaderGraph.Yaml.Node
import ShaderGraph.Yaml.Number
import ShaderGraph.Yaml.Page
import ShaderGraph.Yaml.Plain
import ShaderGraph.Yaml.Quoted
import ShaderGraph.Yaml.Reader
import ShaderGraph.Yaml.Scalar
import ShaderGraph.Yaml.Scanner
import ShaderGraph.Yaml.Token
import ShaderGraph.Yaml.Writer
import ShaderGraph.Proofs.DecisionTree
import ShaderGraph.Proofs.Resolves
import ShaderGraph.Proofs.Signature
import ShaderGraph.Proofs.Variants
import ShaderGraph.Proofs.Balance
import ShaderGraph.Proofs.Legible
import ShaderGraph.Proofs.Reading
import ShaderGraph.Proofs.Rendering
import ShaderGraph.Proofs.Scanned
import ShaderGraph.Proofs.Fingerprint
import ShaderGraph.Proofs.Identifiers
import ShaderGraph.Proofs.Update
import ShaderGraph.Proofs.Shelf
import ShaderGraph.Proofs.Skip
import ShaderGraph.Proofs.Layout
import ShaderGraph.Proofs.Ledger
import ShaderGraph.Proofs.Manifest
import ShaderGraph.Proofs.Repeat
import ShaderGraph.Proofs.Neighbours
import ShaderGraph.Proofs.FlowStyle
import ShaderGraph.Proofs.Options
import ShaderGraph.Proofs.Reconfigured
import ShaderGraph.Proofs.Versions
import ShaderGraph.Proofs.Declarations
import ShaderGraph.Proofs.Connections
import ShaderGraph.Proofs.Supplied
import ShaderGraph.Proofs.Stopped
import ShaderGraph.Proofs.Touched
import ShaderGraph.Proofs.Repaired
import ShaderGraph.Proofs.Extended
import ShaderGraph.Proofs.LastLine
import ShaderGraph.Proofs.ScanLoop
import ShaderGraph.Proofs.Records
import ShaderGraph.Proofs.Disk
import ShaderGraph.Proofs.Written
import ShaderGraph.Proofs.Stored
import ShaderGraph.Proofs.Along
import ShaderGraph.Proofs.Held
import ShaderGraph.Proofs.Entries
import ShaderGraph.Proofs.Catalogue
import ShaderGraph.Proofs.Scene
import ShaderGraph.Proofs.History
import ShaderGraph.Proofs.Theatre
import ShaderGraph.Proofs.Flags
import ShaderGraph.Proofs.Registry
import ShaderGraph.Proofs.Watches
import ShaderGraph.Proofs.MetadataText
import ShaderGraph.Proofs.WrittenEntries
import ShaderGraph.Proofs.SelfContained
import ShaderGraph.Proofs.DefaultBlanks
import ShaderGraph.Proofs.WrittenPin
import ShaderGraph.Proofs.ArgumentGrammar
import ShaderGraph.Proofs.TrailingBlank
import ShaderGraph.Proofs.Boundaries
import ShaderGraph.Proofs.Placement
import ShaderGraph.Proofs.Remapped
import ShaderGraph.Proofs.Sorts
import ShaderGraph.Proofs.PinInvariants
import ShaderGraph.Proofs.SpelledPin
import ShaderGraph.Proofs.Padding
import ShaderGraph.Proofs.Declared
import ShaderGraph.Proofs.Clashes
import ShaderGraph.Proofs.PathNames
import ShaderGraph.Proofs.Roots
import ShaderGraph.Proofs.VirtualPaths
import ShaderGraph.Proofs.RelativeIncludes
import ShaderGraph.Proofs.BrokenRecords
import ShaderGraph.Proofs.Damaged
import ShaderGraph.Proofs.Aborted
import ShaderGraph.Proofs.DefaultGrammar
import ShaderGraph.Proofs.StrayKeys
import ShaderGraph.Proofs.FailedUpdates
import ShaderGraph.Proofs.EditorCommands
import ShaderGraph.Proofs.Occurrences
import ShaderGraph.Proofs.Dependencies
import ShaderGraph.Proofs.SavedProject
import ShaderGraph.Proofs.Tags
import ShaderGraph.Proofs.Description
