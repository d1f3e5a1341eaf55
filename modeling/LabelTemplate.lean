import LabelTemplate.Command.Arguments
import LabelTemplate.Command.Config
import LabelTemplate.Command.Execute
import LabelTemplate.Command.Help
import LabelTemplate.Command.Run
import LabelTemplate.Error
import LabelTemplate.Files
import LabelTemplate.Json.Cursor
import LabelTemplate.Json.Fault
import LabelTemplate.Json.Number
import LabelTemplate.Json.Reader
import LabelTemplate.Json.Value
import LabelTemplate.Location
import LabelTemplate.Main
import LabelTemplate.Number.Binary
import LabelTemplate.Number.Shortest
import LabelTemplate.Number.Text
import LabelTemplate.Template.Build
import LabelTemplate.Template.Builtins
import LabelTemplate.Template.Declarations
import LabelTemplate.Template.Deferred
import LabelTemplate.Template.Directive
import LabelTemplate.Template.ElementState
import LabelTemplate.Template.Environment
import LabelTemplate.Template.Export
import LabelTemplate.Template.Fill
import LabelTemplate.Template.Names
import LabelTemplate.Template.Population
import LabelTemplate.Template.Sources
import LabelTemplate.Template.Walk
import LabelTemplate.Text.Blank
import LabelTemplate.Text.ControlSequence
import LabelTemplate.Text.Letter
import LabelTemplate.Text.Order
import LabelTemplate.Text.Pieces
import LabelTemplate.Text.Quoted
import LabelTemplate.Time.Civil
import LabelTemplate.Time.Fault
import LabelTemplate.Time.Fields
import LabelTemplate.Time.LabelTime
import LabelTemplate.Time.Pattern
import LabelTemplate.Time.Reader
import LabelTemplate.Time.Timestamp
import LabelTemplate.Time.Writer
import LabelTemplate.XPath.Axes
import LabelTemplate.XPath.Eval
import LabelTemplate.XPath.Expr
import LabelTemplate.XPath.Functions
import LabelTemplate.XPath.Grammar
import LabelTemplate.XPath.Token
import LabelTemplate.XPath.Value
import LabelTemplate.Xml.Document
import LabelTemplate.Xml.ElementPath
import LabelTemplate.Xml.Fault
import LabelTemplate.Xml.Markup
import LabelTemplate.Xml.Name
import LabelTemplate.Xml.Position
import LabelTemplate.Xml.Reader
import LabelTemplate.Xml.Reference
import LabelTemplate.Xml.StartTag
import LabelTemplate.Xml.Writer
import LabelTemplate.Proofs.Arena.Forest
import LabelTemplate.Proofs.Arena.Clone
import LabelTemplate.Proofs.Arena.Operations
import LabelTemplate.Proofs.Arena.Outline
import LabelTemplate.Proofs.Reading.Frames
import LabelTemplate.Proofs.Outcome
import LabelTemplate.Proofs.Reading.Tags
import LabelTemplate.Proofs.Reading.Cutting
import LabelTemplate.Proofs.Reading.Run
import LabelTemplate.Proofs.Walk.Copies
import LabelTemplate.Proofs.Walk.Invariant
import LabelTemplate.Proofs.Walk.Loading
import LabelTemplate.Proofs.Walk.Build
import LabelTemplate.Proofs.Export.Structure
import LabelTemplate.Proofs.Export.Shape
import LabelTemplate.Proofs.Writing.Escape
import LabelTemplate.Proofs.Writing.Names
import LabelTemplate.Proofs.Writing.Tags
import LabelTemplate.Proofs.Writing.Pieces
import LabelTemplate.Proofs.Writing.Tree
import LabelTemplate.Proofs.Arena.Bare
import LabelTemplate.Proofs.Writing.Rereading
import LabelTemplate.Proofs.Writing.ReadBack
import LabelTemplate.Proofs.Arena.Preorder
import LabelTemplate.Proofs.Arena.Order
import LabelTemplate.Proofs.Writing.Prefixes
import LabelTemplate.Proofs.Writing.RoundTrip
import LabelTemplate.Proofs.Writing.Meaning
import LabelTemplate.Proofs.Export.Label
import LabelTemplate.Proofs.Walk.Agreement
import LabelTemplate.Proofs.Walk.Walked
import LabelTemplate.Proofs.Walk.Total
import LabelTemplate.Proofs.Arena.Edits
import LabelTemplate.Proofs.Walk.Weight
import LabelTemplate.Proofs.Walk.Enough
import LabelTemplate.Proofs.Export.Resolved
import LabelTemplate.Proofs.Export.Pruning
import LabelTemplate.Proofs.Walk.Abreast
import LabelTemplate.Proofs.Walk.Members
import LabelTemplate.Proofs.XPath.Attached
import LabelTemplate.Proofs.XPath.Order
import LabelTemplate.Proofs.XPath.Derivation
import LabelTemplate.Proofs.XPath.Derived
import LabelTemplate.Proofs.XPath.NodeSets
import LabelTemplate.Proofs.Walk.Calls
import LabelTemplate.Proofs.Walk.Fetching
import LabelTemplate.Proofs.Walk.Repetition
import LabelTemplate.Proofs.Files.Places
import LabelTemplate.Proofs.Export.Directory
import LabelTemplate.Proofs.XPath.Renaming
import LabelTemplate.Proofs.XPath.Rekeyed
import LabelTemplate.Proofs.XPath.Extensions
import LabelTemplate.Proofs.Walk.Rekeying
import LabelTemplate.Proofs.Walk.Renumbered
import LabelTemplate.Proofs.Export.SourceOrder
import LabelTemplate.Proofs.Export.Comments
import LabelTemplate.Proofs.Export.Postponed
import LabelTemplate.Proofs.Walk.Standing
import LabelTemplate.Proofs.XPath.Unprefixed
import LabelTemplate.Proofs.Walk.Counts
import LabelTemplate.Proofs.Walk.Counterparts
import LabelTemplate.Proofs.Walk.OpenCounts
import LabelTemplate.Proofs.Walk.Requiring
import LabelTemplate.Proofs.Export.Required
import LabelTemplate.Proofs.Walk.Inheritance
import LabelTemplate.Proofs.Walk.Replication
import LabelTemplate.Proofs.XPath.Failures
import LabelTemplate.Proofs.Walk.Refusals
import LabelTemplate.Proofs.Walk.Stubs
import LabelTemplate.Proofs.Walk.StubOrigins
import LabelTemplate.Proofs.Arena.Ranks
import LabelTemplate.Proofs.Arena.Found
import LabelTemplate.Proofs.Arena.FreshIds
import LabelTemplate.Proofs.Arena.Moves
import LabelTemplate.Proofs.XPath.Kinship
import LabelTemplate.Proofs.XPath.Proximity
import LabelTemplate.Proofs.XPath.Composition
import LabelTemplate.Proofs.XPath.Abbreviation
import LabelTemplate.Proofs.XPath.Comparisons
import LabelTemplate.Proofs.XPath.StringValues
import LabelTemplate.Proofs.Reading.Content
import LabelTemplate.Proofs.Reading.Numbering
import LabelTemplate.Proofs.Text.Tokens
import LabelTemplate.Proofs.Walk.Filling
import LabelTemplate.Proofs.Walk.Sources
import LabelTemplate.Proofs.Reading.InScope
import LabelTemplate.Proofs.Writing.Cleanup
import LabelTemplate.Proofs.Walk.Conforming
import LabelTemplate.Proofs.Text.Keys
import LabelTemplate.Proofs.Command.Merging
import LabelTemplate.Proofs.Time.Specifiers
import LabelTemplate.Proofs.Time.Fractions
import LabelTemplate.Proofs.Number.Parts
import LabelTemplate.Proofs.Number.Rounding
import LabelTemplate.Proofs.Number.Integers
import LabelTemplate.Proofs.Time.Instants
import LabelTemplate.Proofs.Time.Shifts
import LabelTemplate.Proofs.Reading.Positions
import LabelTemplate.Proofs.Export.Queues
import LabelTemplate.Proofs.XPath.Spacing
import LabelTemplate.Proofs.Number.Words
import LabelTemplate.Proofs.Walk.WholeNumbers
