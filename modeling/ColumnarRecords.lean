import ColumnarRecords.Text.Blank
import ColumnarRecords.Text.Quoted
import ColumnarRecords.Text.Numeral
import ColumnarRecords.Text.Utf8
import ColumnarRecords.Wire.Scalar
import ColumnarRecords.Wire.Unknown
import ColumnarRecords.Wire.Layout
import ColumnarRecords.Descriptor.Declaration
import ColumnarRecords.Message.Value
import ColumnarRecords.Descriptor.Basic
import ColumnarRecords.Floating.Format
import ColumnarRecords.Floating.Nearest
import ColumnarRecords.Floating.Shortest
import ColumnarRecords.Floating.Layout
import ColumnarRecords.Floating.Numeral
import ColumnarRecords.Descriptor.Fault
import ColumnarRecords.Descriptor.Naming
import ColumnarRecords.Descriptor.Default
import ColumnarRecords.Descriptor.Reference
import ColumnarRecords.Descriptor.Resolution
import ColumnarRecords.Descriptor.OptionTypes
import ColumnarRecords.Descriptor.Options
import ColumnarRecords.Descriptor.Pool
import ColumnarRecords.Message.Merge
import ColumnarRecords.Message.Encode
import ColumnarRecords.Column.Fault
import ColumnarRecords.Column.Value
import ColumnarRecords.Column.Field
import ColumnarRecords.Column.Shred
import ColumnarRecords.Metadata.Basic
import ColumnarRecords.Metadata.Token
import ColumnarRecords.Metadata.Text
import ColumnarRecords.Metadata.Stored
import ColumnarRecords.Error
import ColumnarRecords.Schema
import ColumnarRecords.Projection.Selection
import ColumnarRecords.Projection.Plan
import ColumnarRecords.Record
import ColumnarRecords.Projection.Materialize
import ColumnarRecords.Source.Basic
import ColumnarRecords.Source.Memory
import ColumnarRecords.Source.File
import ColumnarRecords.Reader
import ColumnarRecords.Text.Base64
import ColumnarRecords.Time.Timestamp
import ColumnarRecords.Json.Text
import ColumnarRecords.Json.Special
import ColumnarRecords.Json.Message
import ColumnarRecords.Settings.Setting
import ColumnarRecords.Settings.Path
import ColumnarRecords.Settings.Environment
import ColumnarRecords.Text.Name
import ColumnarRecords.Toml.Token
import ColumnarRecords.Toml.Moment
import ColumnarRecords.Toml.Scalar
import ColumnarRecords.Toml.Tree
import ColumnarRecords.Toml.Document
import ColumnarRecords.Report
import ColumnarRecords.Disk
import ColumnarRecords.Settings.Basic
import ColumnarRecords.Settings.Load
import ColumnarRecords.CommandLine.Arguments
import ColumnarRecords.CommandLine.Run
import ColumnarRecords.Main
import ColumnarRecords.Proofs.Wire.Local
import ColumnarRecords.Proofs.Wire.Limit
import ColumnarRecords.Proofs.Wire.RoundTrip
import ColumnarRecords.Proofs.Message.Assign
import ColumnarRecords.Proofs.Message.Merge
import ColumnarRecords.Proofs.Message.Entry
import ColumnarRecords.Proofs.Descriptor.Sound
import ColumnarRecords.Proofs.Descriptor.Loading
import ColumnarRecords.Proofs.Column.Values
import ColumnarRecords.Proofs.Projection.Exact
import ColumnarRecords.Proofs.Projection.Retagged
import ColumnarRecords.Proofs.Source.Prepared
import ColumnarRecords.Proofs.Reader.Draining
import ColumnarRecords.Proofs.Text.Utf8
import ColumnarRecords.Proofs.Message.Run
import ColumnarRecords.Proofs.Message.Typed
import ColumnarRecords.Proofs.Message.Trim
import ColumnarRecords.Proofs.Message.Plain
import ColumnarRecords.Proofs.Message.Order
import ColumnarRecords.Proofs.Message.Written
import ColumnarRecords.Proofs.Message.RoundTrip
import ColumnarRecords.Proofs.Column.RoundTrip
import ColumnarRecords.Proofs.Projection.Shredded
import ColumnarRecords.Proofs.Reader.RoundTrip
import ColumnarRecords.Proofs.Source.Exchange
import ColumnarRecords.Proofs.Source.Interchange
import ColumnarRecords.Proofs.Reader.Lifecycle
import ColumnarRecords.Proofs.Descriptor.FieldOrder
import ColumnarRecords.Proofs.Metadata.Binary
import ColumnarRecords.Proofs.Metadata.Tokens
import ColumnarRecords.Proofs.Metadata.Reading
import ColumnarRecords.Proofs.Metadata.Forms
import ColumnarRecords.Proofs.Source.Delivery
import ColumnarRecords.Proofs.Source.Split
import ColumnarRecords.Proofs.Reader.Iteration
import ColumnarRecords.Proofs.Reader.Laziness
import ColumnarRecords.Proofs.Wire.Uniform
import ColumnarRecords.Proofs.Message.Edit
import ColumnarRecords.Proofs.Projection.Columnwise
import ColumnarRecords.Proofs.Projection.Widening
import ColumnarRecords.Proofs.Projection.Rearranged
import ColumnarRecords.Proofs.Reader.Opening
import ColumnarRecords.Proofs.Text.Numeral
import ColumnarRecords.Proofs.Settings.Layering
import ColumnarRecords.Proofs.Settings.Directive
import ColumnarRecords.Proofs.CommandLine.Required
import ColumnarRecords.Proofs.Projection.Failure
import ColumnarRecords.Proofs.Column.Separation
import ColumnarRecords.Proofs.Column.Concatenation
import ColumnarRecords.Proofs.Descriptor.Extension
import ColumnarRecords.Proofs.Column.Frame
import ColumnarRecords.Proofs.Json.Line
import ColumnarRecords.Proofs.CommandLine.Output
import ColumnarRecords.Proofs.Wire.Grammar
import ColumnarRecords.Proofs.Message.Depth
import ColumnarRecords.Proofs.Column.Grammar
import ColumnarRecords.Proofs.Projection.Presence
import ColumnarRecords.Proofs.Projection.Group
import ColumnarRecords.Proofs.Message.Occurrence
import ColumnarRecords.Proofs.Message.Overlay
import ColumnarRecords.Proofs.Projection.Overlay
import ColumnarRecords.Proofs.Text.Spelling
import ColumnarRecords.Proofs.Projection.Directive
import ColumnarRecords.Proofs.Projection.Numbers
import ColumnarRecords.Proofs.Text.Escape
import ColumnarRecords.Proofs.Metadata.Written
import ColumnarRecords.Proofs.Settings.Check
import ColumnarRecords.Proofs.Projection.Minimal
import ColumnarRecords.Proofs.Projection.Listed
import ColumnarRecords.Proofs.Reader.Stability
import ColumnarRecords.Proofs.Column.Progress
import ColumnarRecords.Proofs.Source.Selecting
import ColumnarRecords.Proofs.Toml.Distinct
import ColumnarRecords.Proofs.Settings.Layers
