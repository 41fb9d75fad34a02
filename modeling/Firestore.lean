import Firestore.AutoId
import Firestore.Base64
import Firestore.Error
import Firestore.Fields
import Firestore.GeoPoint
import Firestore.Json
import Firestore.Json.Literal
import Firestore.Json.Numeral
import Firestore.Json.Reader
import Firestore.Json.Written
import Firestore.Marker
import Firestore.Native
import Firestore.Native.Calls
import Firestore.Native.Encoding
import Firestore.Native.Node
import Firestore.Number.Floating
import Firestore.Number.IntType
import Firestore.Number.Numeral
import Firestore.Number.Rounding
import Firestore.Number.Shortest
import Firestore.Path.Database
import Firestore.Path.Field
import Firestore.Path.Resource
import Firestore.Proofs.Base64
import Firestore.Proofs.Base64.Lenient
import Firestore.Proofs.Fields
import Firestore.Proofs.Native.Calls
import Firestore.Proofs.Native.Closure
import Firestore.Proofs.Native.Refusal
import Firestore.Proofs.Native.Stored
import Firestore.Proofs.Native.Unmarked
import Firestore.Proofs.Number.Decimal
import Firestore.Proofs.Path.Field
import Firestore.Proofs.Path.Navigation
import Firestore.Proofs.Path.Normal
import Firestore.Proofs.Path.Quoted
import Firestore.Proofs.Path.Reachable
import Firestore.Proofs.Path.Resource
import Firestore.Proofs.Path.ResourceName
import Firestore.Proofs.Query.DocumentId
import Firestore.Proofs.Query.Growth
import Firestore.Proofs.Query.Meaning
import Firestore.Proofs.Query.WellFormed
import Firestore.Proofs.Rest.Culprit
import Firestore.Proofs.Rest.Document
import Firestore.Proofs.Rest.Notation
import Firestore.Proofs.Rest.Query
import Firestore.Proofs.Rest.Refusal
import Firestore.Proofs.Rest.RoundTrip
import Firestore.Proofs.Rest.Write
import Firestore.Proofs.Shape.Failures
import Firestore.Proofs.Shape.Gathered
import Firestore.Proofs.Shape.Keys
import Firestore.Proofs.Shape.Readers
import Firestore.Proofs.Shape.RoundTrip
import Firestore.Proofs.Shape.Trail
import Firestore.Proofs.Shape.Unknown
import Firestore.Proofs.Source.AnyValue
import Firestore.Proofs.Source.Buffered
import Firestore.Proofs.Source.Cursor
import Firestore.Proofs.Steps
import Firestore.Proofs.Text.Separated
import Firestore.Proofs.Time.Calendar
import Firestore.Proofs.Time.Clock
import Firestore.Proofs.Time.Instant
import Firestore.Proofs.Time.Moment
import Firestore.Proofs.Time.Rfc3339
import Firestore.Proofs.Value.Leaves
import Firestore.Proofs.Value.Lens
import Firestore.Proofs.Value.Normal
import Firestore.Proofs.Value.Place
import Firestore.Proofs.Value.PlainPart
import Firestore.Proofs.Value.Reading
import Firestore.Proofs.Value.Transforms
import Firestore.Proofs.Write.Acceptance
import Firestore.Proofs.Write.Batch
import Firestore.Proofs.Write.Extraction
import Firestore.Proofs.Write.Failures
import Firestore.Proofs.Write.Merge
import Firestore.Proofs.Write.MergeFields
import Firestore.Proofs.Write.Options
import Firestore.Proofs.Write.Overlap
import Firestore.Proofs.Write.Update
import Firestore.Query
import Firestore.Query.Meaning
import Firestore.Query.Predicate
import Firestore.Query.Structured
import Firestore.Reference
import Firestore.Rest.Culprit
import Firestore.Rest.Document
import Firestore.Rest.Position
import Firestore.Rest.Query
import Firestore.Rest.Value
import Firestore.Rest.Write
import Firestore.Shape
import Firestore.Shape.Part
import Firestore.Shape.Reading
import Firestore.Shape.Record
import Firestore.Shape.Typing
import Firestore.Shape.Writing
import Firestore.Snapshot
import Firestore.Source
import Firestore.Source.Answer
import Firestore.Source.Cursor
import Firestore.Source.Leaf
import Firestore.Source.Scalar
import Firestore.Text.Bytes
import Firestore.Text.Quoted
import Firestore.Time.Calendar
import Firestore.Time.Checked
import Firestore.Time.Clock
import Firestore.Time.Rfc3339
import Firestore.Time.Timestamp
import Firestore.Transform
import Firestore.Value
import Firestore.Value.Equality
import Firestore.Value.Everywhere
import Firestore.Value.Leaves
import Firestore.Value.Place
import Firestore.Value.Plain
import Firestore.Write.Batch
import Firestore.Write.Data
import Firestore.Write.Extraction
