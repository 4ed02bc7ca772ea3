import BlockModel.Binary64.Basic
import BlockModel.Binary64.Shortest
import BlockModel.Condition.Basic
import BlockModel.Condition.Display
import BlockModel.Condition.Json
import BlockModel.Definition.Basic
import BlockModel.Definition.Json
import BlockModel.Documents
import BlockModel.Failure
import BlockModel.Fault
import BlockModel.Json.Basic
import BlockModel.Json.Decode
import BlockModel.Multipart.Basic
import BlockModel.Multipart.Json
import BlockModel.Proofs.Binary64.Rounding
import BlockModel.Proofs.Condition.Canonical
import BlockModel.Proofs.Condition.Denotation
import BlockModel.Proofs.Condition.Display
import BlockModel.Proofs.Condition.Evaluation
import BlockModel.Proofs.Condition.Judgement
import BlockModel.Proofs.Condition.Key
import BlockModel.Proofs.Condition.KeyText
import BlockModel.Proofs.Condition.Names
import BlockModel.Proofs.Condition.Order
import BlockModel.Proofs.Condition.Parsed
import BlockModel.Proofs.Condition.Reading
import BlockModel.Proofs.Condition.RoundTrip
import BlockModel.Proofs.Definition.Bags
import BlockModel.Proofs.Definition.Columns
import BlockModel.Proofs.Definition.Embedding
import BlockModel.Proofs.Definition.Interpretation
import BlockModel.Proofs.Definition.Parsed
import BlockModel.Proofs.Definition.Positions
import BlockModel.Proofs.Definition.Readers
import BlockModel.Proofs.Definition.Reading
import BlockModel.Proofs.Fault
import BlockModel.Proofs.Json.Canonical
import BlockModel.Proofs.Json.Decode
import BlockModel.Proofs.Json.Form
import BlockModel.Proofs.Json.Outline
import BlockModel.Proofs.Json.Spelling
import BlockModel.Proofs.Json.Writing
import BlockModel.Proofs.Multipart.Blame
import BlockModel.Proofs.Multipart.Canonical
import BlockModel.Proofs.Multipart.Classification
import BlockModel.Proofs.Multipart.Columns
import BlockModel.Proofs.Multipart.Denotation
import BlockModel.Proofs.Multipart.Depth
import BlockModel.Proofs.Multipart.Extension
import BlockModel.Proofs.Multipart.Formed
import BlockModel.Proofs.Multipart.Judgement
import BlockModel.Proofs.Multipart.Limits
import BlockModel.Proofs.Multipart.Order
import BlockModel.Proofs.Multipart.Parsed
import BlockModel.Proofs.Multipart.Payload
import BlockModel.Proofs.Multipart.Readers
import BlockModel.Proofs.Multipart.Reading
import BlockModel.Proofs.Multipart.Regular
import BlockModel.Proofs.Multipart.Reports
import BlockModel.Proofs.Multipart.RoundTrip
import BlockModel.Proofs.Multipart.Sources
import BlockModel.Proofs.Multipart.Truncation
import BlockModel.Proofs.Multipart.Within
import BlockModel.Proofs.Payload
import BlockModel.Proofs.Position
import BlockModel.Proofs.Properties
import BlockModel.Proofs.Scan.Advances
import BlockModel.Proofs.Scan.Columns
import BlockModel.Proofs.Scan.Comes
import BlockModel.Proofs.Scan.Container
import BlockModel.Proofs.Scan.Cut
import BlockModel.Proofs.Scan.CutValue
import BlockModel.Proofs.Scan.Failing
import BlockModel.Proofs.Scan.Fits
import BlockModel.Proofs.Scan.Formed
import BlockModel.Proofs.Scan.Fronts
import BlockModel.Proofs.Scan.Gives
import BlockModel.Proofs.Scan.Judges
import BlockModel.Proofs.Scan.LeafColumns
import BlockModel.Proofs.Scan.Lockstep
import BlockModel.Proofs.Scan.Number
import BlockModel.Proofs.Scan.Numeral
import BlockModel.Proofs.Scan.Places
import BlockModel.Proofs.Scan.Prefix
import BlockModel.Proofs.Scan.Progress
import BlockModel.Proofs.Scan.Quoted
import BlockModel.Proofs.Scan.Raised
import BlockModel.Proofs.Scan.Reads
import BlockModel.Proofs.Scan.Refused
import BlockModel.Proofs.Scan.Regular
import BlockModel.Proofs.Scan.Scalar
import BlockModel.Proofs.Scan.Skip
import BlockModel.Proofs.Scan.Skipped
import BlockModel.Proofs.Scan.Spelled
import BlockModel.Proofs.Scan.Supplies
import BlockModel.Proofs.Scan.Taken
import BlockModel.Proofs.Scan.Takes
import BlockModel.Proofs.Scan.Token
import BlockModel.Proofs.Scan.Tree
import BlockModel.Proofs.Scan.Typed
import BlockModel.Proofs.Scan.WholeNumber
import BlockModel.Proofs.Scan.Within
import BlockModel.Proofs.Scan.Yields
import BlockModel.Proofs.Session
import BlockModel.Proofs.Text.Utf8
import BlockModel.Proofs.Variant.Canonical
import BlockModel.Proofs.Variant.Distribution
import BlockModel.Proofs.Variant.Hash
import BlockModel.Proofs.Variant.Reading
import BlockModel.Proofs.Variant.RoundTrip
import BlockModel.Proofs.Variant.Rounded
import BlockModel.Proofs.Variant.Streaming
import BlockModel.Properties
import BlockModel.Scan.Basic
import BlockModel.Scan.Container
import BlockModel.Scan.Number
import BlockModel.Scan.Skip
import BlockModel.Scan.Token
import BlockModel.Scan.Tree
import BlockModel.Scan.Typed
import BlockModel.Session
import BlockModel.Text.Quoted
import BlockModel.Text.Split
import BlockModel.Text.Utf8
import BlockModel.Variant.Basic
import BlockModel.Variant.Json
import BlockModel.Variant.Selection
import BlockModel.VariantTable
