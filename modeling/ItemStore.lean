import ItemStore.Main
import ItemStore.Schema.Builder
import ItemStore.Proofs.Codec.Coercion
import ItemStore.Proofs.Json.Node
import ItemStore.Proofs.Key.Inference
import ItemStore.Proofs.Statement.Query
import ItemStore.Proofs.Traversal
import ItemStore.Proofs.Tagged.Node
import ItemStore.Proofs.Tagged.Json
import ItemStore.Proofs.Codec.Response
import ItemStore.Proofs.Codec.Attributes
import ItemStore.Proofs.Codec.Canonical
import ItemStore.Proofs.Binary64.Overflow
import ItemStore.Proofs.Number.Literal
import ItemStore.Proofs.Value.Node
import ItemStore.Proofs.Codec.ReadBack
import ItemStore.Proofs.Json.Reader
import ItemStore.Proofs.Statement.Shape
import ItemStore.Proofs.Value.Nesting
import ItemStore.Proofs.Filter.Grammar
import ItemStore.Proofs.Statement.Document
import ItemStore.Proofs.Binary64.Whole
import ItemStore.Proofs.Number.Travel
import ItemStore.Proofs.Codec.Travel
import ItemStore.Proofs.Codec.Pipeline
import ItemStore.Proofs.Codec.WellFormed
import ItemStore.Proofs.Key.Readable
import ItemStore.Proofs.Key.Undeclared
import ItemStore.Proofs.Codec.Encodable
import ItemStore.Proofs.Base64
import ItemStore.Proofs.Json.Reordering
import ItemStore.Proofs.Tagged.Format
import ItemStore.Proofs.Key.Building
import ItemStore.Proofs.Schema.Description
import ItemStore.Proofs.Statement.Condition
import ItemStore.Proofs.Filter.Spelling
import ItemStore.Proofs.Number.Equality
import ItemStore.Proofs.Value.Rendering
import ItemStore.Proofs.Filter.Limit
import ItemStore.Proofs.Codec.Reordering
import ItemStore.Proofs.Schema.Builder
import ItemStore.Proofs.Statement.Paging
import ItemStore.Proofs.Codec.Numeric
import ItemStore.Proofs.Key.Batch
import ItemStore.Proofs.Number.Grammar
import ItemStore.Proofs.Statement.Reserved
import ItemStore.Proofs.Identifier.Path
import ItemStore.Proofs.Number.Width
