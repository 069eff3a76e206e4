import MessageCatalog.Compile.Block
import MessageCatalog.Excerpt
import MessageCatalog.Proofs.Code.Tracking
import MessageCatalog.Proofs.Compile.Dynamic
import MessageCatalog.Proofs.Compile.Observer
import MessageCatalog.Proofs.Compile.Recompile
import MessageCatalog.Proofs.Compile.Refilter
import MessageCatalog.Proofs.Compile.Renamed
import MessageCatalog.Proofs.Compile.SourceMap
import MessageCatalog.Proofs.Emission.ColumnTable
import MessageCatalog.Proofs.Emission.Content
import MessageCatalog.Proofs.Emission.Decodable
import MessageCatalog.Proofs.Emission.Deferred
import MessageCatalog.Proofs.Emission.ItemSegments
import MessageCatalog.Proofs.Emission.Layout
import MessageCatalog.Proofs.Emission.Leaves
import MessageCatalog.Proofs.Emission.Lenient
import MessageCatalog.Proofs.Emission.LiteralColumns
import MessageCatalog.Proofs.Emission.Mapped
import MessageCatalog.Proofs.Emission.Print
import MessageCatalog.Proofs.Emission.Rebase
import MessageCatalog.Proofs.Emission.Shared
import MessageCatalog.Proofs.Emission.Structural
import MessageCatalog.Proofs.Emission.Unmapped
import MessageCatalog.Proofs.Emission.Verdict
import MessageCatalog.Proofs.Json.Compact
import MessageCatalog.Proofs.Json.Number
import MessageCatalog.Proofs.Json.Quoted
import MessageCatalog.Proofs.Message.Faults
import MessageCatalog.Proofs.Message.HelperNames
import MessageCatalog.Proofs.Message.Inverse
import MessageCatalog.Proofs.Message.Markup
import MessageCatalog.Proofs.Message.Offsets
import MessageCatalog.Proofs.Message.Places
import MessageCatalog.Proofs.Message.ReadBack
import MessageCatalog.Proofs.Message.Render
import MessageCatalog.Proofs.Message.Sound
import MessageCatalog.Proofs.Message.Tiling
import MessageCatalog.Proofs.Registration
import MessageCatalog.Proofs.Resource.Faults
import MessageCatalog.Proofs.Resource.Lossless
import MessageCatalog.Proofs.Resource.Places
import MessageCatalog.Proofs.Resource.Walk
import MessageCatalog.Proofs.Script.ReadBack
import MessageCatalog.Proofs.Script.ReadComplete
import MessageCatalog.Proofs.Script.RoundTrip
import MessageCatalog.Proofs.Script.SelfContained
import MessageCatalog.Proofs.Script.Tail
import MessageCatalog.Proofs.SourceMap.Builder
import MessageCatalog.Proofs.SourceMap.Grammar
import MessageCatalog.Proofs.SourceMap.Mappings
import MessageCatalog.Proofs.SourceMap.Merge
import MessageCatalog.Proofs.SourceMap.Recording
import MessageCatalog.Proofs.Text.Boundary
import MessageCatalog.Proofs.Yaml.Composition
import MessageCatalog.Proofs.Yaml.Plain
import MessageCatalog.Proofs.Yaml.ScalarPlace
