import ManifestSync.Command.Arguments
import ManifestSync.Command.Execute
import ManifestSync.Command.Output
import ManifestSync.Command.Table
import ManifestSync.Decimal.Binary64
import ManifestSync.Decimal.Text
import ManifestSync.Files.Cause
import ManifestSync.Files.Disk
import ManifestSync.Files.Path
import ManifestSync.Files.Snapshot
import ManifestSync.Files.Sources
import ManifestSync.Files.Tree
import ManifestSync.Json.Value
import ManifestSync.Main
import ManifestSync.Manifest.Document
import ManifestSync.Manifest.Entry
import ManifestSync.Manifest.Extra
import ManifestSync.Manifest.Key
import ManifestSync.Manifest.Metadata
import ManifestSync.Manifest.Record
import ManifestSync.Pattern.Basic
import ManifestSync.Pattern.Search
import ManifestSync.Proofs.Command.Gate
import ManifestSync.Proofs.Files.Growth
import ManifestSync.Proofs.Files.Listing
import ManifestSync.Proofs.Files.Path
import ManifestSync.Proofs.Files.Resolve
import ManifestSync.Proofs.Files.Tree
import ManifestSync.Proofs.Files.Unlinked
import ManifestSync.Proofs.Files.Walk
import ManifestSync.Proofs.Files.Write
import ManifestSync.Proofs.Manifest.OtherKeys
import ManifestSync.Proofs.Manifest.Record
import ManifestSync.Proofs.Pattern.Language
import ManifestSync.Proofs.Pattern.Position
import ManifestSync.Proofs.Pattern.Preferred
import ManifestSync.Proofs.Pattern.Rewrite
import ManifestSync.Proofs.Pattern.Search
import ManifestSync.Proofs.Scan.Annotation
import ManifestSync.Proofs.Scan.Assertion
import ManifestSync.Proofs.Scan.Attribution
import ManifestSync.Proofs.Scan.Cleaning
import ManifestSync.Proofs.Scan.Declaration
import ManifestSync.Proofs.Scan.DisplayTitle
import ManifestSync.Proofs.Scan.DocComment
import ManifestSync.Proofs.Scan.DocCursor
import ManifestSync.Proofs.Scan.DocSearch
import ManifestSync.Proofs.Scan.Extraction
import ManifestSync.Proofs.Scan.Hiding
import ManifestSync.Proofs.Scan.Identifier
import ManifestSync.Proofs.Scan.MemberAccess
import ManifestSync.Proofs.Scan.Normalised
import ManifestSync.Proofs.Scan.Sections
import ManifestSync.Proofs.Scan.Slices
import ManifestSync.Proofs.Scan.TagOption
import ManifestSync.Proofs.Scan.Tidy
import ManifestSync.Proofs.Scan.Title
import ManifestSync.Proofs.Scan.Window
import ManifestSync.Proofs.Source.Bounds
import ManifestSync.Proofs.Source.Brackets
import ManifestSync.Proofs.Source.Depth
import ManifestSync.Proofs.Source.Extent
import ManifestSync.Proofs.Source.Literal
import ManifestSync.Proofs.Source.LiteralScan
import ManifestSync.Proofs.Source.RegionMap
import ManifestSync.Proofs.Source.Resumption
import ManifestSync.Proofs.Source.Segment
import ManifestSync.Proofs.Source.State
import ManifestSync.Proofs.Source.Statement
import ManifestSync.Proofs.Steps
import ManifestSync.Proofs.Sync.Alignment
import ManifestSync.Proofs.Sync.Balance
import ManifestSync.Proofs.Sync.Commit
import ManifestSync.Proofs.Sync.Difference
import ManifestSync.Proofs.Sync.Enumeration
import ManifestSync.Proofs.Sync.Exactness
import ManifestSync.Proofs.Sync.Fixpoint
import ManifestSync.Proofs.Sync.History
import ManifestSync.Proofs.Sync.Idempotence
import ManifestSync.Proofs.Sync.Indexing
import ManifestSync.Proofs.Sync.LinkFree
import ManifestSync.Proofs.Sync.Persistence
import ManifestSync.Proofs.Sync.Prefix
import ManifestSync.Proofs.Sync.Scanning
import ManifestSync.Proofs.Sync.TagSets
import ManifestSync.Proofs.Sync.Untouched
import ManifestSync.Proofs.Text.Blank
import ManifestSync.Proofs.Text.Boundary
import ManifestSync.Proofs.Text.Bytes
import ManifestSync.Proofs.Text.Decoding
import ManifestSync.Proofs.Text.Order
import ManifestSync.Proofs.Text.Trimmed
import ManifestSync.Proofs.Text.Word
import ManifestSync.Proofs.Text.Words
import ManifestSync.Proofs.Yaml.Equality
import ManifestSync.Scan.Annotation
import ManifestSync.Scan.Assertion
import ManifestSync.Scan.Declaration
import ManifestSync.Scan.DocComment
import ManifestSync.Scan.Extraction
import ManifestSync.Scan.Identifier
import ManifestSync.Scan.Tags
import ManifestSync.Source.Bounds
import ManifestSync.Source.Region
import ManifestSync.Source.RegionMap
import ManifestSync.Source.Walk
import ManifestSync.Sync.Config
import ManifestSync.Sync.Failure
import ManifestSync.Sync.Instant
import ManifestSync.Sync.Reconcile
import ManifestSync.Sync.Run
import ManifestSync.Sync.Statistics
import ManifestSync.Text.Blank
import ManifestSync.Text.Printable
import ManifestSync.Text.Ranges
import ManifestSync.Text.Utf8
import ManifestSync.Text.Width
import ManifestSync.Text.Word
import ManifestSync.Toml.Document
import ManifestSync.Toml.Number
import ManifestSync.Toml.Section
import ManifestSync.Toml.Text
import ManifestSync.Toml.Value
import ManifestSync.Yaml.Document
import ManifestSync.Yaml.Node
import ManifestSync.Yaml.Quoting
import ManifestSync.Yaml.Render
import ManifestSync.Yaml.Scalar
import ManifestSync.Yaml.Spot
import ManifestSync.Yaml.Token
import ManifestSync.Yaml.Value
