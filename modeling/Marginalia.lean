import Marginalia.Text.Blank
import Marginalia.Text.Digit
import Marginalia.Text.Word
import Marginalia.Text.Lines
import Marginalia.Text.Offset
import Marginalia.Text.Utf8
import Marginalia.Finding.Map
import Marginalia.Style
import Marginalia.Wire.Feed
import Marginalia.Wire.Reader
import Marginalia.Document.Anchor
import Marginalia.SourceText
import Marginalia.Terminal
import Marginalia.Gutter.Shared
import Marginalia.Listing
import Marginalia.OpenDocument
import Marginalia.Settings.Environment
import Marginalia.Settings.Value
import Marginalia.Settings.Toml
import Marginalia.Analysis
import Marginalia.Settings
import Marginalia.CommandLine.Help
import Marginalia.Program
import Marginalia.Main
import Marginalia.Proofs.Wire.Agreement
import Marginalia.Proofs.Wire.Scan
import Marginalia.Proofs.Wire.RoundTrip
import Marginalia.Proofs.OpenDocument.Freshness
import Marginalia.Proofs.Gutter.History
import Marginalia.Proofs.Wire.Truncation
import Marginalia.Proofs.Wire.Resumption
import Marginalia.Proofs.SourceText.Anchor
import Marginalia.Proofs.Gutter.Sharing
import Marginalia.Proofs.SourceText.Edits
import Marginalia.Proofs.Listing.Body
import Marginalia.Proofs.Listing.Positions
import Marginalia.Proofs.Listing.Entries
import Marginalia.Proofs.Listing.Messages
import Marginalia.Proofs.SourceText.Partition
import Marginalia.Proofs.SourceText.Lookups
import Marginalia.Proofs.SourceText.Locality
import Marginalia.Proofs.Wire.Grammar
import Marginalia.Proofs.Wire.Separation
import Marginalia.Proofs.Text.Decoding
import Marginalia.Proofs.Wire.Characters
import Marginalia.Proofs.Gutter.Attaching
import Marginalia.Proofs.Gutter.Navigation
import Marginalia.Proofs.Gutter.Collecting
import Marginalia.Proofs.Terminal.Pieces
import Marginalia.Proofs.Settings.References
