import Marginalia.CommandLine
import Marginalia.Config.Basic
import Marginalia.Config.Load
import Marginalia.Debounce
import Marginalia.Decimal.Binary64
import Marginalia.Decimal.Shortest
import Marginalia.Decoration
import Marginalia.Disk.Changes
import Marginalia.Disk.Content
import Marginalia.Disk.Links
import Marginalia.Disk.Path
import Marginalia.Disk.Tree
import Marginalia.Disk.Walk
import Marginalia.Document
import Marginalia.Excess
import Marginalia.Fragment.Excerpt
import Marginalia.Fragment.Header
import Marginalia.Fragment.Page
import Marginalia.Fragment.Refs
import Marginalia.Json.Reader
import Marginalia.Main
import Marginalia.Marker.Basic
import Marginalia.Marker.Migration
import Marginalia.Marker.Token
import Marginalia.Report
import Marginalia.Session.Basic
import Marginalia.Session.Binding
import Marginalia.Session.Counts
import Marginalia.Session.Ids
import Marginalia.Session.Lookup
import Marginalia.Session.Migration
import Marginalia.Session.Records
import Marginalia.Session.References
import Marginalia.Session.Unencodable
import Marginalia.SetName
import Marginalia.Summary.Basic
import Marginalia.Summary.File
import Marginalia.Summary.Markdown
import Marginalia.Summary.Toml
import Marginalia.Text.Basic
import Marginalia.Text.Blank
import Marginalia.Text.Lines
import Marginalia.Text.Numeral
import Marginalia.Text.Passed
import Marginalia.Text.Quoted
import Marginalia.Text.Utf8
import Marginalia.Text.Word
import Marginalia.Time.Stamp
import Marginalia.Toml.Nest
import Marginalia.Toml.Reader
import Marginalia.Toml.Scalar
import Marginalia.Toml.Value
import Marginalia.Proofs.Disk.Lookup
import Marginalia.Proofs.Disk.Resolve
import Marginalia.Proofs.Disk.Folders
import Marginalia.Proofs.Numerals
import Marginalia.Proofs.Session.Allocation
import Marginalia.Proofs.Session.Records
import Marginalia.Proofs.Session.Sequence
import Marginalia.Proofs.Document
import Marginalia.Proofs.Fragment.Recovery
import Marginalia.Proofs.Marker.Agreement
import Marginalia.Proofs.Session.Decorations
import Marginalia.Proofs.Session.Resilience
import Marginalia.Proofs.Session.Usable
import Marginalia.Proofs.Marker.Canonical
import Marginalia.Proofs.Session.Activation
import Marginalia.Proofs.Session.Counts
import Marginalia.Proofs.Session.History
import Marginalia.Proofs.Fragment.RoundTrip
import Marginalia.Proofs.Marker.Migration
import Marginalia.Proofs.Session.Reads
import Marginalia.Proofs.Session.Reconciliation
import Marginalia.Proofs.Marker.Grammar
import Marginalia.Proofs.Session.Migration
import Marginalia.Proofs.Session.Tidy
import Marginalia.Proofs.Session.Permanence
import Marginalia.Proofs.Marker.Site
import Marginalia.Proofs.Session.Rebinding
import Marginalia.Proofs.Session.LineBinding
import Marginalia.Proofs.CommandLine.Runs
import Marginalia.Proofs.CommandLine.New
import Marginalia.Proofs.Session.Listing
import Marginalia.Proofs.Toml.Values
import Marginalia.Proofs.Toml.Documents
import Marginalia.Proofs.Summary.Toml
import Marginalia.Proofs.Session.Export
import Marginalia.Proofs.Session.Sets
import Marginalia.Proofs.Session.Switching
import Marginalia.Proofs.Session.FreshRecords
import Marginalia.Proofs.Session.Delivery
import Marginalia.Proofs.Session.Availability
import Marginalia.Proofs.Session.Search
import Marginalia.Proofs.Marker.Behind
import Marginalia.Proofs.Fragment.Rewriting
import Marginalia.Proofs.Session.Observations
import Marginalia.Proofs.Config
import Marginalia.Proofs.Session.Previews
import Marginalia.Proofs.Summary.Markdown
import Marginalia.Proofs.Session.Draws
