import ConnectorCatalog.CommandLine
import ConnectorCatalog.Config
import ConnectorCatalog.Connector.Basic
import ConnectorCatalog.Connector.Extract
import ConnectorCatalog.Connector.QualifiedName
import ConnectorCatalog.Connector.Signature
import ConnectorCatalog.Connector.Wire
import ConnectorCatalog.Documentation
import ConnectorCatalog.Files.Path
import ConnectorCatalog.Files.Tree
import ConnectorCatalog.Json.Basic
import ConnectorCatalog.Json.Mismatch
import ConnectorCatalog.Json.Printer
import ConnectorCatalog.Json.Reader
import ConnectorCatalog.Json.Record
import ConnectorCatalog.Json.Shape
import ConnectorCatalog.Main
import ConnectorCatalog.Number.Binary64
import ConnectorCatalog.Number.Power
import ConnectorCatalog.Number.Range
import ConnectorCatalog.Offset.Bracket
import ConnectorCatalog.Offset.Counter
import ConnectorCatalog.Offset.Extract
import ConnectorCatalog.Offset.Leading
import ConnectorCatalog.Offset.Mask
import ConnectorCatalog.Offset.Signature
import ConnectorCatalog.Offset.Slice
import ConnectorCatalog.Project.Basic
import ConnectorCatalog.Project.Error
import ConnectorCatalog.Project.Load
import ConnectorCatalog.Project.Resolve
import ConnectorCatalog.Proofs.Ahead
import ConnectorCatalog.Proofs.Asked
import ConnectorCatalog.Proofs.Asking
import ConnectorCatalog.Proofs.Basic
import ConnectorCatalog.Proofs.Bracket
import ConnectorCatalog.Proofs.Bytes
import ConnectorCatalog.Proofs.ClientMethod
import ConnectorCatalog.Proofs.Comment
import ConnectorCatalog.Proofs.Composition
import ConnectorCatalog.Proofs.Concat
import ConnectorCatalog.Proofs.Connector.Wire
import ConnectorCatalog.Proofs.Cut
import ConnectorCatalog.Proofs.Display.Fields
import ConnectorCatalog.Proofs.Display.Written
import ConnectorCatalog.Proofs.Documentation
import ConnectorCatalog.Proofs.Files.Ancestors
import ConnectorCatalog.Proofs.Files.Apart
import ConnectorCatalog.Proofs.Files.Distinct
import ConnectorCatalog.Proofs.Files.Dotted
import ConnectorCatalog.Proofs.Files.Grown
import ConnectorCatalog.Proofs.Flat
import ConnectorCatalog.Proofs.Found
import ConnectorCatalog.Proofs.Header
import ConnectorCatalog.Proofs.Installed
import ConnectorCatalog.Proofs.Interior
import ConnectorCatalog.Proofs.Json.Canonical
import ConnectorCatalog.Proofs.Json.Members
import ConnectorCatalog.Proofs.Leading
import ConnectorCatalog.Proofs.Leading.Comment
import ConnectorCatalog.Proofs.Leading.Written
import ConnectorCatalog.Proofs.Listing
import ConnectorCatalog.Proofs.LocalLookup
import ConnectorCatalog.Proofs.Lookup
import ConnectorCatalog.Proofs.Mask
import ConnectorCatalog.Proofs.Members.Basic
import ConnectorCatalog.Proofs.Members.Reported
import ConnectorCatalog.Proofs.Metadata
import ConnectorCatalog.Proofs.Nested
import ConnectorCatalog.Proofs.Neutral
import ConnectorCatalog.Proofs.Offset.Bracket
import ConnectorCatalog.Proofs.Offset.Cells
import ConnectorCatalog.Proofs.Offset.Counter
import ConnectorCatalog.Proofs.Offset.Extract
import ConnectorCatalog.Proofs.Offset.Leading
import ConnectorCatalog.Proofs.Offset.Parameter
import ConnectorCatalog.Proofs.Offset.ReturnType
import ConnectorCatalog.Proofs.Options
import ConnectorCatalog.Proofs.Outline
import ConnectorCatalog.Proofs.Parameters.Annotated
import ConnectorCatalog.Proofs.Parameters.Basic
import ConnectorCatalog.Proofs.Parameters.Comment
import ConnectorCatalog.Proofs.Parameters.Default
import ConnectorCatalog.Proofs.Parameters.Written
import ConnectorCatalog.Proofs.Partner
import ConnectorCatalog.Proofs.Pieces
import ConnectorCatalog.Proofs.Project.Dotted
import ConnectorCatalog.Proofs.Project.Nearest
import ConnectorCatalog.Proofs.Project.Reordered
import ConnectorCatalog.Proofs.Project.Resolved
import ConnectorCatalog.Proofs.Project.Root
import ConnectorCatalog.Proofs.Project.Sources
import ConnectorCatalog.Proofs.ProxyUrl
import ConnectorCatalog.Proofs.Range
import ConnectorCatalog.Proofs.Reading
import ConnectorCatalog.Proofs.Remask
import ConnectorCatalog.Proofs.Resolve
import ConnectorCatalog.Proofs.ReturnType
import ConnectorCatalog.Proofs.Scan
import ConnectorCatalog.Proofs.Segment
import ConnectorCatalog.Proofs.Session.Answers
import ConnectorCatalog.Proofs.Session.Run
import ConnectorCatalog.Proofs.Shape
import ConnectorCatalog.Proofs.SortedNames
import ConnectorCatalog.Proofs.Spread
import ConnectorCatalog.Proofs.Toml.Entries
import ConnectorCatalog.Proofs.Toml.Key
import ConnectorCatalog.Proofs.Toml.KeyClash
import ConnectorCatalog.Proofs.Toml.KeyName
import ConnectorCatalog.Proofs.Toml.Layout
import ConnectorCatalog.Proofs.Toml.Literal
import ConnectorCatalog.Proofs.Toml.Lookup
import ConnectorCatalog.Proofs.Toml.Name
import ConnectorCatalog.Proofs.Toml.Sections
import ConnectorCatalog.Proofs.Toml.StringLiteral
import ConnectorCatalog.Proofs.Toml.StringPart
import ConnectorCatalog.Proofs.Toml.StringValue
import ConnectorCatalog.Proofs.Toml.Suffix
import ConnectorCatalog.Proofs.Toml.Written
import ConnectorCatalog.Proofs.TopRanges
import ConnectorCatalog.Proofs.Trim
import ConnectorCatalog.Proofs.Url.Authority
import ConnectorCatalog.Proofs.Url.Form
import ConnectorCatalog.Proofs.Url.HostName
import ConnectorCatalog.Proofs.Url.Parsed
import ConnectorCatalog.Proofs.Url.Path
import ConnectorCatalog.Proofs.Url.Percent
import ConnectorCatalog.Proofs.Wire
import ConnectorCatalog.Registry.Body
import ConnectorCatalog.Registry.Client
import ConnectorCatalog.Registry.Error
import ConnectorCatalog.Registry.Network
import ConnectorCatalog.Registry.Status
import ConnectorCatalog.Request
import ConnectorCatalog.Rpc.Message
import ConnectorCatalog.Server.Capabilities
import ConnectorCatalog.Server.Framing
import ConnectorCatalog.Server.Initialize
import ConnectorCatalog.Server.Log
import ConnectorCatalog.Server.Method
import ConnectorCatalog.Server.Session
import ConnectorCatalog.Service.Basic
import ConnectorCatalog.Service.List
import ConnectorCatalog.Service.Lookup
import ConnectorCatalog.Settings
import ConnectorCatalog.Settings.File
import ConnectorCatalog.Source.Bracket
import ConnectorCatalog.Source.Cell
import ConnectorCatalog.Source.Header
import ConnectorCatalog.Source.Leading
import ConnectorCatalog.Source.Offset
import ConnectorCatalog.Text.Base64
import ConnectorCatalog.Text.Blank
import ConnectorCatalog.Text.Hexadecimal
import ConnectorCatalog.Text.Quoted
import ConnectorCatalog.Text.Utf8
import ConnectorCatalog.Text.WordCharacter
import ConnectorCatalog.Toml.Basic
import ConnectorCatalog.Toml.Literal
import ConnectorCatalog.Toml.Parser
import ConnectorCatalog.Url.Address
import ConnectorCatalog.Url.Basic
import ConnectorCatalog.Url.Domain
import ConnectorCatalog.Url.Folding
import ConnectorCatalog.Url.Form
import ConnectorCatalog.Url.Parser
import ConnectorCatalog.Url.Path
import ConnectorCatalog.Url.Percent
import ConnectorCatalog.Url.Punycode
import ConnectorCatalog.Version
