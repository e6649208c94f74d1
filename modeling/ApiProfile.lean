import ApiProfile.CType
import ApiProfile.CommandLine.Arguments
import ApiProfile.CommandLine.Run
import ApiProfile.Configuration.Basic
import ApiProfile.Configuration.Encoding
import ApiProfile.Configuration.Layer
import ApiProfile.Configuration.Loading
import ApiProfile.Configuration.SettingPath
import ApiProfile.Diagnostic
import ApiProfile.Digest
import ApiProfile.Failure
import ApiProfile.Files.Path
import ApiProfile.Files.Store
import ApiProfile.Json.Profile
import ApiProfile.Json.Registry
import ApiProfile.Json.Text
import ApiProfile.Json.Value
import ApiProfile.Main
import ApiProfile.Markup.Document
import ApiProfile.Markup.Element
import ApiProfile.Markup.Reference
import ApiProfile.Markup.Tag
import ApiProfile.Markup.Token
import ApiProfile.Profile.Cache
import ApiProfile.Profile.Run
import ApiProfile.Registry.Basic
import ApiProfile.Registry.Document
import ApiProfile.Registry.Resolution
import ApiProfile.Representation
import ApiProfile.Signature
import ApiProfile.Table
import ApiProfile.Text.Basic
import ApiProfile.Text.Binary64
import ApiProfile.Text.Word
import ApiProfile.Toml.Document
import ApiProfile.Toml.Quoted
import ApiProfile.Toml.Scalar
import ApiProfile.Toml.Statement
import ApiProfile.Toml.Writer
import ApiProfile.TypeTable
import ApiProfile.Version
import ApiProfile.Proofs.Registry.Replay
import ApiProfile.Proofs.Registry.Reordering
import ApiProfile.Proofs.Registry.Continuing
import ApiProfile.Proofs.TypeTable.Chain
import ApiProfile.Proofs.Fallible
import ApiProfile.Proofs.Registry.Keyed
import ApiProfile.Proofs.Registry.Resolution
import ApiProfile.Proofs.Profile.Model
import ApiProfile.Proofs.Registry.Trimming
import ApiProfile.Proofs.Profile.Findings
import ApiProfile.Proofs.Profile.Interleaving
import ApiProfile.Proofs.Profile.Isolation
import ApiProfile.Proofs.Markup.Scanning
import ApiProfile.Proofs.Markup.Reading
import ApiProfile.Proofs.Markup.Lexing
import ApiProfile.Proofs.Markup.RoundTrip
import ApiProfile.Proofs.Markup.Moving
import ApiProfile.Proofs.Table
import ApiProfile.Proofs.Registry.Declaring
import ApiProfile.Proofs.Registry.Rearranging
import ApiProfile.Proofs.Text.Numeral
import ApiProfile.Proofs.Text.Denoting
import ApiProfile.Proofs.Json.RoundTrip
import ApiProfile.Proofs.Profile.History
import ApiProfile.Proofs.Markup.Tags
import ApiProfile.Proofs.Markup.Events
import ApiProfile.Proofs.Markup.Nesting
import ApiProfile.Proofs.Text.Words
import ApiProfile.Proofs.Text.Cut
import ApiProfile.Proofs.Text.Word
import ApiProfile.Proofs.CType
import ApiProfile.Proofs.Registry.Parameter
import ApiProfile.Proofs.Registry.Faults
import ApiProfile.Proofs.Profile.Faults
import ApiProfile.Proofs.Files.Writing
import ApiProfile.Proofs.CommandLine.Models
import ApiProfile.Proofs.Toml.Quoted
import ApiProfile.Proofs.Toml.Statement
import ApiProfile.Proofs.Toml.Document
import ApiProfile.Proofs.Configuration.Writing
import ApiProfile.Proofs.Configuration.Layers
import ApiProfile.Proofs.Configuration.Loading
import ApiProfile.Proofs.CType.Spelling
import ApiProfile.Proofs.Flow
import ApiProfile.Proofs.TypeTable.Rows
import ApiProfile.Proofs.Representation
import ApiProfile.Proofs.Registry.Dangling
import ApiProfile.Proofs.Registry.Survivors
import ApiProfile.Proofs.Registry.ConstantValue
import ApiProfile.Proofs.Version.Dotted
import ApiProfile.Proofs.Registry.Constants
import ApiProfile.Proofs.Registry.Entries
import ApiProfile.Proofs.TypeTable.Baking
import ApiProfile.Proofs.CType.Rendering
import ApiProfile.Proofs.Markup.Positions
import ApiProfile.Proofs.TypeTable.Depths
