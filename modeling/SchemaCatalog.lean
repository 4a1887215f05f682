import SchemaCatalog.Event
import SchemaCatalog.OrderedMap
import SchemaCatalog.Sdl.Grammar
import SchemaCatalog.TypeRef
import SchemaCatalog.Text.Hex
import SchemaCatalog.Text.Surrogate
import SchemaCatalog.Text.LetterCase.Table
import SchemaCatalog.Text.LetterCase
import SchemaCatalog.Text.Blank
import SchemaCatalog.Text.Utf8
import SchemaCatalog.Json.Value
import SchemaCatalog.Json.Writer
import SchemaCatalog.Json.Reader
import SchemaCatalog.Config
import SchemaCatalog.Naming
import SchemaCatalog.TypeMap
import SchemaCatalog.TypeMap.Json
import SchemaCatalog.SchemaError
import SchemaCatalog.FieldDirectives
import SchemaCatalog.ExampleValues
import SchemaCatalog.Classification
import SchemaCatalog.Yaml.Source
import SchemaCatalog.Yaml.Token
import SchemaCatalog.Yaml.Scalar.Quoted
import SchemaCatalog.Yaml.Scalar.Plain
import SchemaCatalog.Yaml.Scalar.Block
import SchemaCatalog.Yaml.Property
import SchemaCatalog.Yaml.Token.Layout
import SchemaCatalog.Yaml.Token.Scan
import SchemaCatalog.Yaml.Node
import SchemaCatalog.Yaml.Node.Reader
import SchemaCatalog.Path
import SchemaCatalog.FileTree
import SchemaCatalog.Outlet
import SchemaCatalog.Text.Base64
import SchemaCatalog.Text.Debug
import SchemaCatalog.Config.Error
import SchemaCatalog.Config.Validation
import SchemaCatalog.Config.Json
import SchemaCatalog.Config.Yaml
import SchemaCatalog.Config.Loading
import SchemaCatalog.Config.Discovery
import SchemaCatalog.Url.Percent
import SchemaCatalog.Url.Punycode
import SchemaCatalog.Url.Host
import SchemaCatalog.Url
import SchemaCatalog.Http.Status
import SchemaCatalog.Http.Exchange
import SchemaCatalog.Remote.Client
import SchemaCatalog.Remote.Failure
import SchemaCatalog.Remote.Fetch
import SchemaCatalog.CommandLine.Opt
import SchemaCatalog.CommandLine.Arguments
import SchemaCatalog.CommandLine.Style
import SchemaCatalog.CommandLine.ConfigChoice
import SchemaCatalog.CommandLine.Failure
import SchemaCatalog.CommandLine.Run
import SchemaCatalog.Main
import SchemaCatalog.Proofs.Sdl.CleanRun
import SchemaCatalog.Proofs.Sdl.TypeReading
import SchemaCatalog.Proofs.Sdl.Completeness
import SchemaCatalog.Proofs.Classification.Denotation
import SchemaCatalog.Proofs.Classification.Acceptance
import SchemaCatalog.Proofs.Classification.LastWins
import SchemaCatalog.Proofs.Sdl.ForwardRun
import SchemaCatalog.Proofs.Sdl.TypeNotation
import SchemaCatalog.Proofs.Json.Literals
import SchemaCatalog.Proofs.Json.RoundTrip
import SchemaCatalog.Proofs.TypeMap.Decoding
import SchemaCatalog.Proofs.Classification.Warnings
import SchemaCatalog.Proofs.Config.Loading
import SchemaCatalog.Proofs.CommandLine.ConfigChoice
import SchemaCatalog.Proofs.Outlet
import SchemaCatalog.Proofs.CommandLine.Run
import SchemaCatalog.Proofs.CommandLine.FirstFailure
import SchemaCatalog.Proofs.CommandLine.LocalCopy
import SchemaCatalog.Proofs.Classification.Examples
import SchemaCatalog.Proofs.Classification.Prefixes
import SchemaCatalog.Proofs.Remote.Target
import SchemaCatalog.Proofs.TwoRuns
import SchemaCatalog.Proofs.Config.Token
import SchemaCatalog.Proofs.Remote.Token
import SchemaCatalog.Proofs.CommandLine.Token
import SchemaCatalog.Proofs.TypeMap.Notation
import SchemaCatalog.Proofs.Text.LetterCase
import SchemaCatalog.Proofs.Text.Utf8
import SchemaCatalog.Proofs.Remote.Outcome
import SchemaCatalog.Proofs.Sdl.QuotedText
import SchemaCatalog.Proofs.Sdl.AliasText
import SchemaCatalog.Proofs.TypeMap.AliasText
import SchemaCatalog.Proofs.FieldDirectives
import SchemaCatalog.Proofs.Sdl.Annotations
import SchemaCatalog.Proofs.Classification.Directives
import SchemaCatalog.Proofs.Config.Written
import SchemaCatalog.Proofs.Yaml.Scalar
import SchemaCatalog.Proofs.Yaml.FlowSteps
import SchemaCatalog.Proofs.Yaml.FlowMapping
import SchemaCatalog.Proofs.Yaml.Record
import SchemaCatalog.Proofs.Config.PlainFile
import SchemaCatalog.Proofs.Path
import SchemaCatalog.Proofs.Config.Nearest
import SchemaCatalog.Proofs.CommandLine.Output
import SchemaCatalog.Proofs.Sdl.ClashText
import SchemaCatalog.Proofs.Classification.ScalarClashes
import SchemaCatalog.Proofs.Json.Grammar
import SchemaCatalog.Proofs.Json.WrittenLiterals
import SchemaCatalog.Proofs.Json.Agreement
import SchemaCatalog.Proofs.Remote.BodyMessage
import SchemaCatalog.Proofs.Remote.Settings
import SchemaCatalog.Proofs.CommandLine.Colors
