import WaterNetwork.Builder
import WaterNetwork.Builder.Interrupted
import WaterNetwork.Configuration.Node
import WaterNetwork.Configuration.Pass
import WaterNetwork.Content
import WaterNetwork.Content.Definition
import WaterNetwork.Content.Fields
import WaterNetwork.Content.Mismatch
import WaterNetwork.Content.Node
import WaterNetwork.Document
import WaterNetwork.Document.Configuration
import WaterNetwork.Document.Equality
import WaterNetwork.Document.Storage
import WaterNetwork.FileSystem
import WaterNetwork.Ident
import WaterNetwork.Json
import WaterNetwork.Json.Decoding
import WaterNetwork.Json.Reader
import WaterNetwork.Json.Writer
import WaterNetwork.Network
import WaterNetwork.Node.Declaration
import WaterNetwork.Number.Decimal
import WaterNetwork.Number.Double
import WaterNetwork.Number.Layout
import WaterNetwork.Number.Shortest
import WaterNetwork.Parameter.Definition
import WaterNetwork.Parameter.Resolution
import WaterNetwork.Parameter.Table
import WaterNetwork.Path
import WaterNetwork.Session
import WaterNetwork.Text.Quoted
import WaterNetwork.ValueError
import WaterNetwork.Yaml.Cursor
import WaterNetwork.Yaml.Decoding
import WaterNetwork.Yaml.Form
import WaterNetwork.Yaml.Node
import WaterNetwork.Yaml.Scalar
import WaterNetwork.Yaml.Tag
import WaterNetwork.Yaml.Token
import WaterNetwork.Yaml.Token.Directive
import WaterNetwork.Yaml.Token.Reader
import WaterNetwork.Yaml.Token.Scalar
import WaterNetwork.Yaml.Writer
import WaterNetwork.Proofs.Attempt
import WaterNetwork.Proofs.Indexed
import WaterNetwork.Proofs.Setting
import WaterNetwork.Proofs.Table
import WaterNetwork.Proofs.Resolution
import WaterNetwork.Proofs.Settlement
import WaterNetwork.Proofs.Network
import WaterNetwork.Proofs.Ownership
import WaterNetwork.Proofs.Outcome
import WaterNetwork.Proofs.Configuration
import WaterNetwork.Proofs.NamedParameters
import WaterNetwork.Proofs.WellFormed
import WaterNetwork.Proofs.Log
import WaterNetwork.Proofs.Course
import WaterNetwork.Proofs.Interruption
import WaterNetwork.Proofs.Registration
import WaterNetwork.Proofs.Cut
import WaterNetwork.Proofs.Watched
import WaterNetwork.Proofs.Collision
import WaterNetwork.Proofs.Refusal
import WaterNetwork.Proofs.NamedLiterals
import WaterNetwork.Proofs.Lifecycle
import WaterNetwork.Proofs.Composition
import WaterNetwork.Proofs.Permutation
import WaterNetwork.Proofs.Number.Nearest
import WaterNetwork.Proofs.Number.Shortest
import WaterNetwork.Proofs.Number.Decimal
import WaterNetwork.Proofs.Number.Numeral
import WaterNetwork.Proofs.Json.Number
import WaterNetwork.Proofs.Content
import WaterNetwork.Proofs.Json.Text
import WaterNetwork.Proofs.Json.Tree
import WaterNetwork.Proofs.Content.Reading
import WaterNetwork.Proofs.Content.Fields
import WaterNetwork.Proofs.Content.Definition
import WaterNetwork.Proofs.Content.Node
import WaterNetwork.Proofs.Json.Document
import WaterNetwork.Proofs.FileSystem
import WaterNetwork.Proofs.Storage
import WaterNetwork.Proofs.Yaml.Cursor
import WaterNetwork.Proofs.Yaml.Plain
import WaterNetwork.Proofs.Yaml.Quoted
import WaterNetwork.Proofs.Yaml.Block
import WaterNetwork.Proofs.Yaml.Reading
import WaterNetwork.Proofs.Yaml.Number
import WaterNetwork.Proofs.Yaml.Token
import WaterNetwork.Proofs.Yaml.Written
import WaterNetwork.Proofs.Yaml.Division
import WaterNetwork.Proofs.Yaml.Node
import WaterNetwork.Proofs.Yaml.Stored
import WaterNetwork.Proofs.Yaml.Document
import WaterNetwork.Proofs.Document
import WaterNetwork.Proofs.ParameterOrder
import WaterNetwork.Proofs.DocumentFailure
import WaterNetwork.Proofs.NodeOperations
import WaterNetwork.Proofs.TableFailure
import WaterNetwork.Proofs.Content.Grammar
import WaterNetwork.Proofs.Content.Entries
import WaterNetwork.Proofs.Content.Slots
import WaterNetwork.Proofs.Content.Accepted
import WaterNetwork.Proofs.Json.Collected
import WaterNetwork.Proofs.Json.CollectedNode
import WaterNetwork.Proofs.TableHistory
import WaterNetwork.Proofs.Validation
import WaterNetwork.Proofs.Path
import WaterNetwork.Proofs.DataFile
