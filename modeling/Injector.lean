import Injector.Autoload
import Injector.CommandLine
import Injector.CommandLine.Arguments
import Injector.Compilation
import Injector.Config
import Injector.Config.Decode
import Injector.Config.Encode
import Injector.Container
import Injector.Container.Body
import Injector.Container.Source
import Injector.Container.Target
import Injector.Definition
import Injector.Definition.Encode
import Injector.Document.Basic
import Injector.Document.Json.Printer
import Injector.Document.Json.Reader
import Injector.Document.Node
import Injector.Document.Yaml.Cursor
import Injector.Document.Yaml.Layout
import Injector.Document.Yaml.Plain
import Injector.Document.Yaml.Printer
import Injector.Document.Yaml.Reader
import Injector.Document.Yaml.Tag
import Injector.Document.Yaml.Token
import Injector.Document.Yaml.Token.Name
import Injector.Document.Yaml.Token.Scalar
import Injector.Document.Yaml.Tree
import Injector.EntryPoint
import Injector.Error
import Injector.Files
import Injector.Files.Path
import Injector.Files.Tree
import Injector.Graph
import Injector.Graph.Chain
import Injector.Graph.Order
import Injector.Hint
import Injector.Hint.Expansion
import Injector.Identifier
import Injector.Identifier.FactoryName
import Injector.Literal
import Injector.Main
import Injector.Metadata
import Injector.Metadata.Decode
import Injector.Metadata.Encode
import Injector.Number.Double
import Injector.Number.Shortest
import Injector.Number.Text
import Injector.Pattern
import Injector.Plan
import Injector.Resolution
import Injector.Resolution.Member
import Injector.Session
import Injector.Table
import Injector.Text.Blank
import Injector.Text.Lines
import Injector.Text.Printable
import Injector.Text.Quoted
import Injector.Text.Report
import Injector.Wiring
import Injector.Proofs.Fallible
import Injector.Proofs.Table
import Injector.Proofs.Graph.Insertion
import Injector.Proofs.Graph.Search
import Injector.Proofs.Graph.Walk
import Injector.Proofs.Graph.Order
import Injector.Proofs.Resolution.Newborn
import Injector.Proofs.Graph.Placement
import Injector.Proofs.Resolution.Run
import Injector.Proofs.Resolution.Step
import Injector.Proofs.Resolution.Termination
import Injector.Proofs.Resolution.Invariant
import Injector.Proofs.Resolution.Closure
import Injector.Proofs.Resolution.Outcome
import Injector.Proofs.Container.Complete
import Injector.Proofs.Resolution.References
import Injector.Proofs.Resolution.Silence
import Injector.Proofs.Container.Branches
import Injector.Proofs.Container.Exposure
import Injector.Proofs.Resolution.Members
import Injector.Proofs.Resolution.Prefix
import Injector.Proofs.Resolution.Direct
import Injector.Proofs.Resolution.Within
import Injector.Proofs.Resolution.Permutation
import Injector.Proofs.Resolution.Finite
import Injector.Proofs.Resolution.Growth
import Injector.Proofs.Resolution.History
import Injector.Proofs.Resolution.Queries
import Injector.Proofs.Resolution.Overrides
import Injector.Proofs.Resolution.Part
import Injector.Proofs.Resolution.Implementation
import Injector.Proofs.Container.Caching
import Injector.Proofs.Identifier.FactoryName
import Injector.Proofs.Container.Names
import Injector.Proofs.Text.Quoted
import Injector.Proofs.Text.Lines
import Injector.Proofs.Container.Code
import Injector.Proofs.Container.Text
import Injector.Proofs.Container.Written
import Injector.Proofs.Container.Links
import Injector.Proofs.Container.Reach
import Injector.Proofs.Container.Acyclic
import Injector.Proofs.Container.Activation
import Injector.Proofs.Container.Surface
import Injector.Proofs.Container.Summary
import Injector.Proofs.Resolution.Placement
import Injector.Proofs.Container.Placement
import Injector.Proofs.Container.Distinct
import Injector.Proofs.Graph.Image
import Injector.Proofs.Container.Proxies
import Injector.Proofs.Resolution.Files
import Injector.Proofs.Files.Location
import Injector.Proofs.Files.Writing
import Injector.Proofs.Identifier.Gaps
import Injector.Proofs.Container.Includes
import Injector.Proofs.Container.Conventional
import Injector.Proofs.Pattern.Captures
import Injector.Proofs.Pattern.Parsing
import Injector.Proofs.Hint.Expansion
import Injector.Proofs.Document.Node
import Injector.Proofs.Document.Json.Reader
import Injector.Proofs.Document.Json.Printer
import Injector.Proofs.Config.RoundTrip
import Injector.Proofs.Metadata.RoundTrip
import Injector.Proofs.Literal.Expression
import Injector.Proofs.Container.Cycles
