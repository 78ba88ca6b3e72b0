import RouteScribe.Main
import RouteScribe.Proofs.Go.Automaton
import RouteScribe.Proofs.Go.Branch
import RouteScribe.Proofs.Go.Search
import RouteScribe.Proofs.Go.Advance
import RouteScribe.Proofs.Go.Declaration
import RouteScribe.Proofs.Work
import RouteScribe.Proofs.Routing.Draft
import RouteScribe.Proofs.Routing.Key
import RouteScribe.Proofs.Routing.Contribution
import RouteScribe.Proofs.Routing.Import
import RouteScribe.Proofs.Files.Operation
import RouteScribe.Proofs.Routing.Generation
import RouteScribe.Proofs.Files.Resolve
import RouteScribe.Proofs.Files.Tree
import RouteScribe.Proofs.Routing.Scan
import RouteScribe.Proofs.Files.Writing
import RouteScribe.Proofs.Project.Layout
import RouteScribe.Proofs.Routing.Regeneration
import RouteScribe.Proofs.Routing.Marker
import RouteScribe.Proofs.Routing.Relocation
import RouteScribe.Proofs.Routing.Prefix
import RouteScribe.Proofs.Routing.Coverage
import RouteScribe.Proofs.Scaffold.Name
import RouteScribe.Proofs.Scaffold.Collection
import RouteScribe.Proofs.Scaffold.Creation
import RouteScribe.Proofs.Scaffold.Source
import RouteScribe.Proofs.Scaffold.Confinement
import RouteScribe.Proofs.Go.Reading
import RouteScribe.Proofs.Go.Sketch
import RouteScribe.Proofs.Go.Stretch
import RouteScribe.Proofs.Scaffold.Declaration
import RouteScribe.Proofs.Routing.Alias
import RouteScribe.Proofs.Routing.Assembly
import RouteScribe.Proofs.Routing.Directive
import RouteScribe.Proofs.Files.Creation
import RouteScribe.Proofs.Routing.Addition
import RouteScribe.Proofs.Scaffold.Outcome
import RouteScribe.Proofs.Scaffold.Discovery
import RouteScribe.Proofs.Go.Collection
import RouteScribe.Proofs.Go.Comment
import RouteScribe.Proofs.Routing.CommentStyle
import RouteScribe.Proofs.Go.Receiver
import RouteScribe.Proofs.Go.ReceiverComment
import RouteScribe.Proofs.Routing.ImportPath
import RouteScribe.Proofs.Project.Discovery
import RouteScribe.Proofs.Files.Lookup
import RouteScribe.Proofs.Files.Replacement
import RouteScribe.Proofs.Files.Gathering
import RouteScribe.Proofs.Files.Atomicity
import RouteScribe.Proofs.Project.ModuleLine
import RouteScribe.Proofs.Scaffold.Readable
import RouteScribe.Proofs.Scaffold.Middleware
import RouteScribe.Proofs.Scaffold.Refused
import RouteScribe.Proofs.Routing.Verb
import RouteScribe.Proofs.Routing.LineEnd
import RouteScribe.Proofs.Routing.Report
import RouteScribe.Proofs.Scaffold.Appending
