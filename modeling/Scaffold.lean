import Scaffold.Main
import Scaffold.Proofs.Template.Position
import Scaffold.Proofs.Template.Segments
import Scaffold.Proofs.Template.Grammar
import Scaffold.Proofs.Template.Concatenation
import Scaffold.Proofs.Template.Canonical
import Scaffold.Proofs.Template.Resolution
import Scaffold.Proofs.Template.Unrolling
import Scaffold.Proofs.Template.Renaming
import Scaffold.Proofs.Template.Display
import Scaffold.Proofs.Toml.Quoting
import Scaffold.Proofs.Toml.Statement
import Scaffold.Proofs.Config.Document
import Scaffold.Proofs.Disk.Item
import Scaffold.Proofs.Disk.Route
import Scaffold.Proofs.Project
import Scaffold.Proofs.Kind.Header
import Scaffold.Proofs.Swift.Pattern
import Scaffold.Proofs.Swift.Body
import Scaffold.Proofs.Command.Generation
import Scaffold.Proofs.Scene.Output
import Scaffold.Proofs.Scene.Distinctness
import Scaffold.Proofs.Scene.Failure
import Scaffold.Proofs.Kind.Texts
import Scaffold.Proofs.Kind.Rendering
import Scaffold.Proofs.Template.Fault
import Scaffold.Proofs.Scene.Filewise
import Scaffold.Proofs.Swift.Naming
import Scaffold.Proofs.Swift.NormalForm
import Scaffold.Proofs.Kind.Listing
import Scaffold.Proofs.Kind.Lines
import Scaffold.Proofs.Kind.Generated
import Scaffold.Proofs.Kind.Agreement
import Scaffold.Proofs.Kind.Overrides
import Scaffold.Proofs.Text.CamelCase
import Scaffold.Proofs.Template.Identifier
import Scaffold.Proofs.Command.Rendering
