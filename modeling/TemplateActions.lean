import TemplateActions.Json.Reader
import TemplateActions.Logging.Session
import TemplateActions.Node.Equality
import TemplateActions.Visitor.Session
import TemplateActions.Main
import TemplateActions.Proofs.Visitor.Openings
import TemplateActions.Proofs.Visitor.Nesting
import TemplateActions.Proofs.Document.Loading
import TemplateActions.Proofs.Visitor.Interruption
import TemplateActions.Proofs.Visitor.Places
import TemplateActions.Proofs.Node.Identity
import TemplateActions.Proofs.Report.Entries
import TemplateActions.Proofs.Document.Census
import TemplateActions.Proofs.Document.Typing
import TemplateActions.Proofs.Document.Addresses
import TemplateActions.Proofs.Report.Loaded
import TemplateActions.Proofs.Report.Paths
import TemplateActions.Proofs.Document.Forms
import TemplateActions.Proofs.Document.Reporting
import TemplateActions.Proofs.Visitor.Sessions
import TemplateActions.Proofs.CommandLine.Settings
import TemplateActions.Proofs.Document.JsonText
import TemplateActions.Proofs.Path.Notation
import TemplateActions.Proofs.Report.Sharing
import TemplateActions.Proofs.Visitor.Effects
import TemplateActions.Proofs.Document.Defects
import TemplateActions.Proofs.Document.Leftmost
import TemplateActions.Proofs.Visitor.Rearrangement
import TemplateActions.Proofs.Document.Rewriting
import TemplateActions.Proofs.Text.Quoted
import TemplateActions.Proofs.Node.Outline
import TemplateActions.Proofs.Node.Sketch
import TemplateActions.Proofs.Logging.History
import TemplateActions.Proofs.Config.Fieldwise
import TemplateActions.Proofs.CommandLine.Contents
import TemplateActions.Proofs.Report.Printed
import TemplateActions.Proofs.Json.RoundTrip
import TemplateActions.Proofs.Node.Traversal
import TemplateActions.Proofs.Node.Literal
