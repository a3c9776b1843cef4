import Binder.Checked
import Binder.History
import Binder.Proofs.Entry.Callable
import Binder.Workspace
import Binder.Proofs.Bare
import Binder.Proofs.Entry.Function
import Binder.Proofs.Entry.Members
import Binder.Proofs.Keeps
import Binder.Proofs.PackageName
import Binder.Proofs.Session
import Binder.Proofs.Entry.Import
import Binder.Proofs.Entry.Load
import Binder.Proofs.WellFormed
import Binder.Proofs.ForwardReference
import Binder.Proofs.Entry.Settle
import Binder.Proofs.Scopes
import Binder.Proofs.Headings
import Binder.Proofs.Contents
import Binder.Proofs.ImportGraph
import Binder.Proofs.Search
import Binder.Proofs.ImportLoading
import Binder.Proofs.Entry.Course
import Binder.Proofs.ErrorType
import Binder.Proofs.Frame
import Binder.Proofs.Unbound
import Binder.Proofs.Annotation
import Binder.Proofs.Entry.Turn
import Binder.Proofs.ImportFailure
import Binder.Proofs.LoadAgain
import Binder.Proofs.Initializers
import Binder.Proofs.PackageIdentity
import Binder.Proofs.Termination
import Binder.Proofs.Strata
import Binder.Proofs.Entry.Seal
import Binder.Proofs.TypeTable
import Binder.Proofs.Entry.Again
import Binder.Proofs.Entry.Conclude
import Binder.Proofs.Entry.Twin
import Binder.Proofs.Finished
import Binder.Proofs.HandedOut
import Binder.Proofs.NameIndependence
import Binder.Proofs.Reentry
import Binder.Proofs.Misnaming
import Binder.Proofs.Resolution
import Binder.Proofs.CallableScopes
import Binder.Proofs.PlainText
import Binder.Proofs.Entry.Complete
import Binder.Proofs.Formed
import Binder.Proofs.Entry.Report
import Binder.Proofs.StructScope
import Binder.Proofs.Method
import Binder.Proofs.Refusal
import Binder.Proofs.Redeclared
import Binder.Proofs.Agreement
import Binder.Proofs.BoundTexts
import Binder.Proofs.Reordering
import Binder.Proofs.ConnectorParameter
import Binder.Proofs.Copies
import Binder.Proofs.Earlier
import Binder.Proofs.Entry.Ending
import Binder.Proofs.Canonical
import Binder.Proofs.Portions
import Binder.Proofs.Replay
import Binder.Proofs.Rendering
import Binder.Proofs.Entry.Links
import Binder.Proofs.OwnLinks
import Binder.Proofs.Directory
import Binder.Proofs.Titles
import Binder.Proofs.MethodNames
import Binder.Proofs.Shadowing
