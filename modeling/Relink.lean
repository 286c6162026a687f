import Relink.Files.Disk
import Relink.Options.Reader
import Relink.Proofs.Extension.Beside
import Relink.Proofs.Extension.Insertion
import Relink.Proofs.Extension.Specifier
import Relink.Proofs.Files.Answers
import Relink.Proofs.Json.Tokens
import Relink.Proofs.Options.Reading
import Relink.Proofs.Options.Tables
import Relink.Proofs.Path.Canonical
import Relink.Proofs.Path.Shortest
import Relink.Proofs.Resolve.Footprint
import Relink.Proofs.Resolve.TrailingSlash
import Relink.Proofs.Resolve.WithoutManifest
import Relink.Proofs.Session.Accounts
import Relink.Proofs.Session.Denotation
import Relink.Proofs.Session.Ending
import Relink.Proofs.Session.FirstAnswer
import Relink.Proofs.Session.Isolation
import Relink.Proofs.Session.Relocation
import Relink.Proofs.Session.Schedule
import Relink.Proofs.Session.SecondPass
import Relink.Proofs.Session.Spelling
import Relink.Proofs.Session.Substitution
import Relink.Proofs.Session.Trace
import Relink.Proofs.Specifier.Scan
import Relink.Proofs.Tree.Encoding
import Relink.Proofs.Tree.Tour
import Relink.Proofs.Tree.Visits
import Relink.Tree.Debug
import Relink.Tree.Encoding
