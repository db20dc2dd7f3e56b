import Proxiima.Memory.KeyHistory
import Proxiima.Authz.GrantHistory
import Proxiima.Collaboration.Admissions
import Proxiima.Groups.MembershipHistory
import Proxiima.Blobs.UploadHistory
import Proxiima.Embedding.Chunks
import Proxiima.Authz.StreamRevalidation
import Proxiima.SeriesErase.EraseOrderVerified
import Proxiima.Authz.HostShaping
import Proxiima.Embedding.JobsVerified
import Proxiima.MemoryUuidRuns
import Proxiima.Collaboration.VisibleHeads
import Proxiima.Identity.Fingerprint
import Proxiima.Authz.ScopeKeyTexts
import Proxiima.Evolution.TerminalMappings
import Proxiima.Evolution.DeclaredVerified
import Proxiima.Edges.Listing
import Proxiima.Goals.Evolved
import Proxiima.VectorIndex.SweepVerified
import Proxiima.Publication.Intake
import Proxiima.QuiesceGate
