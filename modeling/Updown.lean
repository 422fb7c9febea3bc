import Updown.Agreement
import Updown.Crypto.InPlace
import Updown.Crypto.Nonces
import Updown.DeltaSync
import Updown.Engine.BlockRanges
import Updown.Engine.Completion
import Updown.Engine.Compression
import Updown.Engine.Coverage
import Updown.Engine.Deadlock
import Updown.Engine.DeferredWrites
import Updown.Engine.Delta
import Updown.Engine.History
import Updown.Engine.Integrity
import Updown.Engine.Paths
import Updown.Engine.Persistence
import Updown.Engine.Reader
import Updown.Engine.ReceivedSize
import Updown.Engine.RecvBooks
import Updown.Engine.RecvProgress
import Updown.Engine.RecvReport
import Updown.Engine.RecvSafety
import Updown.Engine.Restarts
import Updown.Engine.ResumeFormat
import Updown.Engine.ResumeLaws
import Updown.Engine.SendNumbers
import Updown.Engine.SendPipeline
import Updown.Engine.Tampering
import Updown.Engine.Walk
import Updown.Fec.Adaptive
import Updown.Fec.LossSignal
import Updown.Geometry
import Updown.Lib.Versions
import Updown.Negotiate
import Updown.Send
import Updown.SendDirectory
import Updown.Serve
import Updown.ServeLoop
import Updown.ServeOutputs
import Updown.Transport.Binding
import Updown.Transport.Blast
import Updown.Transport.Control
import Updown.Transport.Framing
import Updown.Transport.Grammar
import Updown.Transport.Interleaving
import Updown.Transport.OwdGradient
import Updown.Transport.Pacing
import Updown.Transport.RateController
import Updown.Transport.RateDirections
import Updown.Transport.RateReaction
import Updown.Transport.Rejection
import Updown.Transport.Stun
import Updown.Transport.Timeouts
import Updown.Web.Agent
import Updown.Web.Alone
import Updown.Web.Durability
import Updown.Web.Handlers
import Updown.Web.HtmlEscape
import Updown.Web.Listeners
import Updown.Web.Outsiders
import Updown.Web.Packages
import Updown.Web.Progress
import Updown.Web.RateTraces
import Updown.Web.Server
import Updown.Web.ServerRuns
import Updown.Web.Sessions
import Updown.Web.ShareCodes
import Updown.Web.Uploads
