import Tracenium.Acme.Confinement
import Tracenium.Amp.PolicyPasses
import Tracenium.Amp.PrinterTable
import Tracenium.Amp.Ticks
import Tracenium.Anchors.Retry
import Tracenium.Asp.PredicateMeaning
import Tracenium.Asp.Whole
import Tracenium.Bridge.Routing
import Tracenium.Cdp.Capped
import Tracenium.Cdp.ChainOrder
import Tracenium.Cdp.Jks
import Tracenium.Cdp.Pkcs12Whole
import Tracenium.Cdp.Pkcs12Work
import Tracenium.Cdp.ProbeRange
import Tracenium.Cdp.StartTls
import Tracenium.Der.Catalyst
import Tracenium.Der.Pkcs10
import Tracenium.Facts.Pipeline
import Tracenium.Facts.RequestLine
import Tracenium.Fim.Replay
import Tracenium.Fim.Sight
import Tracenium.Hardening.Agreement
import Tracenium.Hardening.Firewall
import Tracenium.Hardening.Refusals
import Tracenium.Hardening.SshdUndo
import Tracenium.Ipc.Correlation
import Tracenium.Ipc.Server
import Tracenium.Jobs.Guard
import Tracenium.Jobs.Results
import Tracenium.LinuxPatch.Accounts
import Tracenium.LinuxPatch.Exact
import Tracenium.Outbox.Backoff
import Tracenium.Outbox.Budget
import Tracenium.Outbox.Migration
import Tracenium.Pmp.Redelivery
import Tracenium.Pmp.Verification
import Tracenium.Policy.Hash
import Tracenium.Policy.Saving
import Tracenium.Rcp.CaptureEnd
import Tracenium.Rcp.ConsentAnswers
import Tracenium.Rcp.Downloads
import Tracenium.Rcp.RecordFormat
import Tracenium.Rcp.RecordingsKept
import Tracenium.Rcp.Regate
import Tracenium.Rcp.Secrets
import Tracenium.Rcp.SessionConsent
import Tracenium.Rcp.SessionPeers
import Tracenium.Rcp.TranscriptKept
import Tracenium.Rcp.UploadQueue
import Tracenium.Scheduler.Collisions
import Tracenium.Scheduler.Following
import Tracenium.Sdp.Simulation
import Tracenium.Security.Audit
import Tracenium.Update.Precedence
import Tracenium.Update.Truth
