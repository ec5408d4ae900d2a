import Mistlib.Storage.WantLimits
import Mistlib.Storage.FrameLimit
import Mistlib.Storage.VictimChoice
import Mistlib.Storage.WantAdmission
import Mistlib.Storage.CidCodec
import Mistlib.Storage.EvictionRace
import Mistlib.Storage.Accounting
import Mistlib.Storage.PinUpdate
import Mistlib.Storage.FetchEffort
import Mistlib.Storage.HostileManifest
import Mistlib.Storage.PinnedAdd
import Mistlib.Storage.SendBlock
import Mistlib.Transport.BulkPacing
import Mistlib.Transport.SendQueue
import Mistlib.Transport.Candidates
import Mistlib.Transport.OfferCopies
import Mistlib.Transport.SessionBooks
import Mistlib.Transport.TrackReconcile
import Mistlib.Overlay.ReorderWords
import Mistlib.Overlay.SeqCommit
import Mistlib.Overlay.Ping
import Mistlib.Overlay.OwnPosition
import Mistlib.Overlay.RelayReturn
import Mistlib.Overlay.Flood
import Mistlib.Engine.InboundOrder
import Mistlib.Engine.Rooms
import Mistlib.Engine.SignalingQueue
import Mistlib.Engine.Ingress
import Mistlib.Config.ReadBack
import Mistlib.Overlay.ConnectionBalancer
import Mistlib.Session.FailedRun
import Mistlib.Signaling.ClockSkew
import Mistlib.Signaling.SeenCaches
import Mistlib.Signaling.NodeBindings
import Mistlib.Signaling.InviteCrypto
import Mistlib.Signaling.RetryBudget
import Mistlib.Signaling.ProbeBudget
import Mistlib.Signaling.OutboxOrder
import Mistlib.Signaling.SequenceWindow
import Mistlib.Signaling.Rejoin
import Mistlib.Signaling.SessionChange
import Mistlib.Signaling.OutgoingOrder
import Mistlib.Signaling.WasmRequests
import Mistlib.Signaling.WebSocketSupervisors
import Mistlib.Browser.OutageGrace
import Mistlib.Browser.ConnectionLimit
import Mistlib.Browser.Isolation
import Mistlib.Transport.HostNotices
import Mistlib.Browser.Transactions
import Mistlib.Browser.TrickledCandidates
import Mistlib.Browser.Rooms
import Mistlib.Media.OutputOrder
import Mistlib.Media.Aggregates
import Mistlib.Media.StreamManager
import Mistlib.Engine.PositionCaches
import Mistlib.Transport.ConnectRequests
import Mistlib.Transport.AnswerCandidates
