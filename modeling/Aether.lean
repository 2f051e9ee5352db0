import Aether.Connection.AcceptedFlows
import Aether.Connection.CallbackHandlers
import Aether.Connection.Endpoints
import Aether.Connection.StopAll
import Aether.Connection.Timeouts
import Aether.Connection.TlsReferences
import Aether.Http.AbsoluteForms
import Aether.Http.AuthorityForms
import Aether.Http.BodyLimit
import Aether.Http.ChunkSizes
import Aether.Http.EditedMessages
import Aether.Http.ExchangeAccounts
import Aether.Http.ResponseCookies
import Aether.Http.ResponsePairing
import Aether.Http.SelfConnect
import Aether.Http.UrlBounds
import Aether.Input.CommandService
import Aether.Intercept.BaseInterceptorService
import Aether.Program.OptionsFactory
import Aether.Program.Properties
import Aether.Tls.AlpnAgreement
import Aether.Tls.Handover
import Aether.Tls.HandshakeReads
import Aether.Tls.Lookups
import Aether.Tls.SerialNumbers
import Aether.Tls.StoreHistory
import Aether.Tls.SubjectAltName
import Aether.Tls.WellFormedHellos
import Aether.Tunnel.Conservation
import Aether.Util.AnyInvocableRuns
import Aether.Util.ByteStrings
import Aether.Util.ReadUntil
import Aether.Util.Result
import Aether.Util.SegmentCounts
import Aether.Util.SplitTrimRanges
import Aether.Util.UuidRestarts
import Aether.Util.UuidText
import Aether.Websocket.CloseRelay
import Aether.Websocket.ControlFrames
import Aether.Websocket.ExtensionHeaders
import Aether.Websocket.FrameLegality
import Aether.Websocket.Handshakes
import Aether.Websocket.InboundMessages
import Aether.Websocket.Injection
import Aether.Websocket.InjectionOrder
import Aether.Websocket.Interception
import Aether.Websocket.MaskKeys
import Aether.Websocket.Negotiation
import Aether.Websocket.OutboundDeflate
import Aether.Websocket.QueueIterations
import Aether.Websocket.SegmentedParser
import Aether.Websocket.SerializedFrames
import Aether.Websocket.ServiceClosing
