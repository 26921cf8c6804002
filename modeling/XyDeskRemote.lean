import XyDeskRemote.SessionStuck
import XyDeskRemote.SessionIntent
import XyDeskRemote.SessionRecovery
import XyDeskRemote.SessionFresh
import XyDeskRemote.SessionOwnership
import XyDeskRemote.ConsoleVideoDelivery
import XyDeskRemote.RawInputHost
import XyDeskRemote.RawInputRelease
import XyDeskRemote.VirtualPadChanges
import XyDeskRemote.GamepadPacket
import XyDeskRemote.PcRelayDirectory
import XyDeskRemote.PcRelayLimit
import XyDeskRemote.DirtyFlush
import XyDeskRemote.DownloadStats
import XyDeskRemote.RdpEndpointText
import XyDeskRemote.OauthPoll
import XyDeskRemote.CommaSeparatedPieces
import XyDeskRemote.RdpOptionsStore
import XyDeskRemote.ConnectionArguments
import XyDeskRemote.AndroidInputLoop
import XyDeskRemote.FileTransferPlan
import XyDeskRemote.FreerdpInstance
import XyDeskRemote.GamepadActions
import XyDeskRemote.QuicDiscovery
import XyDeskRemote.AccountSettings
import XyDeskRemote.SessionCallbacks
import XyDeskRemote.KeyboardHost
import XyDeskRemote.MessageQueue
import XyDeskRemote.HudLayoutJson
import XyDeskRemote.InterleavedContext
import XyDeskRemote.HashTableForeach
import XyDeskRemote.RlgrRoundTrip
import XyDeskRemote.ApiAbuseWindows
import XyDeskRemote.WebPresence
import XyDeskRemote.EdgeKvEncoding
import XyDeskRemote.RawInputCoalescing
import XyDeskRemote.FailedSave
import XyDeskRemote.FastPathUpdates
import XyDeskRemote.DynamicChannelData
import XyDeskRemote.DynamicChannelClose
import XyDeskRemote.PerCodec
import XyDeskRemote.SecondaryOrdersRoundTrip
import XyDeskRemote.PrimaryOrdersKept
import XyDeskRemote.NcrushRoundTrip
import XyDeskRemote.NormalizedProfile
import XyDeskRemote.ReleaseAssets
import XyDeskRemote.ClipboardText
import XyDeskRemote.RelativeTravel
import XyDeskRemote.ImeComposition
import XyDeskRemote.RdpFile
import XyDeskRemote.ArrayList
import XyDeskRemote.ZgfxMatches
import XyDeskRemote.RegionCanonical
import XyDeskRemote.Mppc
import XyDeskRemote.BerCodec
import XyDeskRemote.NscRle
import XyDeskRemote.StreamPool
import XyDeskRemote.BufferPool
import XyDeskRemote.XyRdpSession
import XyDeskRemote.RlgrSafety
import XyDeskRemote.InterleavedSafety
import XyDeskRemote.PlanarWalkers
import XyDeskRemote.Asn1Codec
import XyDeskRemote.PubSub
import XyDeskRemote.UnicodeConversion
import XyDeskRemote.Xcrush
