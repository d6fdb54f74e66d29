import SsAndroid.Lib.Text
import SsAndroid.Lib.Tokenizer
import SsAndroid.Lib.LinkedMap
import SsAndroid.Utils.Commandline
import SsAndroid.Plugin.PluginOptions
import SsAndroid.Plugin.PluginOptionsRoundTrip
import SsAndroid.Plugin.PluginConfiguration
import SsAndroid.Plugin.ProfileScreen
import SsAndroid.Acl.Acl
import SsAndroid.Acl.RoundTrip
import SsAndroid.Acl.CustomRules
import SsAndroid.Acl.Flatten
import SsAndroid.Lib.ByteBuffer
import SsAndroid.Net.Socks5Endpoint
import SsAndroid.Net.Socks5Tcp
import SsAndroid.Net.Socks5Domain
import SsAndroid.Bg.BaseService
import SsAndroid.Bg.Lifecycle
import SsAndroid.Lib.Json
import SsAndroid.Database.Profile
import SsAndroid.Database.ProfileManager
import SsAndroid.Database.JsonFields
import SsAndroid.Database.ImportRun
import SsAndroid.Database.JsonRoundTrip
import SsAndroid.Utils.DirectBoot
import SsAndroid.Bg.TrafficMonitor
import SsAndroid.Bg.Sessions
import SsAndroid.Bg.LockedSessions
import SsAndroid.Mobile.InterfaceWrites
import SsAndroid.Net.DefaultNetworkListener
import SsAndroid.Bg.VpnService
import SsAndroid.Net.LocalDnsServer
import SsAndroid.Bg.LocalDnsService
import SsAndroid.Net.ChannelMonitor
import SsAndroid.Bg.GuardedProcessPool
import SsAndroid.Mobile.ProfileDeletion
import SsAndroid.Lib.Regex
import SsAndroid.Lib.Encoding
import SsAndroid.Net.Uri
import SsAndroid.Plugin.PrintedOptions
import SsAndroid.Database.ProfileUri
import SsAndroid.Database.UriMatch
import SsAndroid.Database.UriRoundTrip
import SsAndroid.Bg.GuardedTraffic
import SsAndroid.Bg.Binder
import SsAndroid.Bg.Keepalive
import SsAndroid.Database.KeyValuePair
import SsAndroid.Lib.Path
import SsAndroid.Plugin.PluginFiles
import SsAndroid.Mobile.ProfileDrag
import SsAndroid.Mobile.UndoSnackbarManager
import SsAndroid.Database.ProfileObjects
import SsAndroid.Database.ImportLinks
import SsAndroid.Database.ImportStreams
import SsAndroid.Database.UdpFallbacks
import SsAndroid.Lib.CString
import SsAndroid.Acl.InitAcl
import SsAndroid.Net.HttpPost
import SsAndroid.Bg.PolledTraffic
import SsAndroid.Plugin.PathProvider
import SsAndroid.Net.HostsFile
import SsAndroid.Utils.QuotedArguments
import SsAndroid.Acl.Modes
import SsAndroid.Database.LinkFields
import SsAndroid.Database.PrivateStore
import SsAndroid.Database.Ports
import SsAndroid.Mobile.MainFragment
import SsAndroid.Lib.Bytes
import SsAndroid.Net.SubnetMatches
import SsAndroid.Lib.SortedLookup
import SsAndroid.Acl.SubnetOrder
import SsAndroid.Lib.Frames
import SsAndroid.Lib.Window
import SsAndroid.Libev.Ppbloom
import SsAndroid.Libev.Crypto
import SsAndroid.Libev.Aead
import SsAndroid.Libev.AeadRelay
import SsAndroid.Libev.AeadStream
import SsAndroid.Libev.Contexts
import SsAndroid.Libev.StreamCipher
import SsAndroid.Libev.Local
import SsAndroid.Libev.LocalRequest
import SsAndroid.Libev.Relay
import SsAndroid.Libev.Tunnel
import SsAndroid.Libev.UdpRelay
