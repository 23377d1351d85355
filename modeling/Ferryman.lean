import Ferryman.Core.AcceptedPaths
import Ferryman.Core.Ambiguity
import Ferryman.Core.AmbiguityProperties
import Ferryman.Core.Breaker
import Ferryman.Core.BreakerProperties
import Ferryman.Core.BreakerRaceProperties
import Ferryman.Core.BreakerRaces
import Ferryman.Core.BreakerRunProperties
import Ferryman.Core.BreakerRuns
import Ferryman.Core.BreakerTimes
import Ferryman.Core.Config
import Ferryman.Core.ConfigProperties
import Ferryman.Core.Error
import Ferryman.Core.FailureRace
import Ferryman.Core.FreshTable
import Ferryman.Core.GaugeRace
import Ferryman.Core.Install
import Ferryman.Core.LiveRoutes
import Ferryman.Core.LongestPrefix
import Ferryman.Core.NormalForm
import Ferryman.Core.Normalize
import Ferryman.Core.NormalizeProperties
import Ferryman.Core.NormalizeScan
import Ferryman.Core.PartialDecoders
import Ferryman.Core.Path
import Ferryman.Core.PathGrammar
import Ferryman.Core.PathProperties
import Ferryman.Core.PathReadings
import Ferryman.Core.ProbeRate
import Ferryman.Core.Proxies
import Ferryman.Core.ProxyRanges
import Ferryman.Core.RaceSteps
import Ferryman.Core.ReleaseReads
import Ferryman.Core.ReloadChain
import Ferryman.Core.ReopenRace
import Ferryman.Core.Route
import Ferryman.Core.RouteOrder
import Ferryman.Core.Stamps
import Ferryman.Core.TicketRace
import Ferryman.Core.Uri
import Ferryman.Core.Warrants
import Ferryman.Lib.Bytes
import Ferryman.Lib.Delimiters
import Ferryman.Lib.ForwardedSyntax
import Ferryman.Lib.IpAddr
import Ferryman.Lib.IpAddrProperties
import Ferryman.Lib.IpAddrTexts
import Ferryman.Lib.Logging
import Ferryman.Lib.Monitor
import Ferryman.Lib.Numeral
import Ferryman.Lib.NumeralProperties
import Ferryman.Lib.Program
import Ferryman.Lib.Slices
import Ferryman.Lib.Stretches
import Ferryman.Lib.Trace
import Ferryman.Lib.Utf8
import Ferryman.Lib.Walks
import Ferryman.Server.AccessLog
import Ferryman.Server.Accusations
import Ferryman.Server.Agreement
import Ferryman.Server.Blame
import Ferryman.Server.ClientAddress
import Ferryman.Server.ConfigReload
import Ferryman.Server.Connections
import Ferryman.Server.EndToEnd
import Ferryman.Server.Forwarded
import Ferryman.Server.ForwardedPath
import Ferryman.Server.ForwardedProperties
import Ferryman.Server.ForwardedRoundTrip
import Ferryman.Server.FreshStart
import Ferryman.Server.Handler
import Ferryman.Server.HandlerRuns
import Ferryman.Server.Headers
import Ferryman.Server.HopByHop
import Ferryman.Server.HostHeader
import Ferryman.Server.PrefixChain
import Ferryman.Server.ProxyChain
import Ferryman.Server.Recovery
import Ferryman.Server.Reload
import Ferryman.Server.RequestIds
import Ferryman.Server.Serve
import Ferryman.Server.ServeProperties
import Ferryman.Server.ServeTimes
import Ferryman.Server.SpellingFilter
import Ferryman.Server.Spellings
import Ferryman.Server.StallMemory
import Ferryman.Server.StallTracking
import Ferryman.Server.Startup
import Ferryman.Server.System
import Ferryman.Server.SystemMoves
import Ferryman.Server.SystemProperties
import Ferryman.Server.SystemRequests
import Ferryman.Server.SystemStamps
import Ferryman.Server.SystemTasks
import Ferryman.Server.Tickets
import Ferryman.Server.TlsReload
import Ferryman.Server.Transparency
import Ferryman.Server.UntrustedPeer
import Ferryman.Server.Upload
import Ferryman.Server.UploadProperties
import Ferryman.Server.UploadRace
import Ferryman.Server.UploadRaceSteps
import Ferryman.Server.UploadStream
import Ferryman.Server.Watch
import Ferryman.Server.WatchProperties
import Ferryman.Server.Windows
