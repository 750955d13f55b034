import SqueezeboxConnect.Runs
import SqueezeboxConnect.Outcomes
import SqueezeboxConnect.AudioDecoder
import SqueezeboxConnect.PlayerThread
import SqueezeboxConnect.PlayerLoads
import SqueezeboxConnect.PlayerRuns
import SqueezeboxConnect.PlayerGuarantees
import SqueezeboxConnect.ByteReaders
import SqueezeboxConnect.Cursors
import SqueezeboxConnect.StreamingAudio
import SqueezeboxConnect.Truncation
import SqueezeboxConnect.ReadFailures
import SqueezeboxConnect.DecryptedAudio
import SqueezeboxConnect.Swaps
import SqueezeboxConnect.ShuffleVec
import SqueezeboxConnect.SpotifyUri
import SqueezeboxConnect.Connect
import SqueezeboxConnect.ConnectContext
import SqueezeboxConnect.ConnectCommands
import SqueezeboxConnect.ContextWindow
import SqueezeboxConnect.ContextRuns
import SqueezeboxConnect.ConnectDeck
import SqueezeboxConnect.ListLimits
import SqueezeboxConnect.Streams
import SqueezeboxConnect.OggPage
import SqueezeboxConnect.HeaderTracker
import SqueezeboxConnect.BridgeLoop
import SqueezeboxConnect.BridgeMoves
import SqueezeboxConnect.ClientStream
import SqueezeboxConnect.Delivery
import SqueezeboxConnect.Metadata
import SqueezeboxConnect.LoadingMarker
import SqueezeboxConnect.Watcher
import SqueezeboxConnect.WatcherRuns
import SqueezeboxConnect.Unavailable
import SqueezeboxConnect.UserQueue
import SqueezeboxConnect.Shuffling
import SqueezeboxConnect.SkipNext
import SqueezeboxConnect.AutoplayLoading
import SqueezeboxConnect.RepeatPasses
import SqueezeboxConnect.RadioRuns
import SqueezeboxConnect.SinkFailures
import SqueezeboxConnect.Subprocess
import SqueezeboxConnect.DealerRequests
import SqueezeboxConnect.ByteFields
import SqueezeboxConnect.HeaderSafety
import SqueezeboxConnect.Mercury
import SqueezeboxConnect.SessionDispatch
import SqueezeboxConnect.MercuryAssembly
import SqueezeboxConnect.AccessPoint
import SqueezeboxConnect.MercuryWire
import SqueezeboxConnect.OggWriter
import SqueezeboxConnect.Framing
import SqueezeboxConnect.AudioFetch
import SqueezeboxConnect.Ledgers
import SqueezeboxConnect.DownloadLedger
import SqueezeboxConnect.DownloadRuns
import SqueezeboxConnect.RangeSets
import SqueezeboxConnect.ShortReads
import SqueezeboxConnect.PageReader
import SqueezeboxConnect.StreamGenerations
import SqueezeboxConnect.FillRounds
import SqueezeboxConnect.ContextPositions
import SqueezeboxConnect.ResetWindow
import SqueezeboxConnect.ReportedIndex
import SqueezeboxConnect.FailedCommands
import SqueezeboxConnect.Subfiles
import SqueezeboxConnect.StreamedFile
import SqueezeboxConnect.PlayableContexts
import SqueezeboxConnect.Repositioning
import SqueezeboxConnect.SpotifyIds
import SqueezeboxConnect.TextReplacement
import SqueezeboxConnect.TrackIdentity
import SqueezeboxConnect.Demuxing
import SqueezeboxConnect.Remuxing
import SqueezeboxConnect.ContextFinishing
import SqueezeboxConnect.Transfers
import SqueezeboxConnect.HandlerMaps
import SqueezeboxConnect.DealerRegistry
import SqueezeboxConnect.IdTexts
import SqueezeboxConnect.UriRoundTrip
import SqueezeboxConnect.CacheLimiter
import SqueezeboxConnect.FailedSeeks
import SqueezeboxConnect.FetchArithmetic
import SqueezeboxConnect.Fallible
import SqueezeboxConnect.LoginBlobs
import SqueezeboxConnect.UntrustedPeers
import SqueezeboxConnect.DiffieHellman
import SqueezeboxConnect.Json
import SqueezeboxConnect.MetadataJson
import SqueezeboxConnect.Restrictions
import SqueezeboxConnect.StatusData
import SqueezeboxConnect.ClientToken
import SqueezeboxConnect.PendingTables
import SqueezeboxConnect.CdnUrls
import SqueezeboxConnect.ShellCommands
import SqueezeboxConnect.ShellQuoting
import SqueezeboxConnect.ArtworkRuns
import SqueezeboxConnect.ArtworkReopening
import SqueezeboxConnect.LoaderThreads
