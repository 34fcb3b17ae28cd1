import EspushW60x.Lib.Framing
import EspushW60x.Lib.Service
import EspushW60x.Lib.Nor
import EspushW60x.Lib.Powered
import EspushW60x.Lib.Shadow
import EspushW60x.Lib.Base64
import EspushW60x.Lib.Decimal
import EspushW60x.Lib.Debounce
import EspushW60x.Lib.Names
import EspushW60x.FrameIO
import EspushW60x.ParserSafety
import EspushW60x.Lightproto
import EspushW60x.LampPanel
import EspushW60x.ReceiveBuffer
import EspushW60x.EventLoop
import EspushW60x.Stream
import EspushW60x.Chunking
import EspushW60x.HeapBalance
import EspushW60x.Outgoing
import EspushW60x.Bootstrap
import EspushW60x.Session
import EspushW60x.Login
import EspushW60x.Resources
import EspushW60x.SockTask
import EspushW60x.Retry
import EspushW60x.SessionBalance
import EspushW60x.HexCodec
import EspushW60x.LedBlink
import EspushW60x.BufferQueue
import EspushW60x.ReplyParsing
import EspushW60x.SegmentedReceive
import EspushW60x.FailedReceive
import EspushW60x.FailureReasons
import EspushW60x.ReceivePaths
import EspushW60x.UartAnswers
import EspushW60x.HeartTimer
import EspushW60x.Crc32
import EspushW60x.Fal
import EspushW60x.FalPartitions
import EspushW60x.EfEnv
import EspushW60x.EnvTable
import EspushW60x.EnvCache
import EspushW60x.EnvArea
import EspushW60x.EnvLoad
import EspushW60x.EnvPower
import EspushW60x.EnvFaults
import EspushW60x.WifiConfig
import EspushW60x.WifiSettings
import EspushW60x.Button
import EspushW60x.ButtonGestures
import EspushW60x.Mdns
import EspushW60x.MdnsNames
import EspushW60x.MdnsWriter
import EspushW60x.MdnsRecords
import EspushW60x.MdnsResponder
import EspushW60x.MdnsReplies
import EspushW60x.MdnsQuery
import EspushW60x.MdnsQueries
