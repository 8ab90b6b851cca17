import CppMisc.ListSegments
import CppMisc.ListRows
import CppMisc.Numerals
import CppMisc.Tallies
import CppMisc.Runs
import CppMisc.Monitors
import CppMisc.MonitorOrder
import CppMisc.MonitorProgress
import CppMisc.MonitorCalls
import CppMisc.BatchLedger
import CppMisc.ByteMemory
import CppMisc.OrderedChoice
import CppMisc.Lifetimes
import CppMisc.X86
import CppMisc.StreamVector
import CppMisc.StreamPipeline
import CppMisc.StreamMeaning
import CppMisc.StreamClosing
import CppMisc.StreamForgetful
import CppMisc.StreamReset
import CppMisc.StreamSizes
import CppMisc.StreamThrow
import CppMisc.StreamWindow
import CppMisc.StreamMove
import CppMisc.StreamClosures
import CppMisc.StreamFanout
import CppMisc.StreamThreads
import CppMisc.StreamConcurrency
import CppMisc.StreamRecovery
import CppMisc.TimerModel
import CppMisc.TimerAccount
import CppMisc.TimerLifetime
import CppMisc.TimeCluster
import CppMisc.TimeClusterRuns
import CppMisc.TimeClusterReentry
import CppMisc.TimeClusterStale
import CppMisc.ClusterPipeline
import CppMisc.ClusterBetween
import CppMisc.ClusterThreads
import CppMisc.ClusterThrow
import CppMisc.StreamConcat
import CppMisc.NotifyEvents
import CppMisc.BufferPool
import CppMisc.CompletionPort
import CppMisc.WatchLoop
import CppMisc.DelimitedText
import CppMisc.WatchCommand
import CppMisc.WatchRun
import CppMisc.FileReader
import CppMisc.FileWindows
import CppMisc.CardReader
import CppMisc.CardInput
import CppMisc.CardText
import CppMisc.CardBounds
import CppMisc.CardReport
import CppMisc.HexDump
import CppMisc.HexRows
import CppMisc.HexReading
import CppMisc.Parsec
import CppMisc.ResultSlots
import CppMisc.ParserResults
import CppMisc.Assembly
