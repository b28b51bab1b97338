import HsaSnoop.Discovery.Dedup
import HsaSnoop.Discovery.Kprobe
import HsaSnoop.Discovery.Lifecycle
import HsaSnoop.Discovery.Start
import HsaSnoop.Main.AisMetrics
import HsaSnoop.Main.CommandLine
import HsaSnoop.Main.Gauges
import HsaSnoop.Main.Launch
import HsaSnoop.Main.LaunchRate
import HsaSnoop.Main.Metrics
import HsaSnoop.Main.Registration
import HsaSnoop.Main.Scrapes
import HsaSnoop.Main.SdmaVersion
import HsaSnoop.Main.SingleTrace
import HsaSnoop.Memory.Footprint
import HsaSnoop.Memory.MemCache
import HsaSnoop.Monitor.Faults
import HsaSnoop.Monitor.Lifecycle
import HsaSnoop.Monitor.Pcie
import HsaSnoop.Monitor.XnackProcess
import HsaSnoop.Parser.Delivery
import HsaSnoop.Parser.Eviction
import HsaSnoop.Parser.Isolation
import HsaSnoop.Parser.LaunchOrder
import HsaSnoop.Parser.RecordTimes
import HsaSnoop.Parser.RingReads
import HsaSnoop.Parser.SdmaAccounting
import HsaSnoop.Parser.SdmaAlignment
import HsaSnoop.Parser.SdmaPackets
import HsaSnoop.Parser.SdmaVersions
import HsaSnoop.Parser.Snapshot
import HsaSnoop.Parser.Teardown
import HsaSnoop.Parser.Thread
import HsaSnoop.Report.OneLine
import HsaSnoop.Symbols.ScanImage
import HsaSnoop.Writer.ChromeTimes
import HsaSnoop.Writer.DispatchLog
import HsaSnoop.Writer.Slices
import HsaSnoop.Writer.Timestamps
import HsaSnoop.Writer.TrackIds
import HsaSnoop.Writer.Wire
