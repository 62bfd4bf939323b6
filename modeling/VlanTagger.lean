import VlanTagger.Lib.Transition
import VlanTagger.Lib.Reports
import VlanTagger.Lib.Potential
import VlanTagger.Lib.Ring
import VlanTagger.Lib.Memory
import VlanTagger.Lib.ByteOrder
import VlanTagger.Lib.Checksum
import VlanTagger.Lib.Access
import VlanTagger.Lib.Condition
import VlanTagger.Lib.Critical
import VlanTagger.Lib.Interrupted
import VlanTagger.Lib.CString
import VlanTagger.Lib.Decimal
import VlanTagger.Lib.Hex
import VlanTagger.Lib.Tokens
import VlanTagger.Lib.Flow
import VlanTagger.Lib.Attempts
import VlanTagger.Lib.Lines
import VlanTagger.Lib.Turns
import VlanTagger.Lib.Ownership
import VlanTagger.Queue.Fifo
import VlanTagger.Queue.Wakeup
import VlanTagger.Logger.Model
import VlanTagger.Logger.Records
import VlanTagger.Logger.Count
import VlanTagger.Logger.Signals
import VlanTagger.ConfigParser.Loop
import VlanTagger.ConfigParser.Validation
import VlanTagger.ConfigParser.FailedLoad
import VlanTagger.ConfigParser.Lines
import VlanTagger.ConfigParser.RoundTrip
import VlanTagger.ConfigParser.Grammar
import VlanTagger.ConfigParser.Endings
import VlanTagger.ConfigParser.Comments
import VlanTagger.ConfigParser.Bounds
import VlanTagger.Nodes.Node
import VlanTagger.Nodes.Tagger
import VlanTagger.Nodes.Tagging
import VlanTagger.Nodes.RuleOrder
import VlanTagger.Nodes.Workers
import VlanTagger.Nodes.IpModifier
import VlanTagger.Nodes.Modifying
import VlanTagger.Nodes.StaleBytes
import VlanTagger.Nodes.RoundRobin
import VlanTagger.Nodes.Statistics
import VlanTagger.Nodes.GiveUp
import VlanTagger.Nodes.HexDump
import VlanTagger.Nodes.PacketLog
import VlanTagger.Nodes.Bounds
import VlanTagger.Pipeline.Runtime
import VlanTagger.Pipeline.Graph
import VlanTagger.Pipeline.Wiring
import VlanTagger.Pipeline.FailedCalls
import VlanTagger.Pipeline.Lifecycle
import VlanTagger.Pipeline.Shutdown
import VlanTagger.Pipeline.Ledger
import VlanTagger.Pipeline.Lanes
import VlanTagger.Pipeline.Conservation
import VlanTagger.Pipeline.Counters
import VlanTagger.Pipeline.Network
import VlanTagger.Pipeline.Delivery
import VlanTagger.Pipeline.Loopback
import VlanTagger.Pipeline.Hops
import VlanTagger.Pipeline.Order
import VlanTagger.Pipeline.Flow
import VlanTagger.Pipeline.DetailedLogging
import VlanTagger.Pipeline.PacketLog
import VlanTagger.Pipeline.Failures
import VlanTagger.Pipeline.Worth
import VlanTagger.Pipeline.Draining
import VlanTagger.Pipeline.Completion
import VlanTagger.Pipeline.PromptStop
import VlanTagger.Pipeline.Program
import VlanTagger.Pipeline.Allocation
import VlanTagger.Pipeline.Accounting
import VlanTagger.Pipeline.Building
import VlanTagger.Pipeline.Cleanup
