import WrCores.Clocked.Run
import WrCores.Clocked.Ring
import WrCores.Clocked.Stream
import WrCores.Clocked.Preload
import WrCores.Genrams.ShiftregFifo
import WrCores.Fabric.Pkg
import WrCores.Fabric.Mux
import WrCores.Fabric.MuxMasters
import WrCores.Fabric.Reg
import WrCores.Fabric.LoopbackRuns
import WrCores.Fabric.SourceSink
import WrCores.Fabric.Link
import WrCores.Streamers.Escape
import WrCores.Streamers.DroppingBuffer
import WrCores.Streamers.Pkg
import WrCores.Streamers.RxLight
import WrCores.Streamers.LightFrames
import WrCores.Streamers.Rx
import WrCores.Streamers.RxLoss
import WrCores.Streamers.RxStats
import WrCores.Streamers.RxBuffer
import WrCores.Streamers.Filter
import WrCores.Streamers.Tx
import WrCores.Streamers.TxFrames
import WrCores.Streamers.TxCounter
import WrCores.Streamers.RoundTrip
import WrCores.Endpoint.Pkg
import WrCores.Endpoint.TxPcs16
import WrCores.Endpoint.Line16
import WrCores.Endpoint.RxPcs16
import WrCores.Endpoint.RxLine16
import WrCores.Endpoint.Pcs16
import WrCores.Endpoint.TxPcs8
import WrCores.Endpoint.Line8
import WrCores.Endpoint.RxPcs8
import WrCores.Endpoint.RxLine8
import WrCores.Endpoint.Pcs8
import WrCores.Endpoint.Injection
import WrCores.Endpoint.RxVlan
import WrCores.Endpoint.RxBuffer
import WrCores.Endpoint.RtuHeader
import WrCores.Endpoint.RtuFrames
import WrCores.Endpoint.RtuPhases
import WrCores.Endpoint.RtuRequests
import WrCores.Endpoint.MatchBuffer
import WrCores.Endpoint.Verdicts
import WrCores.PpsGen.Counters
import WrCores.PpsGen.Adjust
import WrCores.PpsGen.Valid
import WrCores.MiniNic.Tx
import WrCores.MiniNic.Rx
import WrCores.Eca.Queue
import WrCores.Eca.WbEvent
import WrCores.Heap.Chain
import WrCores.Heap.Stack
import WrCores.Eca.Wbm
import WrCores.Eca.WbmMemory
import WrCores.Eca.Offset
import WrCores.Eca.WrTime
import WrCores.Eca.Free
import WrCores.Eca.Channel
import WrCores.Eca.ChannelShake
import WrCores.Eca.ChannelRuns
import WrCores.Eca.Rmw
import WrCores.Eca.Slots
import WrCores.Eca.Msi
import WrCores.Eca.MsiRuns
import WrCores.Eca.MsiServices
import WrCores.Network.Compact
import WrCores.Eca.Piso
import WrCores.Eca.PisoRuns
import WrCores.Eca.Scan
import WrCores.Eca.ScanEntries
import WrCores.Eca.ScanRuns
import WrCores.Eca.ScanTimes
import WrCores.Eca.Adder
import WrCores.Eca.Walker
import WrCores.Eca.Search
import WrCores.Ordered.Map
import WrCores.PowTwo.Blocks
import WrCores.EcaLib.Table
import WrCores.EcaLib.TableMap
import WrCores.EcaLib.TableRuns
import WrCores.EcaLib.Records
import WrCores.EcaLib.Compile
import WrCores.EcaLib.Image
import WrCores.EcaLib.Decompile
import WrCores.EcaLib.Refill
import WrCores.Gf2.Affine
import WrCores.Endpoint.Crc32
import WrCores.Endpoint.CrcFrames
import WrCores.Endpoint.CrcInserter
import WrCores.Endpoint.TxVlan
import WrCores.Endpoint.RxSizeCheck
import WrCores.Endpoint.RxJudged
import WrCores.TbiPhy.Enc8b10b
import WrCores.TbiPhy.Dec8b10b
import WrCores.TbiPhy.Codes
import WrCores.TbiPhy.LineCode
import WrCores.Gencores.RoundRobin
import WrCores.Softpll.Tags
import WrCores.Endpoint.Autonegotiation
import WrCores.Endpoint.RxConfig16
import WrCores.Endpoint.RxWbMaster
import WrCores.Endpoint.PacketFilter
import WrCores.Endpoint.RxBufferFrames
import WrCores.Endpoint.RxVlanFrames
import WrCores.Endpoint.RxVlanPhases
import WrCores.Endpoint.RxVlanRuns
import WrCores.Endpoint.TxHeader
import WrCores.Endpoint.TxHeaderFrames
import WrCores.Endpoint.TxHeaderPhases
import WrCores.Endpoint.TxHeaderRuns
import WrCores.Endpoint.TxHeaderStamps
import WrCores.Dacs.SpecSerialDac
import WrCores.Dacs.SpecSerialDacArb
import WrCores.Samples.Stretches
import WrCores.Eca.TluFsm
import WrCores.Eca.Tlu
import WrCores.Eca.WbmChannel
import WrCores.Eca.WbmTape
import WrCores.Eca.WbmExecution
import WrCores.Gencores.BigAdder
import WrCores.I2c.Listener
import WrCores.Si57x.Interface
import WrCores.Si57x.Frames
import WrCores.Si57x.Updates
import WrCores.Timing.DmtdWithDeglitcher
import WrCores.Timing.DeglitcherMedian
import WrCores.Timing.DmtdPhaseMeas
import WrCores.WrTlu.Fsm
import WrCores.WrTlu.FsmRuns
import WrCores.WrTlu.Glitches
import WrCores.EcaLib.Seconds
import WrCores.Clocked.Machine
import WrCores.Eca.Bitonic
import WrCores.Eca.PartAdder
import WrCores.Network.Prefix
import WrCores.Eca.PrefixXor
import WrCores.Eca.Compact
import WrCores.Network.Bitonic
import WrCores.Timing.PhaseAverage
import WrCores.Endpoint.SyncDetect
import WrCores.Softpll.Aligner
import WrCores.Timing.PulseGen
import WrCores.Timing.PulseStamper
import WrCores.Endpoint.TimestampingUnit
import WrCores.Eca.GrayCode
import WrCores.Gencores.PulseSynchronizer
import WrCores.Genrams.AsyncFifo
import WrCores.Genrams.SyncFifo
import WrCores.TbiPhy.WrTbiPhy
import WrCores.Wishbone.CrossbarRuns
import WrCores.Endpoint.EarlyMatch
import WrCores.Wishbone.RegisterLink
import WrCores.Endpoint.SyncDetect16
import WrCores.Etherbone.StreamWiden
