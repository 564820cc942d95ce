import NekoEcat.Core.Trace
import NekoEcat.Core.Bytes
import NekoEcat.Core.CScan
import NekoEcat.Core.QJson
import NekoEcat.Core.QString
import NekoEcat.Core.Lines
import NekoEcat.Core.Assoc
import NekoEcat.Core.QHash
import NekoEcat.Core.PathWalk
import NekoEcat.Core.Handles
import NekoEcat.Core.Fallible
import NekoEcat.Core.QNumber
import NekoEcat.Core.Double
import NekoEcat.Core.Regex
import NekoEcat.Core.LineRegex
import NekoEcat.Core.QArg
import NekoEcat.Core.Strip
import NekoEcat.Core.Fresh
import NekoEcat.Core.JsonText
import NekoEcat.Core.Commands
import NekoEcat.Core.Getopt
import NekoEcat.Core.Csv
import NekoEcat.Core.JsonRows
import NekoEcat.Core.Newest
import NekoEcat.Core.Grouping
import NekoEcat.Core.Patch
import NekoEcat.Core.Reading
import NekoEcat.Core.Markup
import NekoEcat.L1Abi.Shm
import NekoEcat.L1Abi.EniGenerator
import NekoEcat.L2Daemon.Mirror
import NekoEcat.L2Daemon.FreeRunShm
import NekoEcat.L2Daemon.BitPacked
import NekoEcat.L2Daemon.ReadClient
import NekoEcat.L2Daemon.FoE
import NekoEcat.L2Daemon.CStruct
import NekoEcat.L2Daemon.CStructRead
import NekoEcat.L2Daemon.FreeRunStart
import NekoEcat.L2Daemon.Registration
import NekoEcat.L2Daemon.NativeMaster
import NekoEcat.L2Daemon.NativeSdo
import NekoEcat.L2Daemon.NativeAddress
import NekoEcat.L2Daemon.NativeValues
import NekoEcat.L2Daemon.CliBackend
import NekoEcat.L2Daemon.Handlers
import NekoEcat.L2Daemon.OnlineChange
import NekoEcat.L2Daemon.SignalRing
import NekoEcat.L2Daemon.DcStatus
import NekoEcat.L2Daemon.DcJitter
import NekoEcat.L2Daemon.DcLive
import NekoEcat.L2Daemon.CliAnswers
import NekoEcat.L2Daemon.EoeAnswers
import NekoEcat.L2Daemon.StartupReport
import NekoEcat.L2Daemon.RtTest
import NekoEcat.L2Daemon.AdapterConfig
import NekoEcat.L2Daemon.AlEvents
import NekoEcat.L2Daemon.CliOptions
import NekoEcat.L2Daemon.Targets
import NekoEcat.L2Client.Layout
import NekoEcat.L2Client.Access
import NekoEcat.L2Client.Attach
import NekoEcat.L2Client.Lifecycle
import NekoEcat.L2Client.Pairing
import NekoEcat.L3Plane.LayoutCodec
import NekoEcat.L3Plane.DataPlane
import NekoEcat.L3Plane.TornView
import NekoEcat.L3Plane.LostWrite
import NekoEcat.L3Plane.Versions
import NekoEcat.L4Gui.EcatClient
import NekoEcat.L4Gui.ExactlyOnce
import NekoEcat.L4Gui.Rpc
import NekoEcat.L4Gui.Delivery
import NekoEcat.L4Gui.Success
import NekoEcat.L4Gui.MasterTarget
import NekoEcat.L4Gui.Framing
import NekoEcat.L4Gui.Connection
import NekoEcat.L4Gui.Reconnect
import NekoEcat.L4Gui.Heartbeat
import NekoEcat.L4Gui.Misses
import NekoEcat.L4Gui.AsyncOperation
import NekoEcat.L4Gui.AsyncPriority
import NekoEcat.L4Gui.AsyncLedger
import NekoEcat.L4Gui.AsyncRun
import NekoEcat.L4Gui.AsyncSlots
import NekoEcat.L4Gui.SdoValidation
import NekoEcat.L4Gui.SdoAgreement
import NekoEcat.L4Gui.SdoReadBack
import NekoEcat.L4Gui.SdoWrites
import NekoEcat.L4Gui.SdoObjects
import NekoEcat.L4Gui.SdoOutcomes
import NekoEcat.L4Gui.MasterRouting
import NekoEcat.L4Gui.StartupApply
import NekoEcat.L4Gui.HexText
import NekoEcat.L4Gui.StartupVerify
import NekoEcat.L4Gui.WatchTable
import NekoEcat.L4Gui.PdoListing
import NekoEcat.L4Gui.ProjectFile
import NekoEcat.L4Gui.ProjectOpen
import NekoEcat.L4Gui.ProjectRoundTrip
import NekoEcat.L4Gui.Consistency
import NekoEcat.L4Gui.ConsistencyGate
import NekoEcat.L4Gui.TopologyDiff
import NekoEcat.L4Gui.MappingStore
import NekoEcat.L4Gui.MappingFile
import NekoEcat.L4Gui.PlcNames
import NekoEcat.L4Gui.PlcHandoff
import NekoEcat.L4Gui.PlcComments
import NekoEcat.L4Gui.BulkNaming
import NekoEcat.L4Gui.MemoryPool
import NekoEcat.L4Gui.ProjectManager
import NekoEcat.L4Gui.ProjectSave
import NekoEcat.L4Gui.DcReading
import NekoEcat.L4Gui.PdoMappingValidator
import NekoEcat.L4Gui.SdoCache
import NekoEcat.L4Gui.EsiService
import NekoEcat.L4Gui.SdoEvidence
import NekoEcat.L4Gui.SignalService
import NekoEcat.L4Gui.ExportService
import NekoEcat.L4Gui.CoEService
import NekoEcat.L4Gui.Cia402Drive
import NekoEcat.L4Gui.SdoNumerals
import NekoEcat.L4Gui.StartupPreflight
import NekoEcat.L4Gui.WatchSync
import NekoEcat.L4Gui.WatchStartup
import NekoEcat.L4Gui.SaveFailure
import NekoEcat.L2Daemon.CyclicLife
import NekoEcat.L2Daemon.ProcessValues
import NekoEcat.L2Daemon.MasterCache
import NekoEcat.Core.Utf8
import NekoEcat.L2Client.OkTest
import NekoEcat.L4Gui.PdoMapEvidence
import NekoEcat.L4Gui.ChangeFlags
import NekoEcat.Core.Firsts
import NekoEcat.L4Gui.IoVariables
import NekoEcat.L4Gui.IoVariableMerge
import NekoEcat.L4Gui.ChartFeeds
import NekoEcat.L4Gui.PendingSdo
import NekoEcat.Core.SortByKey
import NekoEcat.L4Gui.SlaveEvidence
import NekoEcat.L2Daemon.Redundancy
import NekoEcat.L2Daemon.BackendSwitch
import NekoEcat.L4Gui.PdoConfiguration
import NekoEcat.L2Daemon.EoeRoundTrip
import NekoEcat.Core.XmlTree
import NekoEcat.L2Daemon.DcModes
import NekoEcat.L4Gui.StateMachine
import NekoEcat.L4Gui.TraceSampling
import NekoEcat.L4Gui.OpcUa
import NekoEcat.L4Gui.LogRotation
import NekoEcat.Core.Kahn
import NekoEcat.L4Gui.Dependencies
import NekoEcat.Core.Layers
import NekoEcat.L4Gui.ParallelPlan
import NekoEcat.L2Client.LineReceiver
