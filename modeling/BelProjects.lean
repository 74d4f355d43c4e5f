import BelProjects.Common.StateMachine
import BelProjects.Fbas.NewCycle
import BelProjects.Fbas.Supervision
import BelProjects.Fbas.Pacing
import BelProjects.Fbas.Timers
import BelProjects.Fbas.Senders
import BelProjects.DataMaster.Scheduler.Running
import BelProjects.DataMaster.Blocks.Interleaving
import BelProjects.DataMaster.Schedule.AlignedRuns
import BelProjects.DataMaster.Blocks.Deactivated
import BelProjects.DataMaster.Blocks.Flush
import BelProjects.DataMaster.Schedule.Times
import BelProjects.DataMaster.Scheduler.Faults
import BelProjects.DataMaster.Scheduler.MsgCount
import BelProjects.DataMaster.Scheduler.Served
import BelProjects.DataMaster.Scheduler.Edf
import BelProjects.DataMaster.Alloc.Sequences
import BelProjects.DataMaster.Commands.RoundTrip
import BelProjects.DataMaster.Dot.RoundTrip
import BelProjects.DataMaster.CarpeDM.Failures
import BelProjects.BurstGen.Production
import BelProjects.BurstGen.Disabled
import BelProjects.PrioQueue.Arbiter
import BelProjects.PrioQueue.QueueUnit
import BelProjects.PrioQueue.Minimum
import BelProjects.B2b.Transfers
import BelProjects.B2b.Times
import BelProjects.B2b.Network
import BelProjects.B2b.KickDiagnosis
import BelProjects.Library.CheckedArray
import BelProjects.B2b.PhaseFit
import BelProjects.B2b.PhaseMeasurement
import BelProjects.B2b.PhaseAccuracy
import BelProjects.DmUnipz.Withdrawal
import BelProjects.DmUnipz.LiveRequests
import BelProjects.WrMil.Spacing
import BelProjects.WrMil.TimeOfDay
import BelProjects.WrMil.F50Validity
import BelProjects.WrMil.F50Limits
import BelProjects.WrMil.F50Forecast
import BelProjects.Common.HalfAccuracy
import BelProjects.Library.Multigraph
import BelProjects.ScheduleCompare.Graph
import BelProjects.ScheduleCompare.Soundness
import BelProjects.ScheduleCompare.Relation
import BelProjects.ScheduleCompare.ChainTypes
import BelProjects.DmUnipz.FlushWriters
import BelProjects.DataMaster.Blocks.Windows
import BelProjects.DataMaster.Commands.Send
import BelProjects.ButisT0.TimestampEncoder
import BelProjects.ButisT0.Bursts
import BelProjects.ButisT0.TimestampDecoder
import BelProjects.ButisT0.Reception
import BelProjects.ButisT0.Disturbed
import BelProjects.ButisT0.RoundTrip
import BelProjects.DataMaster.CarpeDM.ResidentEdges
import BelProjects.Library.Interference
import BelProjects.Library.Marks
import BelProjects.SerdesClkGen.Generator
import BelProjects.SerdesClkGen.Edges
import BelProjects.SerdesClkGen.SyncFsm
import BelProjects.SerdesClkGen.SyncPass
import BelProjects.SerdesClkGen.Seamless
import BelProjects.FgQuad.Datapath
import BelProjects.FgQuad.Segments
import BelProjects.FgQuad.Ramps
import BelProjects.FgQuad.Accesses
import BelProjects.FgQuad.Timely
import BelProjects.FgQuad.TupleRuns
import BelProjects.FgQuad.Stop
import BelProjects.WrUnipz.Operation
import BelProjects.WrUnipz.Tables
import BelProjects.WrUnipz.Cycles
import BelProjects.WrUnipz.Exchange
import BelProjects.WrUnipz.Orderly
import BelProjects.WrUnipz.Words
import BelProjects.DataMaster.Commands.Locks
import BelProjects.DataMaster.Commands.Bursts
import BelProjects.DataMaster.Commands.Writes
import BelProjects.DataMaster.Commands.FrontEnds
import BelProjects.DataMaster.Alloc.MgmtList
import BelProjects.DataMaster.Alloc.MgmtSpace
import BelProjects.DataMaster.Alloc.Perspectives
import BelProjects.DataMaster.CarpeDM.Renumbering
import BelProjects.DataMaster.CarpeDM.ReverseTree
import BelProjects.DataMaster.CarpeDM.RoundTrip
import BelProjects.DataMaster.Blocks.FlowVisits
import BelProjects.DataMaster.Blocks.Taken
import BelProjects.DataMaster.Commands.QueueReport
import BelProjects.DataMaster.CarpeDM.StaleDefault
import BelProjects.DataMaster.Scheduler.LeadTime
import BelProjects.DataMaster.Schedule.Sequences
import BelProjects.DataMaster.Dot.Restaging
import BelProjects.DataMaster.CarpeDM.Orphans
import BelProjects.DataMaster.Dot.EventIds
import BelProjects.DataMaster.Blocks.NullTarget
import BelProjects.DataMaster.CarpeDM.Neighbourhood
import BelProjects.DataMaster.CarpeDM.Merging
import BelProjects.DataMaster.CarpeDM.Additions
import BelProjects.DataMaster.Commands.PendingTaken
import BelProjects.ScuMil.EventReceiver
import BelProjects.Fbas.Statistics
import BelProjects.WrUnipz.Prediction
import BelProjects.WrUnipz.ServiceEvents
import BelProjects.UniChop.Readback
import BelProjects.UniChop.Measurements
import BelProjects.ScuFg.Delivery
import BelProjects.ScuFg.Refill
