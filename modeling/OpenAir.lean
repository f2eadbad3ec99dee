import OpenAir.Lib.BitField
import OpenAir.Rlc.Am.Constants
import OpenAir.Rlc.Am.StatusPdu
import OpenAir.Rlc.Am.BitCursor
import OpenAir.Rlc.Am.StatusCodec
import OpenAir.Rlc.Am.DataPdu
import OpenAir.Rlc.Am.DataPduFields
import OpenAir.Rlc.Am.DecoderBounds
import OpenAir.Rlc.Am.StatusReceive
import OpenAir.Lib.Serial
import OpenAir.Rlc.Am.StatusWalk
import OpenAir.Rlc.Am.StatusSafety
import OpenAir.Rlc.Am.Segment
import OpenAir.Rlc.Am.Retransmit
import OpenAir.Lib.Run
import OpenAir.Rlc.Am.TxFrame
import OpenAir.Rlc.Am.TxWindow
import OpenAir.Rlc.Am.Cut
import OpenAir.Rlc.Am.Queue
import OpenAir.Rlc.Am.Reserve
import OpenAir.Rlc.Am.LiEntry
import OpenAir.Rlc.Am.SegmentMemory
import OpenAir.Rlc.Am.SegmentQueue
import OpenAir.Rlc.Am.SegmentDecode
import OpenAir.Rlc.Am.Pieces
import OpenAir.Rlc.Am.ResegmentPlan
import OpenAir.Rlc.Am.ResegmentWrite
import OpenAir.Rlc.Am.Resegment
import OpenAir.Rlc.Am.ResegmentRun
import OpenAir.Lib.Interval
import OpenAir.Rlc.Am.RxBuffer
import OpenAir.Rlc.Am.StatusSend
import OpenAir.Rlc.Am.StatusRanges
import OpenAir.Rlc.Am.StatusReport
import OpenAir.Rlc.Am.StatusExact
import OpenAir.Pdcp.Entity
import OpenAir.Pdcp.Count
import OpenAir.Pdcp.DataTransfer
import OpenAir.Pdcp.Duplicates
import OpenAir.Pdcp.Integrity
import OpenAir.Pdcp.RoundTrip
import OpenAir.Rlc.Am.RetxAccount
import OpenAir.Rlc.Am.RetxRun
import OpenAir.Rlc.Um.Dar
import OpenAir.Rlc.Um.Frame
import OpenAir.Rlc.Um.Window
import OpenAir.Rlc.Um.Receive
import OpenAir.Rlc.Um.Reordering
import OpenAir.Rlc.Um.LengthIndicators
import OpenAir.Rlc.Um.Refused
import OpenAir.Rlc.Um.Delivery
import OpenAir.Rlc.Um.Segment
import OpenAir.Rlc.Um.SegmentCut
import OpenAir.Rlc.Um.SegmentWrite
import OpenAir.Rlc.Um.SegmentDecode
import OpenAir.Lib.Linked
import OpenAir.Mac.UeList
import OpenAir.Mac.DlHarq
import OpenAir.Mac.Pdu.ParseHeader
import OpenAir.Mac.Pdu.HeaderBounds
import OpenAir.Mac.Pdu.HeaderWriter
import OpenAir.Mac.Pdu.Framing
import OpenAir.Mac.Pdu.UlHeader
import OpenAir.Mac.Pdu.DlHeader
import OpenAir.Mac.Pdu.DlRoundTrip
import OpenAir.Mac.UlGrant
import OpenAir.Mac.UlHarq
import OpenAir.Mac.Cce
import OpenAir.Phy.Segmentation
import OpenAir.Rlc.Am.Reestablish
import OpenAir.Phy.CodeBlocks
import OpenAir.Lib.Circular
import OpenAir.Phy.RateMatching
import OpenAir.Phy.SoftCombining
import OpenAir.Phy.RateInverse
import OpenAir.Lib.Interleave
import OpenAir.Mac.Ra.Collision
import OpenAir.Phy.DlEncoding
import OpenAir.Mac.Ra.Carrier
import OpenAir.Mac.Ra.Distinct
import OpenAir.Phy.PdcchInterleave
import OpenAir.Phy.PdcchMapping
import OpenAir.Phy.PdcchUndone
import OpenAir.Lib.Simd
import OpenAir.Phy.TurboEncoder
import OpenAir.Phy.TurboEncoderSse
import OpenAir.Phy.TurboInterchange
import OpenAir.Nas.Forged
import OpenAir.Nas.RoundTrip
import OpenAir.Nas.EmmAs
import OpenAir.Nas.CountAgreement
import OpenAir.Nas.TrafficFlow
import OpenAir.Utils.Hashtable
import OpenAir.Utils.HashtableMap
import OpenAir.Utils.MemoryPools
import OpenAir.Utils.MemoryRing
import OpenAir.Utils.MemoryPoolsRuns
import OpenAir.Rlc.Am.HolePlan
import OpenAir.Lib.Spans
import OpenAir.Rlc.Am.HoleSegment
import OpenAir.Rlc.Am.RetxCover
import OpenAir.Rlc.Am.NackHoles
import OpenAir.Rlc.Am.RetxCoverRun
import OpenAir.Rlc.Am.NewSegment
import OpenAir.Rlc.Am.SplitReassembly
import OpenAir.Rlc.Am.SplitSegment
import OpenAir.Agent.SliceConfig
import OpenAir.Agent.SliceAdmission
import OpenAir.Rlc.Am.StatusForecast
import OpenAir.Rlc.Am.StatusOccupancy
import OpenAir.Rlc.Am.OccupancyAgrees
import OpenAir.Lib.RingQueue
import OpenAir.Rlc.Am.InputQueue
import OpenAir.Rlc.Am.InputQueueRun
import OpenAir.Rlc.Am.SegmentLists
import OpenAir.Rlc.Am.PollFrame
import OpenAir.Rlc.Am.Polling
import OpenAir.Rlc.Am.RetxBound
import OpenAir.Rlc.Am.StatusRefusal
import OpenAir.Mac.PreProcessor.DlRbg
import OpenAir.Mac.PreProcessor.RbgCount
import OpenAir.Mac.PreProcessor.RbgAgreement
import OpenAir.Lib.Table
import OpenAir.Phy.ResourceIndication
import OpenAir.Mac.PreProcessor.RbDemand
import OpenAir.Mac.Ra.PreambleSelection
import OpenAir.Lib.Comparison
import OpenAir.Mac.UeOrder
import OpenAir.Lib.Writes
import OpenAir.Mac.CceProbe
import OpenAir.Lib.Carousel
import OpenAir.Phy.Convolutional
import OpenAir.Mac.UlIndices
import OpenAir.Mac.BufferStatus
import OpenAir.Mac.BufferStatusRun
import OpenAir.Mac.DlSizing
import OpenAir.Mac.FairRR
import OpenAir.Lib.Recurrence
import OpenAir.Mac.BsrIndex
import OpenAir.Mac.HarqIndication
import OpenAir.Phy.Gold
import OpenAir.Lib.BitPolynomial
import OpenAir.Phy.Crc
import OpenAir.Phy.CrcRemainder
import OpenAir.Lib.DoublyLinked
import OpenAir.Utils.Lists
import OpenAir.Utils.ListsRefine
import OpenAir.Utils.ListCount
import OpenAir.Nas.Timer
import OpenAir.Nas.TimerQueue
import OpenAir.Nas.TimerSteps
import OpenAir.Nas.TimerRun
import OpenAir.Mac.FairRun
import OpenAir.Nas.TrafficFlowAccess
import OpenAir.Rlc.Am.StatusStop
import OpenAir.Rlc.Am.MacRequest
import OpenAir.Rlc.Am.MacSent
