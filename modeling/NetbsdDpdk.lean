import NetbsdDpdk.Transition
import NetbsdDpdk.Fifo
import NetbsdDpdk.LinkedChain
import NetbsdDpdk.Mbuf
import NetbsdDpdk.Command
import NetbsdDpdk.ReceiveApi
import NetbsdDpdk.ReceiveCut
import NetbsdDpdk.ReceiveShape
import NetbsdDpdk.ReceiveFree
import NetbsdDpdk.ReceiveSystem
import NetbsdDpdk.ReceiveStream
import NetbsdDpdk.ReceiveRelease
import NetbsdDpdk.StackMbuf
import NetbsdDpdk.SoReceive
import NetbsdDpdk.SoReceiveSpec
import NetbsdDpdk.SockbufSpec
import NetbsdDpdk.TxCredit
import NetbsdDpdk.Transmit
import NetbsdDpdk.TransmitStream
import NetbsdDpdk.Service
import NetbsdDpdk.SlotOwnership
import NetbsdDpdk.SlotLink
import NetbsdDpdk.SlotIsolation
import NetbsdDpdk.SlotConservation
import NetbsdDpdk.SocketFrame
import NetbsdDpdk.AcceptQueue
import NetbsdDpdk.SocketClose
import NetbsdDpdk.SocketLink
import NetbsdDpdk.ReadyLists
import NetbsdDpdk.CommandSystem
import NetbsdDpdk.Conservation
import NetbsdDpdk.CommandFlow
import NetbsdDpdk.CommandInvariant
import NetbsdDpdk.CommandBuffers
import NetbsdDpdk.AcceptPath
import NetbsdDpdk.RxKinds
import NetbsdDpdk.ReadableWakeup
import NetbsdDpdk.DeliveryPath
import NetbsdDpdk.BackPressure
import NetbsdDpdk.HalfClosed
import NetbsdDpdk.TransmitKick
import NetbsdDpdk.KickFailure
import NetbsdDpdk.ReadyFlags
import NetbsdDpdk.SelectEvents
import NetbsdDpdk.SlotReuse
import NetbsdDpdk.CopySpec
import NetbsdDpdk.DatagramReceive
import NetbsdDpdk.ReceiveFifo
import NetbsdDpdk.SendBytes
import NetbsdDpdk.SendQueue
import NetbsdDpdk.AcceptPass
import NetbsdDpdk.CloseLoop
import NetbsdDpdk.ByteOrder
import NetbsdDpdk.ClosureEvents
import NetbsdDpdk.NullSocket
import NetbsdDpdk.SigHandler
import NetbsdDpdk.SockaddrPaths
import NetbsdDpdk.DeviceTransmit
import NetbsdDpdk.ReceiveLengths
import NetbsdDpdk.AppendAddr
import NetbsdDpdk.FdArrays
import NetbsdDpdk.ListenAccept
import NetbsdDpdk.RxDelivery
import NetbsdDpdk.SegmentCount
import NetbsdDpdk.SelectRuns
import NetbsdDpdk.TransmitBurst
import NetbsdDpdk.TransmitSpace
import NetbsdDpdk.WaiterLoop
import NetbsdDpdk.ConnectBind
import NetbsdDpdk.PacketCopies
import NetbsdDpdk.PacketHeader
import NetbsdDpdk.Prepend
import NetbsdDpdk.SockbufFlush
import NetbsdDpdk.Callout
import NetbsdDpdk.PercpuStorage
import NetbsdDpdk.SocketTimeout
import NetbsdDpdk.AddressMbufs
import NetbsdDpdk.BulkSend
import NetbsdDpdk.ClientIds
import NetbsdDpdk.ReadyCounters
import NetbsdDpdk.SegmentWalk
import NetbsdDpdk.MpmcRing
