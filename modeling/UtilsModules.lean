import UtilsModules.Udp.SenderWindow
import UtilsModules.Udp.Recovery
import UtilsModules.Udp.Retransmission
import UtilsModules.Udp.CheckInterval
import UtilsModules.Udp.GapReport
import UtilsModules.Udp.Listen
import UtilsModules.Udp.Checksum
import UtilsModules.Udp.Handshake
import UtilsModules.Udp.Cursors
import UtilsModules.Udp.LinkTables
import UtilsModules.Udp.Ownership
import UtilsModules.Udp.MsgQueue
import UtilsModules.Udp.Closing
import UtilsModules.Udp.ListenPass
import UtilsModules.Udp.MessageOrder
import UtilsModules.Pool.Allocation
import UtilsModules.Pool.Overflow
import UtilsModules.Pool.Usage
import UtilsModules.Pool.Accounting
import UtilsModules.Pool.Teardown
import UtilsModules.Timer.Schedule
import UtilsModules.Timer.Kinds
import UtilsModules.Timer.WakeUp
import UtilsModules.Fifo.Traffic
import UtilsModules.Fifo.Concurrent
import UtilsModules.Fifo.Construction
import UtilsModules.Thread.Mutex
import UtilsModules.Thread.Registry
import UtilsModules.Thread.Suspension
import UtilsModules.Thread.Atomic
import UtilsModules.Datastruct.BubbleSort
import UtilsModules.Datastruct.ArrayGrowth
import UtilsModules.Datastruct.RbRun
import UtilsModules.Datastruct.IdrRun
import UtilsModules.Datastruct.ListRun
import UtilsModules.Datastruct.StringTokens
import UtilsModules.Datastruct.StringSearch
import UtilsModules.Datastruct.StringScan
import UtilsModules.Log.Length
