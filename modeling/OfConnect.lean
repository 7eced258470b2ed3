import OfConnect.PollThr.Conservation
import OfConnect.Core.Consistency
import OfConnect.Core.Channels
import OfConnect.Core.Orphans
import OfConnect.PollThr.Framing
import OfConnect.PollThr.Teardown
import OfConnect.Locks.Order
import OfConnect.Locks.Callbacks
import OfConnect.Locks.Deadlock
import OfConnect.Accept.System
import OfConnect.Accept.Announce
import OfConnect.Accept.Delivery
import OfConnect.Lib.Ranked
import OfConnect.Pool.Moves
import OfConnect.Pool.Sorted
import OfConnect.Pool.Lifecycle
import OfConnect.Pool.Concurrent
import OfConnect.PollThr.Handshake
import OfConnect.Udp.Demux
import OfConnect.Udp.Reply
import OfConnect.PollThr.Manager
import OfConnect.Core.Objects
import OfConnect.Pool.Descriptors
import OfConnect.Pool.Listening
import OfConnect.Pool.Closing
import OfConnect.Pool.Devices
import OfConnect.Pool.DevWalk
import OfConnect.Pool.LibFree
import OfConnect.Pool.Opening
import OfConnect.Pool.Destroy
import OfConnect.Pool.Threads
import OfConnect.Core.Fresh
import OfConnect.Core.Hash
import OfConnect.PollThr.Logging
import OfConnect.PollThr.Walk
import OfConnect.PollThr.Dispatch
import OfConnect.PollThr.Writes
import OfConnect.PollThr.Transport
import OfConnect.Lib.Links
import OfConnect.Lib.Blocks
import OfConnect.PollThr.Blocks
import OfConnect.PollThr.Returns
import OfConnect.PollThr.Memory
import OfConnect.PollThr.Callers
import OfConnect.Core.SocketLists
import OfConnect.Log.File
import OfConnect.Log.Names
