import Netepoll.CrossTalk
import Netepoll.ShortWrites
import Netepoll.Descriptors
import Netepoll.MainLoop
import Netepoll.Segmentation
import Netepoll.Leftover
import Netepoll.Lockstep
import Netepoll.Accepting
import Netepoll.MemoryBounds
import Netepoll.ExactRead
import Netepoll.InheritedFlag
import Netepoll.LostTimeout
import Netepoll.BcdAgree
import Netepoll.HexDump
import Netepoll.Dates
import Netepoll.LoginInfo
import Netepoll.LogRotation
import Netepoll.LatestLog
import Netepoll.Checksum
import Netepoll.BcdLocality
import Netepoll.SlotCalls
import Netepoll.Delivery
import Netepoll.Spaces
import Netepoll.Lib.Ring
import Netepoll.Lib.Tally
import Netepoll.Threadpool
import Netepoll.PoolMoves
import Netepoll.Lib.Mutex
import Netepoll.PoolCreate
import Netepoll.PoolRuns
import Netepoll.PoolProgress
import Netepoll.PooledRefinement
import Netepoll.PooledRuns
import Netepoll.DebugLevel
import Netepoll.GetInit
import Netepoll.Lib.Inet
import Netepoll.Lib.Program
import Netepoll.Lib.Selective
import Netepoll.ListenLoop
import Netepoll.MessageQueues
import Netepoll.PrivateQueues
import Netepoll.Startup
import Netepoll.LetterCase
import Netepoll.RawDump
import Netepoll.SingleRead
import Netepoll.SockFlags
import Netepoll.LoggedRecords
import Netepoll.SocketThreads
