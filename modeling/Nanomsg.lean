import Nanomsg.Aio.Order
import Nanomsg.Core.Endpoints
import Nanomsg.Core.Readiness
import Nanomsg.Core.Shutdown
import Nanomsg.Core.Statistics
import Nanomsg.Inproc.Buffering
import Nanomsg.Inproc.Consistency
import Nanomsg.Inproc.Handshake
import Nanomsg.Inproc.Refusal
import Nanomsg.Utils.Queue
import Nanomsg.Utils.Handle
import Nanomsg.Utils.Ownership
import Nanomsg.Utils.Copies
import Nanomsg.Utils.Contents
import Nanomsg.Core.Credits
import Nanomsg.Utils.Hash
import Nanomsg.Aio.Timerset
import Nanomsg.Aio.Timer
import Nanomsg.Aio.Worker
import Nanomsg.Aio.Completions
import Nanomsg.Aio.Poller
import Nanomsg.Aio.Pollset
import Nanomsg.Aio.Epoll
import Nanomsg.Aio.Kqueue
import Nanomsg.Aio.Batch
import Nanomsg.Utils.Realloc
import Nanomsg.Utils.Size
import Nanomsg.Aio.Compact
import Nanomsg.Utils.Bounds
import Nanomsg.Core.Blocking
import Nanomsg.Aio.Timeout
import Nanomsg.Core.Poll
import Nanomsg.Utils.Sem
import Nanomsg.Lib.Settings
import Nanomsg.Core.Options
import Nanomsg.Core.Roundtrip
import Nanomsg.Lib.Bracket
import Nanomsg.Core.Balance
import Nanomsg.Core.Onward
import Nanomsg.Core.Holds
import Nanomsg.Utils.Random
import Nanomsg.Utils.Spread
import Nanomsg.Utils.Strings
import Nanomsg.Utils.Growth
import Nanomsg.Utils.Cancellation
import Nanomsg.Utils.Sequence
import Nanomsg.Utils.Efd
import Nanomsg.Core.Connections
import Nanomsg.Lib.Potential
import Nanomsg.Aio.Settling
import Nanomsg.Lib.Lock
import Nanomsg.Core.Release
import Nanomsg.Utils.Lifetime
import Nanomsg.Core.Descriptors
import Nanomsg.Aio.Alarms
import Nanomsg.Aio.Port
import Nanomsg.Utils.Sharing
import Nanomsg.Core.Inheritance
import Nanomsg.Aio.Polling
import Nanomsg.Aio.Backends
import Nanomsg.Lib.BigEndian
import Nanomsg.Utils.Fields
import Nanomsg.Inproc.Completion
import Nanomsg.Inproc.Reporting
import Nanomsg.Inproc.Backpressure
