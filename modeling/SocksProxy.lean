import SocksProxy.Lib.Run
import SocksProxy.Lib.Feed
import SocksProxy.Lib.Heap
import SocksProxy.Buffer
import SocksProxy.Selector
import SocksProxy.Stm
import SocksProxy.HelloParser
import SocksProxy.MyParser
import SocksProxy.RequestParser
import SocksProxy.Users
import SocksProxy.Dissector
import SocksProxy.Hello
import SocksProxy.Authentication
import SocksProxy.Lib.Pipe
import SocksProxy.EndOfStream
import SocksProxy.RequestStream
import SocksProxy.Malformed
import SocksProxy.Footing
import SocksProxy.Course
import SocksProxy.Negotiation
import SocksProxy.Management
import SocksProxy.Tracking
import SocksProxy.Attempts
import SocksProxy.Frame
import SocksProxy.Simulation
import SocksProxy.Passage
import SocksProxy.Replies
import SocksProxy.OneReply
import SocksProxy.Fallback
import SocksProxy.Accounting
import SocksProxy.Handlers
import SocksProxy.Boot
import SocksProxy.Framing
import SocksProxy.Answers
import SocksProxy.Credentials
import SocksProxy.ClientReplies
import SocksProxy.ClientRequests
import SocksProxy.Dispatch
import SocksProxy.Inspection
import SocksProxy.Listing
import SocksProxy.Averages
import SocksProxy.RequestWire
import SocksProxy.RequestDecoding
import SocksProxy.RequestBounds
import SocksProxy.Messages
import SocksProxy.Methods
import SocksProxy.UserList
import SocksProxy.Membership
import SocksProxy.Lib.Scan
import SocksProxy.Logins
import SocksProxy.EarlyLimit
import SocksProxy.Dissection
import SocksProxy.HalfClose
import SocksProxy.Gate
import SocksProxy.Lib.Throughout
import SocksProxy.Registrations
import SocksProxy.Indexing
import SocksProxy.Lib.Links
import SocksProxy.Pools
import SocksProxy.Lib.CString
import SocksProxy.Loading
import SocksProxy.Lib.Live
import SocksProxy.Leaks
import SocksProxy.Lib.Fifo
import SocksProxy.Queue
import SocksProxy.Lib.Follow
import SocksProxy.Engine
import SocksProxy.Hooks
import SocksProxy.Netutils
import SocksProxy.Lib.Crowd
import SocksProxy.Conduct
import SocksProxy.Deeds
import SocksProxy.Reach
import SocksProxy.Parting
import SocksProxy.Turns
import SocksProxy.Tenure
import SocksProxy.Process
import SocksProxy.Isolation
import SocksProxy.Interleaving
import SocksProxy.Arrivals
import SocksProxy.Concurrency
import SocksProxy.Whole
import SocksProxy.Resolution
import SocksProxy.Ledger
import SocksProxy.Gauge
import SocksProxy.Polling
import SocksProxy.MainLoop
import SocksProxy.Custody
import SocksProxy.Startup
import SocksProxy.Settings
import SocksProxy.Shutdown
