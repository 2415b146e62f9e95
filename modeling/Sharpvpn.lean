import Sharpvpn.Foundation.Machine
import Sharpvpn.Foundation.Duplex
import Sharpvpn.Foundation.SlotTable
import Sharpvpn.Foundation.RingBuffer
import Sharpvpn.Foundation.Framing
import Sharpvpn.Foundation.Groups
import Sharpvpn.Crypto
import Sharpvpn.Rudp.Package
import Sharpvpn.Rudp.NetStruct
import Sharpvpn.Rudp.SendPools
import Sharpvpn.Rudp.RecvSide
import Sharpvpn.Rudp.SendSide
import Sharpvpn.Rudp.ReliableSocket
import Sharpvpn.Rudp.Transitions
import Sharpvpn.Rudp.Halves
import Sharpvpn.Rudp.Projection
import Sharpvpn.Rudp.Trace
import Sharpvpn.Rudp.RecvCounter
import Sharpvpn.Rudp.RecvPool
import Sharpvpn.Rudp.SendCounter
import Sharpvpn.Rudp.SendFrom
import Sharpvpn.Rudp.Assigned
import Sharpvpn.Rudp.Rings
import Sharpvpn.Rudp.Life
import Sharpvpn.Rudp.Connection
import Sharpvpn.Rudp.Agreement
import Sharpvpn.Rudp.Delivery
import Sharpvpn.Rudp.Completeness
import Sharpvpn.Rudp.Packing
import Sharpvpn.Rudp.Transfer
import Sharpvpn.Rudp.Forgery
import Sharpvpn.Rudp.Responsibility
import Sharpvpn.Rudp.References
import Sharpvpn.Rudp.FastResend
import Sharpvpn.Rudp.Lifetime
import Sharpvpn.Rudp.HandOff
import Sharpvpn.Rudp.PackLoop
import Sharpvpn.Rudp.Window
import Sharpvpn.Rudp.AckOrder
import Sharpvpn.Foundation.LongestPrefix
import Sharpvpn.Rudp.Handshake
import Sharpvpn.Vpn.Inet
import Sharpvpn.Vpn.UserTable
import Sharpvpn.Vpn.RouteTable
import Sharpvpn.Vpn.Bypass
import Sharpvpn.Foundation.Bisection
import Sharpvpn.Vpn.TearDown
import Sharpvpn.Vpn.Chinadns
import Sharpvpn.Foundation.FieldReader
import Sharpvpn.Rudp.Wire
import Sharpvpn.Rudp.Arrivals
import Sharpvpn.Rudp.RealAcks
import Sharpvpn.Foundation.Batches
import Sharpvpn.Rudp.AckSender
import Sharpvpn.Rudp.Closing
import Sharpvpn.Rudp.Negotiation
import Sharpvpn.Rudp.Wakeup
import Sharpvpn.Foundation.LatestEntries
import Sharpvpn.Rudp.WaitList
import Sharpvpn.Rudp.PortSearch
import Sharpvpn.Vpn.SharpTunnel
import Sharpvpn.Vpn.Token
import Sharpvpn.Rudp.QueueHistory
import Sharpvpn.Rudp.QueueRefinement
import Sharpvpn.Foundation.Metering
import Sharpvpn.Rudp.RateLimit
import Sharpvpn.Foundation.Layout
import Sharpvpn.Dns.NsParser
import Sharpvpn.Dns.WireMessage
import Sharpvpn.Dns.RecordAccess
import Sharpvpn.Dns.Filter
import Sharpvpn.Dns.Proxy
import Sharpvpn.Dns.ProxySpec
import Sharpvpn.Dns.ProxyRefinement
import Sharpvpn.Dns.ProxyRuns
import Sharpvpn.Vpn.PackageParser
import Sharpvpn.Vpn.Session
import Sharpvpn.Vpn.SessionSteps
import Sharpvpn.Rudp.Streams
import Sharpvpn.Vpn.SessionLinks
import Sharpvpn.Vpn.SessionIntake
import Sharpvpn.Vpn.SessionForwarding
import Sharpvpn.Vpn.SessionGreetings
import Sharpvpn.Vpn.SessionAddresses
import Sharpvpn.Vpn.SessionRuns
import Sharpvpn.Vpn.SessionTables
