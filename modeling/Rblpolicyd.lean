import Rblpolicyd.Config.Grammar
import Rblpolicyd.Request.Client
import Rblpolicyd.Verdict.Lookup
import Rblpolicyd.Verdict.Tally
import Rblpolicyd.Semantics.Run
import Rblpolicyd.Session.Step
import Rblpolicyd.Semantics.Mutex
import Rblpolicyd.Session.Transitions
import Rblpolicyd.Session.Locking
import Rblpolicyd.Session.Records
import Rblpolicyd.Session.Tallied
import Rblpolicyd.Session.Verdict
import Rblpolicyd.Session.Join
import Rblpolicyd.Session.Reply
import Rblpolicyd.Daemon.Manager
import Rblpolicyd.Daemon.Server
import Rblpolicyd.Daemon.Transitions
import Rblpolicyd.Daemon.ListLifetime
import Rblpolicyd.Daemon.Pool
import Rblpolicyd.Daemon.Locking
import Rblpolicyd.Daemon.Requests
import Rblpolicyd.Semantics.WaitsFor
import Rblpolicyd.Session.Progress
import Rblpolicyd.System.Mutexes
import Rblpolicyd.System.Step
import Rblpolicyd.System.Coherence
import Rblpolicyd.System.Deadlock
import Rblpolicyd.Config.Memory
import Rblpolicyd.System.Replies
import Rblpolicyd.System.InForce
import Rblpolicyd.Daemon.Polling
import Rblpolicyd.Daemon.Shutdown
import Rblpolicyd.Session.Lifetime
import Rblpolicyd.Session.Sequential
import Rblpolicyd.Request.Reversed
import Rblpolicyd.Request.LookupName
import Rblpolicyd.System.Counters
import Rblpolicyd.System.Connections
import Rblpolicyd.Daemon.ThreadList
import Rblpolicyd.Daemon.Traversal
import Rblpolicyd.Daemon.FreedNodes
import Rblpolicyd.Request.LineEnd
import Rblpolicyd.Libc.Block
import Rblpolicyd.Request.Receive
import Rblpolicyd.Request.Framing
import Rblpolicyd.Request.BufferBounds
import Rblpolicyd.Data.RingBuffer
import Rblpolicyd.Stats.Duration
import Rblpolicyd.Stats.Average
import Rblpolicyd.Stats.Times
import Rblpolicyd.Stats.Lazy
import Rblpolicyd.Daemon.SoloCalls
import Rblpolicyd.Config.LongLines
import Rblpolicyd.Request.Address
import Rblpolicyd.Session.Lookups
import Rblpolicyd.Pidfile.Check
import Rblpolicyd.Session.Overflow
import Rblpolicyd.Session.ReplyBuffer
import Rblpolicyd.Libc.Printf
import Rblpolicyd.Config.Dump
import Rblpolicyd.Session.LogFormat
import Rblpolicyd.Semantics.Gauge
import Rblpolicyd.System.Load
import Rblpolicyd.Libc.Rotation
import Rblpolicyd.Options.Getopt
import Rblpolicyd.Options.Scan
import Rblpolicyd.Options.CommandLine
import Rblpolicyd.Options.Settings
import Rblpolicyd.Snprintf.Dopr
import Rblpolicyd.Snprintf.Bounds
import Rblpolicyd.Snprintf.Integers
import Rblpolicyd.Snprintf.Pieces
import Rblpolicyd.Snprintf.Library
import Rblpolicyd.Stats.Running
import Rblpolicyd.Config.Reload
import Rblpolicyd.System.Startup
import Rblpolicyd.Session.Termination
import Rblpolicyd.Session.Memory
import Rblpolicyd.System.Termination
import Rblpolicyd.Request.Delivered
import Rblpolicyd.System.Service
