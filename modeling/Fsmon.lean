import Fsmon.Lib.Run
import Fsmon.Lib.Bisect
import Fsmon.Lib.HashMap
import Fsmon.Lib.Latest
import Fsmon.Lib.SlotMap
import Fsmon.Lib.FsTree
import Fsmon.Lib.Bfs
import Fsmon.Lib.Tenths
import Fsmon.Lib.NestedMap
import Fsmon.Lib.FdTable
import Fsmon.Lib.Checked
import Fsmon.Lib.Bpf
import Fsmon.Lib.JsonText
import Fsmon.Lib.JsonPrint
import Fsmon.Lib.Broadcast
import Fsmon.Lib.Readiness
import Fsmon.Lib.Credentials
import Fsmon.Lib.Refine
import Fsmon.Text
import Fsmon.Text.Encode
import Fsmon.Text.Decode
import Fsmon.Event
import Fsmon.Query
import Fsmon.Query.LowerBound
import Fsmon.Query.Changes
import Fsmon.Jsonl
import Fsmon.Jsonl.Document
import Fsmon.Jsonl.Serde
import Fsmon.Jsonl.Local
import Fsmon.DirCache
import Fsmon.DirCache.Bounded
import Fsmon.ProcCache
import Fsmon.ProcCache.Gaps
import Fsmon.ProcCache.Health
import Fsmon.ProcCache.Names
import Fsmon.LogWriter
import Fsmon.LogWriter.Conserve
import Fsmon.LogWriter.Stream
import Fsmon.LogWriter.Order
import Fsmon.LogWriter.Clean
import Fsmon.LogWriter.Untroubled
import Fsmon.LogWriter.Names
import Fsmon.LogWriter.Scheduled
import Fsmon.LogWriter.Bounded
import Fsmon.Crash
import Fsmon.Options
import Fsmon.Store
import Fsmon.Monitor
import Fsmon.Monitor.LivePath
import Fsmon.Monitor.Events
import Fsmon.Monitor.Publish
import Fsmon.Monitor.Frames
import Fsmon.Monitor.Losses
import Fsmon.Monitor.Init
import Fsmon.Monitor.Walk
import Fsmon.Monitor.Marks
import Fsmon.Monitor.Reach
import Fsmon.Monitor.Handles
import Fsmon.Monitor.StartHandles
import Fsmon.Monitor.Exact
import Fsmon.Monitor.TwoWalks
import Fsmon.Monitor.Confined
import Fsmon.Monitor.Records
import Fsmon.Monitor.Resolvable
import Fsmon.Monitor.Once
import Fsmon.Monitor.Asked
import Fsmon.Monitor.Apart
import Fsmon.Monitor.Socket
import Fsmon.Monitor.WriteBack
import Fsmon.Monitor.Daemon
import Fsmon.Monitor.Stable
import Fsmon.Monitor.SelfFeed
import Fsmon.Monitor.Distinct
import Fsmon.Monitor.Groups
import Fsmon.Monitor.Cover
import Fsmon.Monitor.Closed
import Fsmon.Monitor.Calls
import Fsmon.Monitor.Acts
import Fsmon.Monitor.CoverStart
import Fsmon.Monitor.Heard
import Fsmon.Monitor.Specified
import Fsmon.Monitor.Refused
import Fsmon.Monitor.Ledger
import Fsmon.Monitor.Books
import Fsmon.Monitor.Sound
import Fsmon.Monitor.References
import Fsmon.Monitor.Readers
import Fsmon.Monitor.Retry
import Fsmon.Monitor.Attempts
import Fsmon.Monitor.Restarts
import Fsmon.Monitor.Cleanup
import Fsmon.Monitor.Incremental
import Fsmon.Monitor.Config
import Fsmon.Security
import Fsmon.Query.Printed
import Fsmon.Cli
import Fsmon.Cli.Agree
import Fsmon.Cli.Written
import Fsmon.Monitor.Reload
import Fsmon.StoreFile
import Fsmon.StoreMap
import Fsmon.DaemonLock
import Fsmon.Delivery
import Fsmon.Shutdown
import Fsmon.Accept
import Fsmon.Wire
import Fsmon.StoreJson
import Fsmon.Streams
import Fsmon.Hub
import Fsmon.Reader
import Fsmon.Pipeline
import Fsmon.Monitor.Gauges
import Fsmon.Gauges
import Fsmon.Factory
import Fsmon.Factory.Child
import Fsmon.Factory.Marked
import Fsmon.Factory.Seccomp
import Fsmon.Factory.Cmsg
import Fsmon.Factory.Spawn
import Fsmon.Privileges
import Fsmon.Clean
import Fsmon.Clean.Tail
import Fsmon.Clean.Kept
import Fsmon.Clean.Limit
import Fsmon.Clean.Rollback
import Fsmon.Archive
import Fsmon.Pipeline.Printed
