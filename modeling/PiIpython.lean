import PiIpython.Lib.Text
import PiIpython.Lib.JsString
import PiIpython.Lib.Utf8
import PiIpython.Lib.Lines
import PiIpython.Lib.Regex
import PiIpython.Lib.Search
import PiIpython.Lib.Shell
import PiIpython.Lib.Chunks
import PiIpython.Lib.Pairs
import PiIpython.Lib.PyExpr
import PiIpython.Lib.Binary64
import PiIpython.Lib.Json
import PiIpython.Lib.JsonPrint
import PiIpython.Lib.JsonRoundTrip
import PiIpython.Lib.JsonStrings
import PiIpython.Lib.Machine
import PiIpython.Lib.Prog
import PiIpython.Lib.Locked
import PiIpython.Lib.Tasks
import PiIpython.Lib.Evict
import PiIpython.Lib.Join
import PiIpython.Lib.Dict
import PiIpython.Checkpoint.Store
import PiIpython.Checkpoint.Files
import PiIpython.Checkpoint.State
import PiIpython.Checkpoint.Names
import PiIpython.Checkpoint.Sessions
import PiIpython.Checkpoint.Access
import PiIpython.Checkpoint.Scan
import PiIpython.Checkpoint.Collect
import PiIpython.Checkpoint.Saving
import PiIpython.Checkpoint.Faults
import PiIpython.Checkpoint.Marker
import PiIpython.Checkpoint.Kernel
import PiIpython.Checkpoint.Restore
import PiIpython.Checkpoint.History
import PiIpython.Checkpoint.Reread
import PiIpython.Checkpoint.Intact
import PiIpython.Checkpoint.Touch
import PiIpython.Checkpoint.Bounded
import PiIpython.Checkpoint.Records
import PiIpython.Checkpoint.RoundTrip
import PiIpython.Core.Output
import PiIpython.Core.Truncate
import PiIpython.Core.Ansi
import PiIpython.Core.Interrupted
import PiIpython.Console.Quote
import PiIpython.Console.Transcript
import PiIpython.Console.History
import PiIpython.Headstart.Joins
import PiIpython.Extension.Notices
import PiIpython.Extension.Cell
import PiIpython.Extension.Calls
import PiIpython.Extension.Settled
import PiIpython.Extension.Updates
import PiIpython.Core.Message
import PiIpython.Persistence.Checkpoints
import PiIpython.Persistence.Queue
import PiIpython.Persistence.Failure
import PiIpython.Persistence.Serial
import PiIpython.Persistence.Reported
import PiIpython.Console.Pane
import PiIpython.Console.Owner
import PiIpython.Runtime.State
import PiIpython.Runtime.Handlers
import PiIpython.Runtime.Step
import PiIpython.Bridge.Threads
import PiIpython.Bridge.Reaped
import PiIpython.Bridge.Send
import PiIpython.Bridge.Readline
import PiIpython.Bridge.Wire
import PiIpython.Bridge.Unforged
import PiIpython.Core.Embed
import PiIpython.Runtime.Frame
import PiIpython.Runtime.Invariant
import PiIpython.Runtime.Cases
import PiIpython.Runtime.Hanging
import PiIpython.Runtime.Reset
import PiIpython.Runtime.Log
import PiIpython.Runtime.Shutdown
import PiIpython.Runtime.Startup
import PiIpython.Runtime.Overflow
import PiIpython.Runtime.Own
import PiIpython.Runtime.Groups
import PiIpython.Runtime.Replace
import PiIpython.Bridge.Execute
import PiIpython.Bridge.Pipeline
import PiIpython.Bridge.Answers
import PiIpython.Bridge.Agreement
