import XWebServer.Lib.Transition
import XWebServer.Lib.HeapOrder
import XWebServer.Lib.LexicalPath
import XWebServer.Lib.Regex
import XWebServer.Lib.Lines
import XWebServer.Buffer.Buffer
import XWebServer.Buffer.ByteBuffer
import XWebServer.Buffer.Queue
import XWebServer.Buffer.Capacity
import XWebServer.Http.Request
import XWebServer.Http.Scan
import XWebServer.Http.Message
import XWebServer.Http.Answer
import XWebServer.Http.Conn
import XWebServer.Http.Process
import XWebServer.Http.Confinement
import XWebServer.Http.Mapping
import XWebServer.Http.Vectors
import XWebServer.Http.Framing
import XWebServer.Http.Segmentation
import XWebServer.Http.Delivery
import XWebServer.Http.Isolation
import XWebServer.Timer.HeapTimer
import XWebServer.Timer.Index
import XWebServer.Timer.Sift
import XWebServer.Server.Kernel
import XWebServer.Timer.Operations
import XWebServer.Server.HttpServer
import XWebServer.Http.Tasks
import XWebServer.Server.Effects
import XWebServer.Server.Steps
import XWebServer.Server.Accounting
import XWebServer.Server.Ownership
import XWebServer.Server.IdleTimeout
import XWebServer.Http.ContentLength
import XWebServer.Http.Disclosure
import XWebServer.Http.Grammar
import XWebServer.Http.RoundTrip
import XWebServer.Lib.CondVar
import XWebServer.Log.BlockDeque
import XWebServer.Log.Close
import XWebServer.Log.Items
import XWebServer.Log.Log
import XWebServer.Log.LogOrder
import XWebServer.Log.WakeUp
import XWebServer.ThreadPool.Tasks
import XWebServer.Timer.Refinement
import XWebServer.Timer.Order
import XWebServer.Timer.Subscripts
import XWebServer.Lib.Ledger
import XWebServer.Http.Body
import XWebServer.Http.Faithful
import XWebServer.Http.Transfer
import XWebServer.Http.Completion
import XWebServer.Http.BadRequest
import XWebServer.Http.Resources
import XWebServer.Timer.NextTick
import XWebServer.Server.Backlog
import XWebServer.Http.Progress
import XWebServer.Http.Form
import XWebServer.Http.FormRoundTrip
import XWebServer.Lib.Updates
import XWebServer.Lib.Decimal
import XWebServer.Lib.Numbering
import XWebServer.Log.Naming
import XWebServer.Log.LogBuffer
import XWebServer.Log.Rotation
import XWebServer.Log.QueueRoom
import XWebServer.Log.Filing
import XWebServer.Log.Whole
import XWebServer.Log.Shutdown
import XWebServer.Lib.Messages
import XWebServer.Http.HeadSize
import XWebServer.Http.Conversation
import XWebServer.Http.Client
import XWebServer.Http.Service
import XWebServer.Http.Ending
import XWebServer.Server.Objects
import XWebServer.Server.Conversations
import XWebServer.Server.Survival
import XWebServer.Server.Attendance
import XWebServer.Server.EventLoop
import XWebServer.Server.Workers
import XWebServer.Server.Startup
import XWebServer.Server.Start
import XWebServer.Lib.CString
import XWebServer.Webbench.Request
import XWebServer.Webbench.Understood
import XWebServer.Webbench.Bench
import XWebServer.Webbench.Report
import XWebServer.ThreadPool.Shutdown
