import StmGateway.Lib.CString
import StmGateway.Lib.CText
import StmGateway.Lib.Fuel
import StmGateway.Lib.NorArray
import StmGateway.Lib.Runs
import StmGateway.Flash.Driver
import StmGateway.Flash.Chunks
import StmGateway.Flash.Chip
import StmGateway.Flash.Write
import StmGateway.Flash.Status
import StmGateway.Uart.RxBuffer
import StmGateway.Uart.Machine
import StmGateway.Uart.Receive
import StmGateway.Uart.Transmit
import StmGateway.Net.Upload
import StmGateway.At.Parameter
import StmGateway.At.Ring
import StmGateway.At.Fields
import StmGateway.At.Setters
import StmGateway.At.Link
import StmGateway.At.Ack
import StmGateway.At.Getters
import StmGateway.At.Delivery
import StmGateway.At.Statements
import StmGateway.At.Bursts
import StmGateway.At.RoundTrip
import StmGateway.At.Missing
import StmGateway.At.Lines
import StmGateway.At.Untouched
import StmGateway.At.Present
import StmGateway.At.Capacity
import StmGateway.Json.Grammar
import StmGateway.Json.Jsmn
import StmGateway.Json.Switch
import StmGateway.Json.Parse
import StmGateway.Json.DealCmd
import StmGateway.Json.Lookup
import StmGateway.Json.Tree
import StmGateway.Json.Safety
import StmGateway.Json.Values
import StmGateway.Rt.Object
import StmGateway.Rt.Thread
import StmGateway.Rt.Life
import StmGateway.App.Threads
import StmGateway.App.Lifecycle
import StmGateway.Flash.Discipline
import StmGateway.Uart.Readiness
import StmGateway.At.Render
import StmGateway.Net.Init
import StmGateway.Json.Kept
import StmGateway.Json.Report
import StmGateway.Json.Decoded
import StmGateway.Rt.Schedule
import StmGateway.Rt.ReadyQueue
import StmGateway.Rt.Turns
import StmGateway.Lib.Countdown
import StmGateway.Rt.Clock
import StmGateway.Rt.Alarms
import StmGateway.Rt.Delay
import StmGateway.Lib.Ring
import StmGateway.Rt.Ipc
import StmGateway.Rt.Fifo
import StmGateway.Lib.Wakeups
import StmGateway.Rt.Errors
import StmGateway.Rt.Waiters
import StmGateway.Rt.Wakeup
import StmGateway.Rt.Deadline
import StmGateway.Json.Resume
import StmGateway.Json.Count
import StmGateway.Json.Items
import StmGateway.Json.Layout
import StmGateway.Json.Walk
