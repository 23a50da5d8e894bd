import Mpx.Library.Transition
import Mpx.Library.Links
import Mpx.Heap.Refinement
import Mpx.Heap.Session
import Mpx.Heap.Guarantees
import Mpx.Process.Pcb
import Mpx.Process.Queues
import Mpx.Device.Requests
import Mpx.Device.Devices
import Mpx.Device.Service
import Mpx.System.SysCall
import Mpx.Process.Scheduling
import Mpx.System.Machine
import Mpx.System.Invariant
import Mpx.System.Completion
import Mpx.System.Switching
import Mpx.System.Commands
import Mpx.System.Traps
import Mpx.System.Reachable
import Mpx.System.Placement
import Mpx.System.Dispatch
import Mpx.System.Outstanding
import Mpx.System.Delivery
import Mpx.Heap.Termination
import Mpx.Device.Line
import Mpx.Device.Watch
import Mpx.Device.Streams
import Mpx.Device.Handlers
import Mpx.Device.Ports
import Mpx.System.Priority
import Mpx.Time.Alarm
import Mpx.Library.Strict
import Mpx.System.Evaluation
import Mpx.System.Showing
import Mpx.Heap.Listing
import Mpx.Heap.Frame
import Mpx.Heap.Wellformed
import Mpx.Process.Sequences
import Mpx.Device.Starting
import Mpx.Device.Agreement
import Mpx.System.Names
import Mpx.System.Acceptance
import Mpx.Device.Poll
import Mpx.Device.Speeds
import Mpx.Library.Buffer
import Mpx.Library.Numerals
import Mpx.Command.Hex
import Mpx.Command.Numbers
import Mpx.Command.Input
import Mpx.Library.Processor
import Mpx.Process.Startup
import Mpx.Device.Isr
import Mpx.Command.ShowState
import Mpx.Command.Creation
import Mpx.Command.AlarmMessage
import Mpx.Paging.Tables
import Mpx.Paging.Frames
import Mpx.Paging.Identity
import Mpx.Heap.BackLinks
import Mpx.Command.Decimals
import Mpx.System.Steady
import Mpx.Library.Holdings
import Mpx.System.Memory
import Mpx.System.Ownership
import Mpx.System.Accounts
import Mpx.System.Suspension
import Mpx.Time.Clock
import Mpx.Time.Printing
import Mpx.Time.Reading
import Mpx.Library.Ranking
import Mpx.System.Stamps
import Mpx.System.Waiting
import Mpx.System.Shutdown
import Mpx.Command.Menu
