import GpioBridge.Chip.Basic
import GpioBridge.Chip.ReplyCell
import GpioBridge.CommandLine.Invocation
import GpioBridge.CommandLine.Session
import GpioBridge.Event
import GpioBridge.Fault
import GpioBridge.FileTree.Basic
import GpioBridge.FileTree.Path
import GpioBridge.Hub.Basic
import GpioBridge.Hub.Consumer
import GpioBridge.Hub.Control
import GpioBridge.Hub.Lifecycle
import GpioBridge.Hub.Reply
import GpioBridge.Hub.Request
import GpioBridge.LineTable
import GpioBridge.Main
import GpioBridge.Process
import GpioBridge.Proofs.Chip.Lines
import GpioBridge.Proofs.Chip.ReplyCell
import GpioBridge.Proofs.Chip.Tally
import GpioBridge.Proofs.Core.Acknowledgement
import GpioBridge.Proofs.Core.Alignment
import GpioBridge.Proofs.Core.Basic
import GpioBridge.Proofs.Core.Bounds
import GpioBridge.Proofs.Core.Bridge
import GpioBridge.Proofs.Core.Confirmation
import GpioBridge.Proofs.Core.Consistency
import GpioBridge.Proofs.Core.Dispatch
import GpioBridge.Proofs.Core.Echo
import GpioBridge.Proofs.Core.Episode
import GpioBridge.Proofs.Core.Frame
import GpioBridge.Proofs.Core.Independence
import GpioBridge.Proofs.Core.Leave
import GpioBridge.Proofs.Core.Lock
import GpioBridge.Proofs.Core.Lockstep
import GpioBridge.Proofs.Core.Outline
import GpioBridge.Proofs.Core.Overlap
import GpioBridge.Proofs.Core.Overtaking
import GpioBridge.Proofs.Core.Pins
import GpioBridge.Proofs.Core.Proxy
import GpioBridge.Proofs.Core.Readiness
import GpioBridge.Proofs.Core.Recall
import GpioBridge.Proofs.Core.Sequence
import GpioBridge.Proofs.Core.Slots
import GpioBridge.Proofs.Core.Stage
import GpioBridge.Proofs.Core.Turnover
import GpioBridge.Proofs.Core.Twins
import GpioBridge.Proofs.Core.Unturned
import GpioBridge.Proofs.Core.View
import GpioBridge.Proofs.Core.Withdrawal
import GpioBridge.Proofs.Hub.Balance
import GpioBridge.Proofs.Hub.Call
import GpioBridge.Proofs.Hub.Cells
import GpioBridge.Proofs.Hub.Conservation
import GpioBridge.Proofs.Hub.Demise
import GpioBridge.Proofs.Hub.Duplex
import GpioBridge.Proofs.Hub.Extent
import GpioBridge.Proofs.Hub.Lifecycle
import GpioBridge.Proofs.Hub.Limit
import GpioBridge.Proofs.Hub.Lines
import GpioBridge.Proofs.Hub.Lock
import GpioBridge.Proofs.Hub.Marks
import GpioBridge.Proofs.Hub.Memory
import GpioBridge.Proofs.Hub.Nesting
import GpioBridge.Proofs.Hub.Operation
import GpioBridge.Proofs.Hub.Order
import GpioBridge.Proofs.Hub.Outline
import GpioBridge.Proofs.Hub.Residence
import GpioBridge.Proofs.Hub.Roles
import GpioBridge.Proofs.Hub.Rollback
import GpioBridge.Proofs.Hub.Stage
import GpioBridge.Proofs.Hub.Standing
import GpioBridge.Proofs.Hub.Twins
import GpioBridge.Proofs.Hub.Unclaimed
import GpioBridge.Proofs.Hub.View
import GpioBridge.Proofs.Hub.World
import GpioBridge.Proofs.LineTable.Board
import GpioBridge.Proofs.LineTable.Depiction
import GpioBridge.Proofs.LineTable.Entries
import GpioBridge.Proofs.LineTable.History
import GpioBridge.Proofs.LineTable.Hold
import GpioBridge.Proofs.LineTable.Holder
import GpioBridge.Proofs.LineTable.Operation
import GpioBridge.Proofs.Process.Course
import GpioBridge.Proofs.Process.Leads
import GpioBridge.Proofs.Process.Maintains
import GpioBridge.Proofs.Process.Plan
import GpioBridge.Proofs.Process.Play
import GpioBridge.Proofs.Process.Pool
import GpioBridge.Proofs.Process.Serve
import GpioBridge.Proofs.Process.Twins
import GpioBridge.Proofs.Service.Duty
import GpioBridge.Proofs.Service.Receipt
import GpioBridge.Proofs.Service.Shutdown
import GpioBridge.Proofs.Service.Stage
import GpioBridge.Proofs.Service.Upkeep
import GpioBridge.Proofs.Transport.Delivery
import GpioBridge.Proofs.Transport.Limit
import GpioBridge.Proofs.Transport.Offering
import GpioBridge.Proofs.Wire.Codec
import GpioBridge.Proofs.Wire.Reading
import GpioBridge.Proofs.Wire.Truncation
import GpioBridge.Service.Basic
import GpioBridge.Service.Report
import GpioBridge.Settings.Basic
import GpioBridge.Settings.Reading
import GpioBridge.Simulation.Echo
import GpioBridge.Simulation.Peer
import GpioBridge.Simulation.Responder
import GpioBridge.Simulation.Rig
import GpioBridge.Text.Duration
import GpioBridge.Text.Json
import GpioBridge.Toml.Document
import GpioBridge.Toml.Lexeme
import GpioBridge.Toml.Value
import GpioBridge.Transport.Address
import GpioBridge.Transport.Datagram
import GpioBridge.Transport.Loopback
import GpioBridge.UidMap
import GpioBridge.Wire.Code
import GpioBridge.Wire.Frame
import GpioBridge.Wire.Message
import GpioBridge.Wire.Utf8
