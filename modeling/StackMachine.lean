import StackMachine.Assembly
import StackMachine.Capability
import StackMachine.Code.Builder
import StackMachine.Code.Cursor
import StackMachine.Code.Image
import StackMachine.Code.Record
import StackMachine.CommandLine.Colours
import StackMachine.CommandLine.Filter
import StackMachine.CommandLine.Log
import StackMachine.CommandLine.Options
import StackMachine.CommandLine.Session
import StackMachine.CommandLine.Surroundings
import StackMachine.Debugger
import StackMachine.Double.Arith
import StackMachine.Double.Basic
import StackMachine.Double.Decimal
import StackMachine.Double.Literal
import StackMachine.Double.Nearest
import StackMachine.Double.Order
import StackMachine.Fault
import StackMachine.Instr
import StackMachine.Listing
import StackMachine.LittleEndian
import StackMachine.Machine.Basic
import StackMachine.Machine.Effect
import StackMachine.Machine.Event
import StackMachine.Machine.Run
import StackMachine.Main
import StackMachine.Memory.Basic
import StackMachine.Memory.Page
import StackMachine.Opcode
import StackMachine.Stack
import StackMachine.Text.Alphanumeric
import StackMachine.Text.Blank
import StackMachine.Text.Cluster
import StackMachine.Text.Extending
import StackMachine.Text.Hidden
import StackMachine.Text.Lines
import StackMachine.Text.Numeral
import StackMachine.Text.Pattern
import StackMachine.Text.Quoted
import StackMachine.Text.Size
import StackMachine.Text.Typing
import StackMachine.Proofs.Double.Decimal
import StackMachine.Proofs.Double.Text
import StackMachine.Proofs.Code.Reading
import StackMachine.Proofs.Code.Spelling
import StackMachine.Proofs.Code.Tiling
import StackMachine.Proofs.Code.Building
import StackMachine.Proofs.Assembly.Words
import StackMachine.Proofs.Assembly.Operands
import StackMachine.Proofs.Assembly.Listing
import StackMachine.Proofs.Assembly.RoundTrip
import StackMachine.Proofs.Memory.Arena
import StackMachine.Proofs.Machine.InPlace
import StackMachine.Proofs.Machine.Reachable
import StackMachine.Proofs.Machine.Atomicity
import StackMachine.Proofs.Machine.Planning
import StackMachine.Proofs.Machine.Positions
import StackMachine.Proofs.Memory.History
import StackMachine.Proofs.Machine.History
import StackMachine.Proofs.Machine.Handles
import StackMachine.Proofs.Machine.Running
import StackMachine.Proofs.Machine.Bounds
import StackMachine.Proofs.Machine.Room
import StackMachine.Proofs.Assembly.Grammar
import StackMachine.Proofs.Code.Rewriting
import StackMachine.Proofs.Debugger
import StackMachine.Proofs.Machine.Table
import StackMachine.Proofs.Code.Scanning
import StackMachine.Proofs.Machine.Transfer
import StackMachine.Proofs.Machine.Restoring
import StackMachine.Proofs.Machine.Dispatch
import StackMachine.Proofs.Assembly.Joining
import StackMachine.Proofs.Assembly.LineBreaks
import StackMachine.Proofs.Machine.Events
import StackMachine.Proofs.Machine.Forward
import StackMachine.Proofs.Code.Naturals
import StackMachine.Proofs.Double.Extrema
import StackMachine.Proofs.Double.Operators
import StackMachine.Proofs.Machine.Bulk
import StackMachine.Proofs.CommandLine.Groups
import StackMachine.Proofs.Code.Cursors
import StackMachine.Proofs.Machine.Commitment
