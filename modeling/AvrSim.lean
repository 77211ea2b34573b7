import AvrSim.Asm.Error
import AvrSim.Asm.Layout
import AvrSim.Asm.Line
import AvrSim.Asm.Mnemonic
import AvrSim.Asm.Operand
import AvrSim.Asm.Program
import AvrSim.Asm.Token
import AvrSim.Bench
import AvrSim.Checksum
import AvrSim.Cli.Assemble
import AvrSim.Cli.Flags
import AvrSim.Cli.Outcome
import AvrSim.Cli.Simulate
import AvrSim.Core.Alu
import AvrSim.Core.Bus
import AvrSim.Core.Execute
import AvrSim.Core.Machine
import AvrSim.Core.Model
import AvrSim.Core.Registers
import AvrSim.Core.RunState
import AvrSim.Core.Step
import AvrSim.Files
import AvrSim.Gdb.Command
import AvrSim.Gdb.Frame
import AvrSim.Gdb.Point
import AvrSim.Gdb.Register
import AvrSim.Gdb.Server
import AvrSim.Harness.Address
import AvrSim.Harness.Basic
import AvrSim.Harness.Client
import AvrSim.Harness.Host
import AvrSim.Harness.Load
import AvrSim.Harness.Phase
import AvrSim.Harness.Run
import AvrSim.Hex.Digits
import AvrSim.Hex.Image
import AvrSim.Hex.Record
import AvrSim.Hex.Writer
import AvrSim.Isa.Decode
import AvrSim.Isa.Instr
import AvrSim.Journal
import AvrSim.Main
import AvrSim.Memory
import AvrSim.Numeral
import AvrSim.Proofs.Asm.Alignment
import AvrSim.Proofs.Asm.Execution
import AvrSim.Proofs.Asm.Image
import AvrSim.Proofs.Asm.Jumps
import AvrSim.Proofs.Asm.Listing
import AvrSim.Proofs.Asm.Literals
import AvrSim.Proofs.Asm.Operands
import AvrSim.Proofs.Asm.Outcome
import AvrSim.Proofs.Asm.Passes
import AvrSim.Proofs.Asm.Positions
import AvrSim.Proofs.Asm.Sections
import AvrSim.Proofs.Asm.Skips
import AvrSim.Proofs.Asm.Unplaced
import AvrSim.Proofs.Asm.WordTables
import AvrSim.Proofs.Asm.Words
import AvrSim.Proofs.Core.Access
import AvrSim.Proofs.Core.Arithmetic
import AvrSim.Proofs.Core.Break
import AvrSim.Proofs.Core.Chains
import AvrSim.Proofs.Core.Course
import AvrSim.Proofs.Core.Ending
import AvrSim.Proofs.Core.Fabric
import AvrSim.Proofs.Core.Flags
import AvrSim.Proofs.Core.Interrupts
import AvrSim.Proofs.Core.Lasts
import AvrSim.Proofs.Core.Phases
import AvrSim.Proofs.Core.PowerUp
import AvrSim.Proofs.Core.Reachable
import AvrSim.Proofs.Core.Simulation
import AvrSim.Proofs.Core.Stack
import AvrSim.Proofs.Core.Strict
import AvrSim.Proofs.Core.StrictStep
import AvrSim.Proofs.Core.View
import AvrSim.Proofs.Gdb.Breakpoints
import AvrSim.Proofs.Gdb.Detached
import AvrSim.Proofs.Gdb.Dialogue
import AvrSim.Proofs.Gdb.Discipline
import AvrSim.Proofs.Gdb.Framing
import AvrSim.Proofs.Gdb.Interrupt
import AvrSim.Proofs.Gdb.Mirror
import AvrSim.Proofs.Gdb.Reach
import AvrSim.Proofs.Gdb.Refusal
import AvrSim.Proofs.Gdb.Session
import AvrSim.Proofs.Gdb.Transparency
import AvrSim.Proofs.Gdb.Turn
import AvrSim.Proofs.Gdb.Watchpoints
import AvrSim.Proofs.Harness.Calls
import AvrSim.Proofs.Harness.Firmware
import AvrSim.Proofs.Harness.Input
import AvrSim.Proofs.Harness.Lines
import AvrSim.Proofs.Harness.Transcript
import AvrSim.Proofs.Hex.Image
import AvrSim.Proofs.Hex.Language
import AvrSim.Proofs.Hex.Line
import AvrSim.Proofs.Hex.Overlay
import AvrSim.Proofs.Hex.Record
import AvrSim.Proofs.Hex.RoundTrip
import AvrSim.Proofs.Isa.Coding
import AvrSim.Proofs.Numeral
import AvrSim.Proofs.Text.Lines
import AvrSim.Proofs.Text.Substitution
import AvrSim.Proofs.Uart.Completion
import AvrSim.Proofs.Uart.FlowControl
import AvrSim.Proofs.Uart.Inbox
import AvrSim.Proofs.Uart.Queue
import AvrSim.Proofs.Uart.Reception
import AvrSim.Proofs.Uart.Transmission
import AvrSim.Proofs.Wiring.Acyclic
import AvrSim.Proofs.Wiring.Build
import AvrSim.Proofs.Wiring.Delivery
import AvrSim.Proofs.Wiring.Descent
import AvrSim.Proofs.Wiring.Frozen
import AvrSim.Proofs.Wiring.Raise
import AvrSim.Proofs.Wiring.Shape
import AvrSim.Text.Blank
import AvrSim.Text.Bytes
import AvrSim.Text.Digits
import AvrSim.Text.Lines
import AvrSim.Text.Printable
import AvrSim.Text.Quoted
import AvrSim.Text.Utf8
import AvrSim.Wiring.Basic
import AvrSim.Wiring.Probe
import AvrSim.Wiring.Raise
import AvrSim.Proofs.Hex.Corruption
import AvrSim.Proofs.Gdb.PointSets
import AvrSim.Proofs.Gdb.ReadBack
import AvrSim.Proofs.Hex.Arrangement
import AvrSim.Proofs.Isa.Opcodes
import AvrSim.Proofs.Core.Traffic
import AvrSim.Proofs.Uart.Status
