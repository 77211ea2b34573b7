import AvrSim.Gdb.Frame
import AvrSim.Gdb.Point

/-!
# Commands and replies

What a packet asks for, and what may be answered. Reading a packet checks its form only; whether a
register or an address exists is found out when the command is carried out.

* `Gdb.Command.parse` reads the payload of a packet.
* `Gdb.Reply.payload` is the payload of an answer.
-/

namespace AvrSim.Gdb

/-! ## Replies -/

/-- Why the core stopped: a signal, or an access that is watched for. -/
inductive StopReply
  | signal (number : Nat)
  | watch (kind : WatchKind) (address : UInt16)
  deriving DecidableEq, Repr

namespace StopReply

/-- The stop after a step, at a breakpoint or at a break instruction. -/
def trap : StopReply := signal 5

/-- The stop that the client asked for. -/
def interrupted : StopReply := signal 2

/-- The payload of a stop reply. -/
def text : StopReply → String
  | signal number => "S" ++ Text.hex 2 number
  | watch kind address =>
    "T" ++ Text.hex 2 5 ++ kind.word ++ ":" ++ Text.hex 1 (dataStart + address.toNat) ++ ";"

end StopReply

/-- An answer to a packet. -/
inductive Reply
  | ok
  | failed
  | unsupported
  | bytes (value : List UInt8)
  | packetSize
  | attached
  | stop (reason : StopReply)
  deriving DecidableEq, Repr

/-- The payload of an answer. -/
def Reply.payload : Reply → Bytes
  | ok => Bytes.ofString "OK"
  | failed => Bytes.ofString "E01"
  | unsupported => []
  | bytes value => Hex.encodeLower value
  | packetSize => Bytes.ofString "PacketSize=1000"
  | attached => Bytes.ofString "1"
  | stop reason => Bytes.ofString reason.text

/-! ## Commands -/

/-- What a packet asks for. -/
inductive Command
  | stopReason
  | features
  | attached
  | readRegisters
  | writeRegisters (bytes : List UInt8)
  | readRegister (number : Nat)
  | writeRegister (number : Nat) (bytes : List UInt8)
  | readMemory (address length : Nat)
  | writeMemory (address : Nat) (bytes : List UInt8)
  | resume (single : Bool) (target : Option UInt32)
  | kill
  | detach
  | insertPoint (request : Except PointError Point)
  | erasePoint (request : Except PointError Point)
  | malformed
  | unknown

/-- A hexadecimal number of at most `bits` bits. -/
def number? (bits : Nat) (text : Bytes) : Option Nat :=
  (Numeral.unsigned (.fixed 16) bits text).toOption

/-- The bytes of a text of hexadecimal pairs. -/
def bytes? (text : Bytes) : Option (List UInt8) := (Hex.decode text).toOption

/-- An address and a length, divided by a comma. -/
def range? (text : Bytes) : Option (Nat × Nat) := do
  let (address, length) ← Bytes.cut ','.toUInt8 text
  return (← number? 32 address, ← number? 32 length)

namespace Command

/-- `number=value` -/
def parseWriteRegister? (args : Bytes) : Option Command := do
  let (number, value) ← Bytes.cut '='.toUInt8 args
  return writeRegister (← number? 8 number) (← bytes? value)

/-- `address,length:bytes`, where the length is that of the bytes. -/
def parseWriteMemory? (args : Bytes) : Option Command := do
  let (target, data) ← Bytes.cut ':'.toUInt8 args
  let (address, length) ← range? target
  let bytes ← bytes? data
  if bytes.length = length then some (writeMemory address bytes) else none

/-- An optional address to go on at. -/
def parseResume? (single : Bool) (args : Bytes) : Option Command :=
  if args.isEmpty then some (resume single none)
  else (number? 32 args).map fun target => resume single (some (UInt32.ofNat target))

/-- Queries about the server. -/
def parseQuery (args : Bytes) : Command :=
  if (Bytes.ofString "Supported").isPrefixOf args then features
  else if args == Bytes.ofString "Attached" then attached
  else unknown

/-- Reads a payload. -/
def parse : Bytes → Command
  | [] => unknown
  | verb :: args =>
    match Char.ofUInt8 verb with
    | '?' => stopReason
    | 'q' => parseQuery args
    | 'g' => readRegisters
    | 'G' => ((bytes? args).map writeRegisters).getD malformed
    | 'p' => ((number? 8 args).map readRegister).getD malformed
    | 'P' => (parseWriteRegister? args).getD malformed
    | 'm' => ((range? args).map fun (address, length) => readMemory address length).getD malformed
    | 'M' => (parseWriteMemory? args).getD malformed
    | 'c' => (parseResume? false args).getD malformed
    | 's' => (parseResume? true args).getD malformed
    | 'k' => kill
    | 'D' => detach
    | 'Z' => insertPoint (Point.parse args)
    | 'z' => erasePoint (Point.parse args)
    | _ => unknown

end Command

end AvrSim.Gdb
