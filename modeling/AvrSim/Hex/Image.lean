import AvrSim.Hex.Record
import AvrSim.Memory
import AvrSim.Text.Blank
import AvrSim.Text.Lines

/-!
# HEX images

A HEX file places data records in a 32 bit address space. The image of a file is the span from the
lowest to the highest byte placed. Where records overlap the later one wins, and what no record covers
is filled with 0xFF.

* `Image.parse` reads a text up to its end-of-file record and says at which line it failed.
* `Reader.accept` is the effect of one record, `Image.ofChunks` the image of what was placed.
-/

namespace AvrSim.Hex

/-- Bytes at an address. -/
structure Chunk where
  address : Nat
  bytes : List UInt8
  deriving DecidableEq, Repr

/-- The address after the last byte. -/
def Chunk.stop (c : Chunk) : Nat := c.address + c.bytes.length

/-- A block of memory, with the start address that the file may give. -/
structure Image where
  base : UInt32
  data : Array UInt8
  start : Option UInt32
  deriving DecidableEq, Repr

/-- The number of bytes of an image. A limit on the span keeps it within 32 bits. -/
def Image.size (image : Image) : UInt32 := UInt32.ofNat image.data.size

/-- What an erased memory holds. -/
def fill : UInt8 := 0xFF

/-! ## Placing chunks -/

/-- The lowest address of some chunks, the first of which is given. -/
def lowest (first : Chunk) (rest : List Chunk) : Nat :=
  rest.foldl (fun low c => min low c.address) first.address

/-- The address after the highest byte. -/
def highest (first : Chunk) (rest : List Chunk) : Nat :=
  rest.foldl (fun high c => max high c.stop) first.stop

/-- The base and the bytes of the span that the chunks cover, at most `limit` bytes. -/
def flatten (limit : Nat) (first : Chunk) (rest : List Chunk) :
    Except Fault (Nat × Array UInt8) :=
  let low := lowest first rest
  let high := highest first rest
  if limit < high - low then .error (.tooLarge low high limit)
  else .ok (low, (first :: rest).foldl
    (fun data c => overwrite data (c.address - low) c.bytes)
    (Array.replicate (high - low) fill))

/-! ## Reading records -/

/-- What the records read so far have set: the offset of data addresses, the data placed, in order,
and the start address. -/
structure Reader where
  offset : Nat := 0
  chunks : Array Chunk := #[]
  start : Option UInt32 := none
  deriving Repr

/-- The address space ends here. -/
def addressLimit : Nat := 0x100000000

/-- The effect of a record other than end-of-file. -/
def Reader.accept (reader : Reader) (r : Record) : Except Fault Reader :=
  if r.kind = Record.data then
    if r.payload.isEmpty then .ok reader
    else
      let chunk : Chunk := ⟨reader.offset + r.address.toNat, r.payload⟩
      if addressLimit < chunk.stop then
        .error (.malformed (.pastEnd r.payload.length chunk.address))
      else .ok { reader with chunks := reader.chunks.push chunk }
  else if r.kind = Record.extendedSegment then
    match r.payload with
    | [high, low] => .ok { reader with offset := word high low * 16 }
    | payload => .error (.malformed (.addressLength payload.length))
  else if r.kind = Record.extendedLinear then
    match r.payload with
    | [high, low] => .ok { reader with offset := word high low * 65536 }
    | payload => .error (.malformed (.addressLength payload.length))
  else if r.kind = Record.startSegment then
    match r.payload with
    | [a, b, c, d] =>
      .ok { reader with start := some (UInt32.ofNat (word a b * 16 + word c d)) }
    | payload => .error (.malformed (.startLength payload.length))
  else if r.kind = Record.startLinear then
    match r.payload with
    | [a, b, c, d] =>
      .ok { reader with start := some (UInt32.ofNat (word a b * 65536 + word c d)) }
    | payload => .error (.malformed (.startLength payload.length))
  else .error (.unsupported r.kind)

/-- A fault and the line it was found at, 0 if it is about no line. -/
structure Failure where
  line : Nat
  fault : Fault
  deriving DecidableEq, Repr

/-- The image at the end-of-file record, which stands on the given line. -/
def Reader.finish (reader : Reader) (limit line : Nat) : Except Failure Image :=
  match reader.chunks.toList with
  | [] => .error ⟨0, .empty⟩
  | first :: rest =>
    match flatten limit first rest with
    | .error fault => .error ⟨line, fault⟩
    | .ok (base, data) => .ok ⟨UInt32.ofNat base, data, reader.start⟩

/-- Reads lines after `line` others, up to the end-of-file record. `tooLong` says that the lines end
because the next one is too long. -/
def Reader.run (limit : Nat) (tooLong : Bool) : List Bytes → Nat → Reader → Except Failure Image
  | [], line, _ =>
    .error (if tooLong then ⟨line, .lineTooLong⟩ else ⟨0, .malformed .missingEnd⟩)
  | text :: rest, line, reader =>
    let trimmed := Text.trim text
    if trimmed.isEmpty then run limit tooLong rest (line + 1) reader
    else match Record.parse trimmed with
      | .error fault => .error ⟨line + 1, fault⟩
      | .ok r =>
        if r.kind = Record.endOfFile then reader.finish limit (line + 1)
        else match reader.accept r with
          | .error fault => .error ⟨line + 1, fault⟩
          | .ok reader => run limit tooLong rest (line + 1) reader

/-- The largest span read when no limit is given. -/
def defaultLimit : Nat := 16 * 1024 * 1024

/-- The image of a HEX text whose span is at most `limit` bytes. -/
def Image.parse (limit : Nat) (text : Bytes) : Except Failure Image :=
  let read := Text.lines text
  Reader.run limit read.tooLong read.lines 0 {}

end AvrSim.Hex
