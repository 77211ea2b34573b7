import AvrSim.Checksum
import AvrSim.Hex.Digits

/-!
# HEX records

A record is a line `:LLAAAATT…CC`: a byte count, a 16 bit address, a type, the payload and a byte that
completes the sum of all of them to zero.

* `Record.parse` reads a line. Its checks come in this order: start code, digits, least length,
  byte count, sum.
* `Record.render` writes one, with a line feed.
-/

namespace AvrSim.Hex

/-! ## Faults -/

/-- Ways in which a text is not a HEX file. -/
inductive Malformation
  | missingStart
  | digits (fault : DigitFault)
  | tooShort
  | count (announced present : Nat)
  | pastEnd (count address : Nat)
  | addressLength (present : Nat)
  | startLength (present : Nat)
  | missingEnd
  deriving DecidableEq, Repr

/-- Why a text has no image. -/
inductive Fault
  | malformed (why : Malformation)
  | checksum (want found : UInt8)
  | unsupported (kind : UInt8)
  | empty
  | tooLarge (low high limit : Nat)
  | lineTooLong
  deriving DecidableEq, Repr

/-- The wording of a malformation. -/
def Malformation.message : Malformation → String
  | .missingStart => "missing start code"
  | .digits fault => fault.message
  | .tooShort => "record too short"
  | .count announced present =>
    "byte count " ++ toString announced ++ " does not match " ++ toString present ++
      " payload bytes"
  | .pastEnd length address =>
    toString length ++ " bytes at " ++ Text.hexMarked 1 address ++
      " pass the end of the address space"
  | .addressLength present => "address record needs 2 bytes, has " ++ toString present
  | .startLength present => "start record needs 4 bytes, has " ++ toString present
  | .missingEnd => "missing end-of-file record"

/-- The wording of a fault. -/
def Fault.message : Fault → String
  | .malformed why => "malformed record: " ++ why.message
  | .checksum want found =>
    "bad checksum: want " ++ Text.hexMarked 2 want.toNat ++ ", have " ++
      Text.hexMarked 2 found.toNat
  | .unsupported kind => "unsupported record type " ++ Text.hexMarked 2 kind.toNat
  | .empty => "no data records"
  | .tooLarge low high limit =>
    "image span too large: " ++ Text.hexMarked 1 low ++ "-" ++ Text.hexMarked 1 high ++
      " spans " ++ toString (high - low) ++ " bytes, limit " ++ toString limit
  | .lineTooLong => "bufio.Scanner: token too long"

/-! ## Records -/

/-- A record without its byte count and its sum, which follow from the payload. -/
structure Record where
  address : UInt16
  kind : UInt8
  payload : List UInt8
  deriving DecidableEq, Repr

/-- The record types. -/
def Record.data : UInt8 := 0
def Record.endOfFile : UInt8 := 1
def Record.extendedSegment : UInt8 := 2
def Record.startSegment : UInt8 := 3
def Record.extendedLinear : UInt8 := 4
def Record.startLinear : UInt8 := 5

/-- A 16 bit number, high byte first. -/
def word (high low : UInt8) : Nat := high.toNat * 256 + low.toNat

namespace Record

/-- Reads the bytes of a record: count, address, type, payload and sum. -/
def ofBytes (bytes : List UInt8) : Except Fault Record :=
  match bytes with
  | count :: high :: low :: kind :: rest@(_ :: _) =>
    if count.toNat ≠ rest.length - 1 then
      .error (.malformed (.count count.toNat (rest.length - 1)))
    else if sum8 bytes ≠ 0 then
      .error (.checksum (AvrSim.checksum bytes.dropLast) (bytes.getLastD 0))
    else .ok ⟨UInt16.ofNat (word high low), kind, rest.dropLast⟩
  | _ => .error (.malformed .tooShort)

/-- Reads a line without the blanks around it. -/
def parse : Bytes → Except Fault Record
  | 0x3A :: digits =>
    match decode digits with
    | .error fault => .error (.malformed (.digits fault))
    | .ok bytes => ofBytes bytes
  | _ => .error (.malformed .missingStart)

/-- The bytes of a record up to its sum. -/
def body (r : Record) : List UInt8 :=
  UInt8.ofNat r.payload.length :: UInt8.ofNat (r.address.toNat / 256) ::
    UInt8.ofNat r.address.toNat :: r.kind :: r.payload

/-- All bytes of a record. -/
def bytes (r : Record) : List UInt8 := r.body ++ [AvrSim.checksum r.body]

/-- The line of a record. -/
def render (r : Record) : Bytes := 0x3A :: (encodeUpper r.bytes ++ [0x0A])

end Record

end AvrSim.Hex
