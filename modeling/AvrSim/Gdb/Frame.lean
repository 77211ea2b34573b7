import AvrSim.Checksum
import AvrSim.Hex.Digits

/-!
# Frames

A debugger client and the server exchange packets. On the wire a packet is framed as `$`, its payload,
`#` and two hexadecimal digits with the sum of the payload; each frame received is acknowledged with `+`
or, if the sum is wrong, with `-`. Outside of frames the byte 3 asks for an interrupt and all other
bytes mean nothing.

* `Gdb.frame` writes a frame.
* `Gdb.Reader.feed` takes a byte and says what it completes; `Gdb.Reader.feedAll` takes several.
-/

namespace AvrSim.Gdb

/-- The payload that stands for an interrupt. -/
def interrupt : Bytes := [3]

/-- The frame of a payload. -/
def frame (payload : Bytes) : Bytes :=
  '$'.toUInt8 :: (payload ++ '#'.toUInt8 :: Hex.encodeLower [sum8 payload])

/-- How far a frame was read. A payload in progress is kept last byte first. -/
inductive Reader
  | idle
  | payload (reversed : Bytes)
  | sum (payload : Bytes)
  | sumEnd (payload : Bytes) (first : UInt8)
  deriving DecidableEq, Repr

/-- What a byte can complete. -/
inductive Arrival
  | interrupt
  | packet (payload : Bytes)
  | garbled
  deriving DecidableEq, Repr

namespace Arrival

/-- The packet to be served, if there is one. -/
def packet? : Arrival → Option Bytes
  | interrupt => some Gdb.interrupt
  | packet payload => some payload
  | garbled => none

/-- The acknowledgement, if there is one. -/
def acknowledgement? : Arrival → Option Char
  | interrupt => none
  | packet _ => some '+'
  | garbled => some '-'

end Arrival

/-- Whether two bytes are the digits of the sum of a payload, in either case. -/
def sumMatches (payload : Bytes) (first last : UInt8) : Bool :=
  (Hex.decode [first, last]).toOption == some [sum8 payload]

namespace Reader

/-- Takes one byte. -/
def feed : Reader → UInt8 → Reader × Option Arrival
  | idle, b =>
    if b == 3 then (idle, some .interrupt)
    else if b == '$'.toUInt8 then (payload [], none)
    else (idle, none)
  | payload reversed, b =>
    if b == '#'.toUInt8 then (sum reversed.reverse, none) else (payload (b :: reversed), none)
  | sum received, b => (sumEnd received b, none)
  | sumEnd received first, b =>
    (idle, some (if sumMatches received first b then .packet received else .garbled))

/-- Takes bytes in order and collects what they complete. -/
def feedAll (reader : Reader) (bytes : Bytes) : Reader × List Arrival :=
  bytes.foldl
    (fun (reader, arrivals) b =>
      let (reader, arrival) := reader.feed b
      (reader, arrivals ++ arrival.toList))
    (reader, [])

end Reader

end AvrSim.Gdb
