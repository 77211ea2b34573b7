/-!
# Checksums and sign extension

The arithmetic that HEX records and debugger frames share: the sum of bytes modulo 256, and the byte
that completes a sum to zero.
-/

namespace AvrSim

/-- The sum of bytes modulo 256. -/
def sum8 (bytes : List UInt8) : UInt8 := bytes.foldl (· + ·) 0

/-- The byte that brings the sum to zero. -/
def checksum (bytes : List UInt8) : UInt8 := 0 - sum8 bytes

/-- Extends a two's complement number of `bits` bits to 16 bits: if its top bit is set, so are all bits
above it. Bits at or past position 16 are zero. -/
def signExtend (value bits : UInt16) : UInt16 :=
  if value.toNat.testBit (bits - 1).toNat then
    value ||| (if bits < 16 then 0xFFFF <<< bits else 0)
  else value

end AvrSim
