/-!
# Microcontroller models

The parts that can be simulated. They share one UART and differ in the size of their memories, in the
width of an interrupt vector slot and in their signature.
-/

namespace AvrSim

/-- Where a UART stands in the data space and which interrupt vectors it owns. -/
structure UartConfig where
  name : UInt8
  base : UInt16
  receiveVector : Nat
  emptyVector : Nat
  transmitVector : Nat
  deriving DecidableEq, Repr

/-- The first UART of every part. -/
def UartConfig.uart0 : UartConfig := ⟨'0'.toUInt8, 0xC0, 18, 19, 20⟩

/-- A part. The data space ends at `ramEnd`; `vectorSize` is the number of bytes of a vector slot. -/
structure Model where
  name : String
  flashSize : Nat
  ramEnd : UInt16
  vectorSize : Nat
  signature : List UInt8
  uart : UartConfig := .uart0
  deriving DecidableEq, Repr

namespace Model

def atmega168 : Model := ⟨"atmega168", 16 * 1024, 0x04FF, 4, [0x1E, 0x94, 0x06], .uart0⟩
def atmega328p : Model := ⟨"atmega328p", 32 * 1024, 0x08FF, 4, [0x1E, 0x95, 0x0F], .uart0⟩
def atmega48 : Model := ⟨"atmega48", 4 * 1024, 0x02FF, 2, [0x1E, 0x92, 0x05], .uart0⟩
def atmega88 : Model := ⟨"atmega88", 8 * 1024, 0x04FF, 2, [0x1E, 0x93, 0x0A], .uart0⟩

/-- All parts, by name. -/
def all : List Model := [atmega168, atmega328p, atmega48, atmega88]

/-- The part of a name, in any case. -/
def find? (name : String) : Option Model := all.find? (·.name == name.toLower)

/-- The last byte address of the flash. -/
def flashEnd (m : Model) : UInt32 := UInt32.ofNat (m.flashSize - 1)

/-- The number of bytes of the data space. -/
def dataSize (m : Model) : Nat := m.ramEnd.toNat + 1

end Model

end AvrSim
