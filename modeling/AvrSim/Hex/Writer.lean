import AvrSim.Hex.Record

/-!
# Writing HEX files

Bytes at a base address become data records of at most a given width. No record crosses a boundary of
64 KiB; before the first record of a page other than the one in force, which is page 0 at the start, an
extended linear record names it. Addresses wrap at 2^32.
-/

namespace AvrSim.Hex

/-- Data bytes in a record unless a width from 1 to 255 is asked for. -/
def defaultWidth : Nat := 16

/-- The width used for a width asked for. -/
def effectiveWidth (width : Int) : Nat :=
  if 1 ≤ width ∧ width ≤ 255 then width.toNat else defaultWidth

/-- How many bytes fit into the record at `base`. -/
def recordRoom (width : Nat) (base : UInt32) : Nat := min width (65536 - base.toNat % 65536)

/-- The extended linear record of a page. -/
def Record.ofPage (page : Nat) : Record :=
  ⟨0, extendedLinear, [UInt8.ofNat (page / 256), UInt8.ofNat page]⟩

/-- A data record. -/
def Record.ofData (base : UInt32) (bytes : List UInt8) : Record :=
  ⟨UInt16.ofNat base.toNat, Record.data, bytes⟩

/-- The last record of every file. -/
def Record.last : Record := ⟨0, endOfFile, []⟩

theorem recordRoom_pos {width : Nat} (base : UInt32) (hw : 0 < width) :
    0 < recordRoom width base := by
  unfold recordRoom
  omega

/-- Adds the records of `data` at `base` to those written, with `page` in force. -/
def addRecords (width : Nat) (hw : 0 < width) (base : UInt32) (page : Nat) (data : List UInt8)
    (written : Array Record) : Array Record :=
  if h : data = [] then written
  else
    let room := recordRoom width base
    let chunk := data.take room
    let written :=
      if base.toNat / 65536 = page then written
      else written.push (.ofPage (base.toNat / 65536))
    addRecords width hw (base + UInt32.ofNat chunk.length) (base.toNat / 65536) (data.drop room)
      (written.push (.ofData base chunk))
termination_by data.length
decreasing_by
  have hpos : 0 < data.length := List.length_pos_iff.mpr h
  have := recordRoom_pos base hw
  rw [List.length_drop]
  omega

theorem effectiveWidth_pos (width : Int) : 0 < effectiveWidth width := by
  unfold effectiveWidth defaultWidth
  split <;> omega

/-- The records of a file. -/
def records (base : UInt32) (data : List UInt8) (width : Int) : List Record :=
  ((addRecords (effectiveWidth width) (effectiveWidth_pos width) base 0 data #[]).push
    .last).toList

/-- The text of a file. -/
def encode (base : UInt32) (data : List UInt8) (width : Int) : Bytes :=
  (records base data width).flatMap Record.render

end AvrSim.Hex
