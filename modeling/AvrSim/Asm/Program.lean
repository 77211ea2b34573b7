import AvrSim.Asm.Layout
import AvrSim.Memory

/-!
# Assembling a source

The second pass gives every statement its words, with all names known, and puts them into memory. No
two words may stand at one address. The program is the span from the first to the last word, low bytes
first, with 0xFF where no statement put anything.

* `Statement.items` are the words of a statement, and what is wrong with it.
* `assemble` gives the program of a source or all errors of the first pass that finds any.
-/

namespace AvrSim.Asm

/-- An assembled source: where it begins, its bytes and the byte addresses of its labels. -/
structure Program where
  base : UInt32
  data : Array UInt8
  labels : Std.HashMap Bytes UInt32

/-- The value of an operand of `.word`; a label stands for its word address. -/
def Layout.wordValue (l : Layout) (operand : Token) : Checked UInt16 :=
  match (if operand.kind = .identifier then l.labels[operand.text]? else none) with
  | some address => .ok (UInt16.ofNat (address.toNat / 2))
  | none => (l.symbols.value operand (-0x8000) 0xFFFF).map UInt16.ofInt

/-- Words one after another from an address on. -/
def placed {α : Type} (address : UInt32) (words : List α) : List (UInt32 × α) :=
  words.zipIdx.map fun (word, i) => (address + UInt32.ofNat (2 * i), word)

/-- The words of a statement with their addresses, or in their place what is wrong. -/
def Statement.items (l : Layout) (s : Statement) : List (UInt32 × Checked UInt16) :=
  match s.action with
  | .words => placed s.address (s.operands.map l.wordValue)
  | .instruction m =>
    match instruction l.symbols s.address s.keyword.position m s.operands with
    | .ok instr => placed s.address (instr.encode.map .ok)
    | .error errors => [(s.address, .error errors)]

/-- The words put into memory so far. -/
structure Code where
  words : Std.HashMap UInt32 UInt16 := ∅
  errors : Array Error := #[]

/-- Puts a word into memory, unless there is one. -/
def Code.emit (c : Code) (s : Statement) (address : UInt32) (word : UInt16) : Code :=
  if c.words.contains address then
    { c with errors := c.errors.push (.overlap s.keyword.position address) }
  else { c with words := c.words.insert address word }

/-- Puts the words of a statement into memory. -/
def Code.statement (l : Layout) (c : Code) (s : Statement) : Code :=
  (s.items l).foldl
    (fun c (address, item) =>
      match item with
      | .ok word => c.emit s address word
      | .error errors => { c with errors := c.errors ++ errors.toArray })
    c

/-- What no statement put anything into. -/
def gap : UInt8 := 0xFF

/-- The bytes of words from `base` up to `stop`. -/
def imageBytes (base stop : Nat) (words : List (UInt32 × UInt16)) : Array UInt8 :=
  words.foldl
    (fun data (address, word) =>
      (data.setIfInBounds (address.toNat - base) word.toUInt8).setIfInBounds
        (address.toNat - base + 1) (word >>> 8).toUInt8)
    (Array.replicate (stop - base) gap)

/-- The program of the words put into memory, if there are any. -/
def Code.program? (c : Code) (labels : Std.HashMap Bytes UInt32) : Option Program :=
  match c.words.toList with
  | [] => none
  | first :: rest =>
    let base := rest.foldl (fun low word => min low word.1.toNat) first.1.toNat
    let last := rest.foldl (fun high word => max high word.1.toNat) first.1.toNat
    some ⟨UInt32.ofNat base, imageBytes base (last + 2) (first :: rest), labels⟩

/-- Assembles a source. -/
def assemble (source : Bytes) : Checked Program :=
  let layout := Layout.ofSource source
  if layout.errors.isEmpty then
    let code := layout.statements.foldl (Code.statement layout) {}
    if code.errors.isEmpty then
      match code.program? layout.labels with
      | some program => .ok program
      | none => .error [.emptyProgram]
    else .error code.errors.toList
  else .error layout.errors.toList

end AvrSim.Asm
