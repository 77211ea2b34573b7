import AvrSim.Numeral
import AvrSim.Text.Digits

/-!
# Break- and watchpoints

A breakpoint is an address of the program, a watchpoint a range of the data space with the kind of access
that is watched for. To a debugger client the data space begins at `Gdb.dataStart`.

* `Gdb.Point.parse` reads the three fields `type,address,size` of a request.
* `Gdb.Points` is the ordered set of points that are in force, with `insert` and `erase`.
-/

namespace AvrSim.Gdb

/-- Where the data space begins for a client, and where it ends at the latest. -/
def dataStart : Nat := 0x800000
def dataLimit : Nat := 0x810000

/-- The accesses that a watchpoint looks for. -/
inductive WatchKind
  | write
  | read
  | access
  deriving DecidableEq, Repr

namespace WatchKind

/-- The word for a kind in a stop reply. -/
def word : WatchKind → String
  | write => "watch"
  | read => "rwatch"
  | access => "awatch"

/-- The type number of a kind. -/
def code : WatchKind → Nat
  | write => 2
  | read => 3
  | access => 4

/-- Whether a watchpoint of this kind looks for a write, if `isWrite`, or else for a read. -/
def covers (kind : WatchKind) (isWrite : Bool) : Bool :=
  match kind with
  | write => isWrite
  | read => !isWrite
  | access => true

end WatchKind

/-- A watched range of the data space. -/
structure Watchpoint where
  address : UInt16
  size : UInt16
  kind : WatchKind
  deriving DecidableEq, Repr

/-- Whether an address lies in the range. -/
def Watchpoint.contains (w : Watchpoint) (address : UInt16) : Bool :=
  w.address ≤ address && address - w.address < w.size

/-- A break- or watchpoint. -/
inductive Point
  | breakpoint (address : UInt32)
  | watchpoint (w : Watchpoint)
  deriving DecidableEq, Repr

/-! ## Requests -/

/-- Why a request was rejected. -/
inductive PointError
  | fieldCount
  | refused (refusal : Numeral.Refusal)
  | notData (address : Nat)
  | unsupported (kind : Nat)
  deriving DecidableEq, Repr

/-- The wording of a rejection. -/
def PointError.message : PointError → String
  | .fieldCount => "want type,addr,kind"
  | .refused refusal => refusal.message
  | .notData address => "watchpoints need a data address, have " ++ Text.hexMarked 1 address
  | .unsupported kind => "unsupported point type " ++ toString kind

/-- A hexadecimal field of a request. -/
def hexField (bits : Nat) (text : Bytes) : Except PointError Nat :=
  (Numeral.readUnsigned (.fixed 16) bits text).mapError .refused

/-- The watchpoint of a request. A size of zero counts as one. -/
def watchpointAt (kind : WatchKind) (address size : Nat) : Except PointError Point :=
  if dataStart ≤ address ∧ address < dataLimit then
    .ok (.watchpoint ⟨UInt16.ofNat (address - dataStart), UInt16.ofNat (max size 1), kind⟩)
  else .error (.notData address)

/-- Reads a request. Types 0 and 1 are breakpoints, 2 to 4 watchpoints. -/
def Point.parse (text : Bytes) : Except PointError Point :=
  match Bytes.fields ','.toUInt8 text with
  | [kind, address, size] => do
    let kind ← hexField 8 kind
    let address ← hexField 32 address
    let size ← hexField 16 size
    match kind with
    | 0 | 1 => .ok (.breakpoint (UInt32.ofNat address))
    | 2 => watchpointAt .write address size
    | 3 => watchpointAt .read address size
    | 4 => watchpointAt .access address size
    | kind => .error (.unsupported kind)
  | _ => .error .fieldCount

/-! ## The points in force -/

/-- The points in force, in order of insertion. -/
structure Points where
  breakpoints : List UInt32 := []
  watchpoints : List Watchpoint := []
  deriving DecidableEq, Repr

/-- Adds an element at the end unless it is there. -/
def insertLast {α : Type} [BEq α] (xs : List α) (x : α) : List α :=
  if xs.contains x then xs else xs ++ [x]

namespace Points

/-- Adds a point unless it is in force. -/
def insert (points : Points) : Point → Points
  | .breakpoint address =>
    { points with breakpoints := insertLast points.breakpoints address }
  | .watchpoint w => { points with watchpoints := insertLast points.watchpoints w }

/-- Removes a point if it is in force. -/
def erase (points : Points) : Point → Points
  | .breakpoint address => { points with breakpoints := points.breakpoints.erase address }
  | .watchpoint w => { points with watchpoints := points.watchpoints.erase w }

/-- The first watchpoint that an access concerns. -/
def watching? (points : Points) (address : UInt16) (isWrite : Bool) : Option Watchpoint :=
  points.watchpoints.find? fun w => w.contains address && w.kind.covers isWrite

end Points

end AvrSim.Gdb
