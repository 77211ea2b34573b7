import AvrSim.Core.Machine
import AvrSim.Files
import AvrSim.Hex.Image

/-!
# Loading firmware

Reading a HEX file and storing its image, and what can go wrong on the way: the file, its text, or the
size of the flash.
-/

namespace AvrSim

/-- Why a firmware could not be loaded. -/
inductive LoadCause
  | hex (fault : Hex.Fault)
  | file (error : FileError)
  | flash (overflow : FlashOverflow)
  deriving DecidableEq, Repr

/-- The wording of a cause. -/
def LoadCause.message : LoadCause → String
  | .hex fault => fault.message
  | .file error => error.message
  | .flash overflow => overflow.message

/-- A firmware that could not be loaded, with the line of its file that is to blame, 0 if none is. -/
structure LoadError where
  path : String
  line : Nat
  cause : LoadCause
  deriving DecidableEq, Repr

/-- The wording of a load error. -/
def LoadError.message (e : LoadError) : String :=
  (if e.path = "" then "<input>" else e.path) ++
    (if e.line = 0 then "" else ":" ++ toString e.line) ++ ": " ++ e.cause.message

/-- The image of a text that came from a path. -/
def Hex.Image.parseAt (path : String) (limit : Nat) (text : Bytes) : Except LoadError Hex.Image :=
  match Hex.Image.parse limit text with
  | .ok image => .ok image
  | .error failure => .error ⟨path, failure.line, .hex failure.fault⟩

/-- The image of a file. -/
def Hex.Image.load (files : Files) (path : String) (limit : Nat) : Except LoadError Hex.Image :=
  match files.read path with
  | .ok text => Hex.Image.parseAt path limit text
  | .error e => .error ⟨path, 0, .file e⟩

end AvrSim
