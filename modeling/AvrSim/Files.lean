import AvrSim.Text.Bytes

/-!
# Files

The files a run can see, by name. Names are relative to the directory of the run unless they begin with a
slash. Directories are those that the names imply, those that are listed, the root, and everything above
the directory of the run. The null device exists everywhere: it is empty and takes every content.

* `Files.follow` says what a path leads to. It goes part by part, so the first part that cannot be
  followed decides.
* `Files.read` is the content at a path, `Files.write` stores a new content.
* `Files.changes` lists what a run left behind.
-/

namespace AvrSim

/-- Why a path could not be read or written. -/
inductive FileError
  | invalid (path : String)
  | tooLong (path : String)
  | notFound (path : String)
  | notADirectory (path : String)
  | isADirectory (path : String)
  | writesDirectory (path : String)
  deriving DecidableEq, Repr

/-- The wording of a file error. -/
def FileError.message : FileError → String
  | .invalid path => "open " ++ path ++ ": invalid argument"
  | .tooLong path => "open " ++ path ++ ": file name too long"
  | .notFound path => "open " ++ path ++ ": no such file or directory"
  | .notADirectory path => "open " ++ path ++ ": not a directory"
  | .isADirectory path => "read " ++ path ++ ": is a directory"
  | .writesDirectory path => "open " ++ path ++ ": is a directory"

/-- Files by name, and directories known without a file in them. -/
structure Files where
  entries : List (String × Bytes) := []
  directories : List String := []
  deriving Repr

/-- A spot in the tree of files: the names on the way from the directory of the run. A spot above that
directory begins with `..` for each level, one below the root with `/`. -/
abbrev Spot := List String

/-- What a path leads to. It is blocked if it goes on after a file. -/
inductive Place
  | file (content : Bytes)
  | directory (spot : Spot)
  | blocked
  | missing
  | tooLong
  deriving DecidableEq, Repr

namespace Files

/-! ## Paths -/

/-- A path has fewer bytes than this. -/
def pathLimit : Nat := 4096

/-- A name has at most so many bytes. -/
def nameLimit : Nat := 255

/-- The parts of a path between slashes. -/
def parts (path : String) : List String := path.splitToList (· == '/')

/-- The parts of a path that are not empty. -/
def names (path : String) : List String := (parts path).filter (· ≠ "")

/-- Whether a path ends in a slash. -/
def endsInSlash (path : String) : Bool := path.endsWith "/"

/-- The spot where a path starts. -/
def start (path : String) : Spot := if path.startsWith "/" then ["/"] else []

/-- The spot one level up. The root is above itself. -/
def above (spot : Spot) : Spot :=
  match spot.getLast? with
  | none | some ".." => spot ++ [".."]
  | some "/" => spot
  | some _ => spot.dropLast

/-- The spot after one more part of a path. -/
def enter (spot : Spot) (part : String) : Spot :=
  if part = "." then spot else if part = ".." then above spot else spot ++ [part]

/-- The spot a path names, whatever is on the way. -/
def spotOf (path : String) : Spot := (names path).foldl enter (start path)

/-- The path of a spot. -/
def pathOf : Spot → String
  | "/" :: rest => "/" ++ "/".intercalate rest
  | spot => "/".intercalate spot

/-- Refuses paths that cannot be looked up at all. -/
def checkPath (path : String) : Except FileError Unit :=
  if path.toList.any (·.toNat == 0) then .error (.invalid path)
  else if path = "" then .error (.notFound path)
  else if pathLimit ≤ path.utf8ByteSize then .error (.tooLong path)
  else .ok ()

/-! ## Looking up -/

/-- The spot of the null device. -/
def nullDevice : Spot := ["/", "dev", "null"]

/-- Whether there is a directory at a spot. -/
def isDirectory (files : Files) (spot : Spot) : Bool :=
  spot.all (fun name => name == ".." || name == "/") ||
    spot.isPrefixOf nullDevice.dropLast ||
    files.entries.any (fun entry => spot.isPrefixOf (spotOf entry.1).dropLast) ||
    files.directories.any (fun name => spot.isPrefixOf (spotOf name))

/-- The content of the file at a spot. -/
def content? (files : Files) (spot : Spot) : Option Bytes :=
  if spot = nullDevice then some []
  else (files.entries.find? fun entry => spotOf entry.1 == spot).map (·.2)

/-- What the parts of a path lead to from a directory. -/
def follow (files : Files) (spot : Spot) : List String → Place
  | [] => .directory spot
  | part :: rest =>
    if part = "." || part = ".." then files.follow (enter spot part) rest
    else if nameLimit < part.utf8ByteSize then .tooLong
    else if files.isDirectory (enter spot part) then files.follow (enter spot part) rest
    else match files.content? (enter spot part) with
      | some content => if rest.isEmpty then .file content else .blocked
      | none => .missing

/-! ## Reading and writing -/

/-- The file at a path. A slash at the end asks for a directory, as a last part `.` does. -/
def read (files : Files) (path : String) : Except FileError Bytes := do
  checkPath path
  let wanted := names path ++ (if endsInSlash path then ["."] else [])
  match files.follow (start path) wanted with
  | .file content => .ok content
  | .directory _ => .error (.isADirectory path)
  | .blocked => .error (.notADirectory path)
  | .missing => .error (.notFound path)
  | .tooLong => .error (.tooLong path)

/-- Whether a path can only name a directory. -/
def namesDirectory (path : String) : Bool :=
  endsInSlash path || (names path).getLast?.all fun name => name == "." || name == ".."

/-- Puts a content at a spot. -/
def put (files : Files) (spot : Spot) (content : Bytes) : Files :=
  if spot = nullDevice then files
  else
    let others := files.entries.filter fun entry => spotOf entry.1 != spot
    { files with entries := others ++ [(pathOf spot, content)] }

/-- Stores a file. The directory that it is in must exist. -/
def write (files : Files) (path : String) (content : Bytes) : Except FileError Files := do
  checkPath path
  match files.follow (start path) (names path).dropLast with
  | .file _ | .blocked => .error (.notADirectory path)
  | .missing => .error (.notFound path)
  | .tooLong => .error (.tooLong path)
  | .directory spot =>
    let name := (names path).getLastD "."
    if namesDirectory path then .error (.writesDirectory path)
    else match files.follow spot [name] with
      | .directory _ => .error (.writesDirectory path)
      | .tooLong => .error (.tooLong path)
      | _ => .ok (files.put (enter spot name) content)

/-- The files that are new or different from what they were before. -/
def changes (before after : Files) : List (String × Bytes) :=
  after.entries.filter fun (name, content) =>
    (before.entries.find? fun entry => spotOf entry.1 == spotOf name).all (·.2 != content)

/-- Whether a file is in the directory of the run or below it. -/
def isInside (name : String) : Bool :=
  match spotOf name with
  | "/" :: _ | ".." :: _ => false
  | _ => true

end Files

end AvrSim
