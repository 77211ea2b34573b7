import AvrSim.Asm.Program
import AvrSim.Cli.Outcome
import AvrSim.Hex.Writer

/-!
# The assembler program

Assembles a source file, or the input if no file is given, into a HEX file. Errors are shown with the line
they are in, and the place is underlined.
-/

namespace AvrSim.Cli.Assemble

/-- The flags of the program. -/
def specs : List FlagSpec :=
  [{ name := "out", letter := some 'o', kind := .text }, { name := "width", kind := .signed }]

/-- How the program is used. -/
def usage : String := "goavr-asm [flags] [file.S]"

/-- A command line that was understood. Without a path the input is read. -/
structure Request where
  path : Option String
  outputPath : String
  width : Int
  deriving DecidableEq, Repr

/-! ## Paths -/

/-- The last part of a path. -/
def baseName (path : String) : String :=
  match (Files.parts path).reverse.dropWhile (· == "") with
  | part :: _ => part
  | [] => if path = "" then "." else "/"

/-- A path without the last dot of its last part and what follows it. -/
def withoutExtension (path : String) : String :=
  let reversed := path.toList.reverse
  let last := reversed.takeWhile (· != '/')
  if last.contains '.' then String.ofList (reversed.dropWhile (· != '.') |>.drop 1).reverse else path

/-- Where the result goes unless the command line says so: next to the source. -/
def defaultOutput : Option String → String
  | none => "out.hex"
  | some path => withoutExtension path ++ ".hex"

/-- Reads a command line. -/
def parse (arguments : List String) : Except FlagError Request := do
  let flags ← Flags.parse specs arguments
  let request (path : Option String) : Request :=
    let given := flags.text "out" ""
    { path
      outputPath := if given = "" then defaultOutput path else given
      width := flags.signed "width" Hex.defaultWidth }
  match flags.arguments with
  | [] => return request none
  | [path] => return request (some path)
  | arguments => .error (.argumentCount "at most 1" arguments.length)

/-! ## Complaints -/

/-- What stands before each complaint: the name of the source in bold. -/
def mark (path : Option String) : String :=
  "\x1b[1m" ++ (path.map baseName).getD "<stdin>" ++ ":\x1b[0m"

/-- The line that begins at a byte of the source. -/
def lineAt (source : Bytes) (byte : Nat) : Bytes :=
  let line := (source.drop byte).takeWhile (· != '\n'.toUInt8)
  (line.reverse.dropWhile (· == '\r'.toUInt8)).reverse

/-- Marks the place of an error below its line. -/
def underline (p : Asm.Position) : String :=
  Text.padLeft (p.byte - p.lineByte + 1) ' ' "^" ++ String.ofList (List.replicate (p.size - 1) '~')

/-- An error with its place. -/
def shown (source : Bytes) (e : Asm.Error) : Bytes :=
  match e.position? with
  | none => Bytes.ofString (e.message ++ "\n")
  | some p =>
    Bytes.ofString (e.message ++ "\n") ++ lineAt source p.lineByte ++
      Bytes.ofString ("\n\x1b[31m" ++ underline p ++ "\x1b[0m\n")

/-! ## The program -/

/-- Assembles a source and stores the result. -/
def build (request : Request) (env : Environment) (source : Bytes) : Outcome :=
  let mark := Bytes.ofString (mark request.path)
  match Asm.assemble source with
  | .error errors =>
    { code := 1, errors := errors.flatMap fun e => mark ++ shown source e, files := env.files }
  | .ok program =>
    let text := Hex.encode program.base program.data.toList request.width
    match env.files.write request.outputPath text with
    | .ok files => { files }
    | .error e =>
      { code := 1
        errors := mark ++ Bytes.ofString "Error writing output file\n" ++ mark ++
          Bytes.ofString (e.message ++ "\n")
        files := env.files }

/-- Serves a request. -/
def serve (request : Request) (env : Environment) : Outcome :=
  match request.path with
  | none => build request env env.input
  | some path =>
    match env.files.read path with
    | .ok source => build request env source
    | .error e =>
      { code := 1
        errors := Bytes.ofString (mark request.path ++ e.message ++ "\n")
        files := env.files }

/-- The program. -/
def program (arguments : List String) (env : Environment) : Outcome :=
  match parse arguments with
  | .error e => { code := 1, errors := usageErrors "" usage e, files := env.files }
  | .ok request => serve request env

end AvrSim.Cli.Assemble
