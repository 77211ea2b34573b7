import AvrSim.Numeral

/-!
# Command line flags

Reading the arguments of a program. Flags begin with two dashes, or with one dash and a single letter, and
may stand anywhere before a bare `--`. A value is attached with `=` or is the next argument; a truth value
can only be attached, and without one the flag means true. The last value of a flag counts, but all are
checked in the order they are given.

* `FlagSpec` describes a flag.
* `Flags.parse` reads arguments and gives the values and the remaining arguments.
-/

namespace AvrSim.Cli

/-- What a flag takes. -/
inductive FlagKind
  | text
  | truth
  | unsigned
  | signed
  deriving DecidableEq, Repr

/-- A flag: its name, its letter if it has one, and what it takes. -/
structure FlagSpec where
  name : String
  letter : Option Char := none
  kind : FlagKind
  deriving DecidableEq, Repr

/-- Why arguments were refused. -/
inductive FlagError
  | badSyntax (argument : String)
  | unknown (name : String)
  | unknownLetter (letter : UInt8) (letters : Bytes)
  | needsValue (argument : String)
  | letterNeedsValue (letter : UInt8) (letters : Bytes)
  | badValue (value : String) (flag : FlagSpec) (refusal : Numeral.Refusal)
  | argumentCount (expected : String) (received : Nat)
  deriving DecidableEq, Repr

/-- How a flag is called in messages. -/
def FlagSpec.title (flag : FlagSpec) : String :=
  match flag.letter with
  | some c => "-" ++ c.toString ++ ", --" ++ flag.name
  | none => "--" ++ flag.name

/-- A letter in single quotes. A byte stands for the character with its number. -/
def quotedLetter (b : UInt8) : String :=
  let c := Char.ofNat b.toNat
  if c = '"' then "'\"'"
  else if c = '\'' then "'\\''"
  else "'" ++ ((Text.quoted (Bytes.ofString c.toString)).drop 1 |>.dropEnd 1).toString ++ "'"

/-- The wording of a refusal. -/
def FlagError.message : FlagError → Bytes
  | badSyntax argument => Bytes.ofString ("bad flag syntax: " ++ argument)
  | unknown name => Bytes.ofString ("unknown flag: --" ++ name)
  | unknownLetter letter letters =>
    Bytes.ofString ("unknown shorthand flag: " ++ quotedLetter letter ++ " in -") ++ letters
  | needsValue argument => Bytes.ofString ("flag needs an argument: " ++ argument)
  | letterNeedsValue letter letters =>
    Bytes.ofString ("flag needs an argument: " ++ quotedLetter letter ++ " in -") ++ letters
  | badValue value flag refusal =>
    Bytes.ofString ("invalid argument " ++ Text.quoted (Bytes.ofString value) ++ " for " ++
      Text.quoted (Bytes.ofString flag.title) ++ " flag: " ++ refusal.message)
  | argumentCount expected received =>
    Bytes.ofString ("accepts " ++ expected ++ " arg(s), received " ++ toString received)

/-- The values of flags in the order they were given, and the arguments that are no flags. -/
structure Flags where
  values : List (String × String) := []
  arguments : List String := []
  deriving DecidableEq, Repr

namespace Flags

/-! ## Values -/

/-- Whether a value is one that a flag takes. -/
def check (flag : FlagSpec) (value : String) : Except FlagError Unit :=
  let refuse {α : Type} (result : Except Numeral.Refusal α) : Except FlagError Unit :=
    match result with
    | .ok _ => .ok ()
    | .error refusal => .error (.badValue value flag refusal)
  let bytes := Bytes.ofString value
  match flag.kind with
  | .text => .ok ()
  | .truth => refuse (Numeral.truth bytes)
  | .unsigned => refuse (Numeral.readUnsigned .marked 32 bytes)
  | .signed => refuse (Numeral.readSigned .marked 64 bytes)

/-- Adds a value. -/
def set (flags : Flags) (flag : FlagSpec) (value : String) : Except FlagError Flags := do
  check flag value
  return { flags with values := flags.values ++ [(flag.name, value)] }

/-- The last value of a flag. -/
def value? (flags : Flags) (name : String) : Option String :=
  (flags.values.reverse.find? (·.1 == name)).map (·.2)

/-- The value of a text flag. -/
def text (flags : Flags) (name default : String) : String := (flags.value? name).getD default

/-- The value of a truth flag, false if it is not given. -/
def truth (flags : Flags) (name : String) : Bool :=
  match flags.value? name with
  | some value => (Numeral.truth (Bytes.ofString value)).toOption.getD false
  | none => false

/-- The value of an unsigned flag. -/
def unsigned (flags : Flags) (name : String) (default : Nat) : Nat :=
  match flags.value? name with
  | some value => (Numeral.unsigned .marked 32 (Bytes.ofString value)).toOption.getD default
  | none => default

/-- The value of a signed flag. -/
def signed (flags : Flags) (name : String) (default : Int) : Int :=
  match flags.value? name with
  | some value => (Numeral.signed .marked 64 (Bytes.ofString value)).toOption.getD default
  | none => default

/-! ## Arguments -/

/-- What a flag on the command line says: it is complete, with this value, or it takes the next
argument, or the error if there is none. -/
inductive Pending
  | complete (flag : FlagSpec) (value : String)
  | takesNext (flag : FlagSpec) (missing : FlagError)
  deriving DecidableEq, Repr

/-- A flag given by name. -/
def long (specs : List FlagSpec) (argument : String) : Except FlagError Pending :=
  let body := argument.toList.drop 2
  if body.head? == some '-' || body.head? == some '=' then .error (.badSyntax argument)
  else
    let name := String.ofList (body.takeWhile (· != '='))
    match specs.find? (·.name == name) with
    | none => .error (.unknown name)
    | some flag =>
      match body.dropWhile (· != '=') with
      | _ :: value => .ok (.complete flag (String.ofList value))
      | [] =>
        if flag.kind = .truth then .ok (.complete flag "true")
        else .ok (.takesNext flag (.needsValue argument))

/-- A flag given by its letter. All flags with a letter take a text. -/
def short (specs : List FlagSpec) (argument : String) : Except FlagError Pending :=
  let letters := (Bytes.ofString argument).drop 1
  let first := letters.headD 0
  match specs.find? fun flag => flag.letter.any fun c => c.toNat == first.toNat with
  | none => .error (.unknownLetter first letters)
  | some flag =>
    match argument.toList.drop 2 with
    | [] => .ok (.takesNext flag (.letterNeedsValue first letters))
    | ['='] => .ok (.complete flag "=")
    | '=' :: value => .ok (.complete flag (String.ofList value))
    | value => .ok (.complete flag (String.ofList value))

/-- Whether an argument is a flag. -/
def isFlag (argument : String) : Bool := argument.startsWith "-" && argument != "-"

/-- Whether an argument is meant for a test runner; such arguments are passed over. -/
def isTestFlag (argument : String) : Bool := argument.startsWith "-test."

/-- Reads arguments after those that gave `flags`. -/
def parseFrom (specs : List FlagSpec) (flags : Flags) : List String → Except FlagError Flags
  | [] => .ok flags
  | argument :: rest =>
    if argument = "--" then .ok { flags with arguments := flags.arguments ++ rest }
    else if !isFlag argument then
      parseFrom specs { flags with arguments := flags.arguments ++ [argument] } rest
    else if isTestFlag argument then parseFrom specs flags rest
    else do
      let pending ← if argument.startsWith "--" then long specs argument else short specs argument
      match pending, rest with
      | .complete flag value, rest => parseFrom specs (← flags.set flag value) rest
      | .takesNext flag _, value :: rest => parseFrom specs (← flags.set flag value) rest
      | .takesNext _ missing, [] => .error missing

/-- Reads arguments. -/
def parse (specs : List FlagSpec) (arguments : List String) : Except FlagError Flags :=
  parseFrom specs {} arguments

end Flags

end AvrSim.Cli
