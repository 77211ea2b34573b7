import AvrSim.Text.Quoted

/-!
# Journal

What the simulator reports while it runs: entries with a level, a message and named values, each
written on one line. A journal keeps the entries at or above its threshold.

* `Level.parse` reads a level's name, `Level.label` writes it.
* `Entry.line` is the written form; names and texts that would be ambiguous are quoted.
* `Journal.add` keeps an entry if its level is high enough.
-/

namespace AvrSim

/-! ## Levels -/

/-- How severe an entry is; levels between and beyond the named ones exist. -/
structure Level where
  severity : Int
  deriving DecidableEq, Repr

namespace Level

def trace : Level := ⟨-8⟩
def debug : Level := ⟨-4⟩
def info : Level := ⟨0⟩
def warn : Level := ⟨4⟩
def error : Level := ⟨8⟩

/-- The upper case of a character as far as level names can tell: the ASCII letters, and the dotless i
whose upper case is an ASCII letter. -/
def upper (c : Char) : Char := if c == 'ı' then 'I' else c.toUpper

/-- The level of a name in any case; the empty name means `info`. -/
def parse? (name : String) : Option Level :=
  match String.ofList (name.toList.map upper) with
  | "TRACE" | "TRCE" => some trace
  | "DEBUG" | "DBUG" => some debug
  | "INFO" | "" => some info
  | "WARN" => some warn
  | "ERROR" | "EROR" => some error
  | _ => none

/-- The complaint about a name that is no level. -/
def unknownMessage (name : String) : String :=
  "unknown log level " ++ Text.quoted (Bytes.ofString name)

/-- A base name with the distance from it. -/
def offset (base : String) (distance : Int) : String :=
  if distance = 0 then base
  else if distance < 0 then base ++ "-" ++ toString distance.natAbs
  else base ++ "+" ++ toString distance.natAbs

/-- A level by the nearest of the four standard names at or below it, or `DEBUG` from below. -/
def relativeName (l : Level) : String :=
  if l.severity < 0 then offset "DEBUG" (l.severity + 4)
  else if l.severity < 4 then offset "INFO" l.severity
  else if l.severity < 8 then offset "WARN" (l.severity - 4)
  else offset "ERROR" (l.severity - 8)

/-- The name in a column of five characters; levels without a name of their own may be longer. -/
def label (l : Level) : String :=
  if l = trace then "TRACE"
  else if l = debug then "DEBUG"
  else if l = info then "INFO "
  else if l = warn then "WARN "
  else if l = error then "ERROR"
  else l.relativeName

/-- The name as it stands in an entry. -/
def name (l : Level) : String :=
  if l = trace then "TRACE" else l.relativeName

end Level

/-! ## Entries -/

/-- A value in an entry. -/
inductive Value
  | text (bytes : Bytes)
  | number (n : Int)
  deriving DecidableEq, Repr

/-- A text value from a string. -/
def Value.ofString (s : String) : Value := .text (Bytes.ofString s)

/-- Something reported: how severe, what, and the named values that go with it. -/
structure Entry where
  level : Level
  message : String
  values : List (String × Value) := []
  deriving DecidableEq, Repr

/-- A glyph that cannot stand in a bare text: a control character, a space, `=`, a quote, anything
unprintable, and the replacement character, which may hide a stray byte. -/
def Text.Glyph.needsQuotes : Text.Glyph → Bool
  | .stray _ => true
  | .char c =>
    if c.toNat < 0x80 then c.toNat ≤ 0x20 || c == '=' || c == '"'
    else c == '�' || !Text.isPrintable c

/-- A text, quoted if it is empty or could be misread. -/
def Text.bareOrQuoted (text : Bytes) : String :=
  if text.isEmpty || (Text.glyphs text).any Text.Glyph.needsQuotes then Text.quoted text
  else text.toText

/-- The written form of a value. -/
def Value.written : Value → String
  | .text bytes => Text.bareOrQuoted bytes
  | .number n => toString n

/-- `name=value` -/
def Value.named (name : String) (value : Value) : String :=
  Text.bareOrQuoted (Bytes.ofString name) ++ "=" ++ value.written

/-- The line of an entry. -/
def Entry.line (e : Entry) : String :=
  " ".intercalate <|
    ("level=" ++ e.level.name) :: ("msg=" ++ Text.bareOrQuoted (Bytes.ofString e.message)) ::
      e.values.map fun (name, value) => value.named name

/-- Pairs up a flat list of names and values. A value where a name should stand, and a name with
nothing after it, are kept under the name `!BADKEY`. -/
def Entry.pairValues : List Value → List (String × Value)
  | [] => []
  | .number n :: rest => ("!BADKEY", .number n) :: pairValues rest
  | [.text name] => [("!BADKEY", .text name)]
  | .text name :: value :: rest => (name.toText, value) :: pairValues rest

/-! ## Journals -/

/-- The entries kept so far. A journal without threshold keeps none. -/
structure Journal where
  threshold : Option Level
  entries : Array Entry := #[]
  deriving Repr

namespace Journal

/-- Whether an entry of this level would be kept. -/
def keeps (j : Journal) (l : Level) : Bool :=
  match j.threshold with
  | none => false
  | some least => least.severity ≤ l.severity

/-- Adds an entry if the journal keeps its level. -/
def add (j : Journal) (e : Entry) : Journal :=
  if j.keeps e.level then { j with entries := j.entries.push e } else j

/-- The lines of the entries kept. -/
def lines (j : Journal) : List String := j.entries.toList.map Entry.line

end Journal

end AvrSim
