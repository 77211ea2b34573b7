import AvrSim.Harness.Host

/-!
# Listening addresses

An address is a host and a service, divided by a colon. A host that contains colons stands in brackets; an
empty host means every host and an empty service any number. `Address.check` finds out
what makes an address impossible to listen on.
-/

namespace AvrSim.Address

/-- Why nothing can listen on an address. -/
inductive Fault
  | malformed (address reason : String)
  | unknownService (service : String)
  | unknownHost (host : String)
  deriving DecidableEq, Repr

/-- The wording of a fault. -/
def Fault.message : Fault → String
  | .malformed address reason => "address " ++ address ++ ": " ++ reason
  | .unknownService service => "lookup tcp/" ++ service ++ ": unknown port"
  | .unknownHost host => "lookup " ++ host ++ ": no such host"

/-- What stands before and after the last colon. -/
def splitLast (text : List Char) : Option (List Char × List Char) :=
  match text.reverse.dropWhile (· != ':') with
  | [] => none
  | _ :: before => some (before.reverse, (text.reverse.takeWhile (· != ':')).reverse)

/-- The host inside the brackets at the start of an address. -/
def bracketed (text before : List Char) : Except String (List Char) :=
  match text.dropWhile (· != ']') with
  | [] => .error "missing ']' in address"
  | [_] => .error "missing port in address"
  | _ :: next :: _ =>
    let host := text.takeWhile (· != ']')
    if host.length + 1 = before.length then .ok (host.drop 1)
    else if next = ':' then .error "too many colons in address"
    else .error "missing port in address"

/-- The host and the service of an address. -/
def split (address : String) : Except String (String × String) := do
  let text := address.toList
  match splitLast text with
  | none => .error "missing port in address"
  | some (before, service) =>
    let isBracketed := text.head? == some '['
    let host ← if isBracketed then bracketed text before
      else if before.contains ':' then .error "too many colons in address"
      else .ok before
    let plain := if isBracketed then text.drop 1 else text
    if plain.contains '[' then .error "unexpected '[' in address"
    else if (text.drop (if isBracketed then host.length + 2 else 0)).contains ']' then
      .error "unexpected ']' in address"
    else .ok (String.ofList host, String.ofList service)

/-- The services that are known by name, with their numbers. -/
def namedServices : List (String × Nat) :=
  [("ftp", 21), ("ftps", 990), ("gopher", 70), ("http", 80), ("https", 443), ("imap2", 143),
    ("imap3", 220), ("imaps", 993), ("pop3", 110), ("pop3s", 995), ("smtp", 25),
    ("submissions", 465), ("ssh", 22), ("telnet", 23)]

/-- The digits of a service number and whether it is negative. -/
def serviceDigits : List Char → Bool × List Char
  | '+' :: rest => (false, rest)
  | '-' :: rest => (true, rest)
  | digits => (false, digits)

/-- A number that is out of range. -/
def tooLarge : UInt32 := 0xFFFFFFFF

/-- A number with at least this value is out of range, however it goes on. -/
def serviceCutoff : UInt32 := 0x40000000

/-- Reads a service number from its digits after those that gave `n`; none if something else stands among
them. The product with ten wraps at 32 bits, and a number whose next digit does not fit is out of
range, however it goes on. -/
def readService? (n : UInt32) : List Char → Option UInt32
  | [] => some n
  | c :: rest =>
    if !c.isDigit then none
    else if serviceCutoff ≤ n then some tooLarge
    else if n * 10 + (c.val - 48) < n * 10 then some tooLarge
    else readService? (n * 10 + (c.val - 48)) rest

/-- The number of a service, given as a number or by name in capital or small letters. -/
def serviceNumber (service : String) : Except Fault Nat :=
  let (negative, digits) := serviceDigits service.toList
  match readService? 0 digits with
  | some n =>
    if 65535 < n || (negative && n != 0) then .error (.malformed service "invalid port")
    else .ok n.toNat
  | none =>
    match namedServices.find? (·.1 == service.map Char.toLower) with
    | some (_, number) => .ok number
    | none => .error (.unknownService service)

/-- Whether a host can be found without asking anyone: it is this one or given by number. -/
def isKnownHost (host : String) : Bool := host == "" || host == "localhost" || Host.isNumber host

/-- Whether an address is impossible to listen on. Without an address any will do. -/
def check (address : String) : Except Fault Unit := do
  if address = "" then return
  let (host, service) ← (split address).mapError (.malformed address)
  let _ ← serviceNumber service
  if isKnownHost host then .ok () else .error (.unknownHost host)

end AvrSim.Address
