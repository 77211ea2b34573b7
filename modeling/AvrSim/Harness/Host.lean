/-!
# Hosts by number

A host can be given by its number. One form is four numbers up to 255 divided by dots. The other is eight
groups of up to four hexadecimal digits divided by colons: two colons in a row stand once for one or more
groups of zeros, the last two groups may be written in the first form, and a zone may follow after `%`.

* `Host.isNumber` recognises both.
-/

namespace AvrSim.Host

/-- Whether a text is a number up to 255 without needless zeros in front. -/
def isOctet (text : String) : Bool :=
  text.length ≤ 3 && text.all Char.isDigit && (text == "0" || !text.startsWith "0") &&
    text.toNat?.any (· < 256)

/-- Whether a text is four numbers up to 255, divided by dots. -/
def isDotted (text : String) : Bool :=
  let octets := text.splitToList (· == '.')
  octets.length == 4 && octets.all isOctet

/-- Whether a character is a hexadecimal digit. -/
def isHexDigit (c : Char) : Bool :=
  c.isDigit || ('a' ≤ c && c ≤ 'f') || ('A' ≤ c && c ≤ 'F')

/-- Whether a text is a group of one to four hexadecimal digits. -/
def isGroup (text : String) : Bool :=
  1 ≤ text.length && text.length ≤ 4 && text.all isHexDigit

/-- The number of groups that texts stand for, of which the last may stand for two. -/
def groupCount? : List String → Option Nat
  | [] => some 0
  | [last] => if isGroup last then some 1 else if isDotted last then some 2 else none
  | text :: rest => if isGroup text then (groupCount? rest).map (· + 1) else none

/-- Whether texts on both sides of two colons leave room for a group of zeros. Colons at the very end
leave one empty text after them. -/
def fits (left right : List String) : Bool :=
  let right := if right = [""] then some [] else if right = [] then none else some right
  left.all isGroup && (right.bind groupCount?).any (left.length + · ≤ 7)

/-- Whether a text is eight groups divided by colons, with zeros left out at most once. -/
def isColoned (text : String) : Bool :=
  match text.splitToList (· == ':') with
  | "" :: "" :: right => fits [] right
  | "" :: _ => false
  | groups =>
    match groups.dropWhile (· ≠ "") with
    | [] => groupCount? groups == some 8
    | _ :: right => fits (groups.takeWhile (· ≠ "")) right

/-- Whether a text is such groups, perhaps with a zone that has a name. -/
def isZoned (text : String) : Bool :=
  let characters := text.toList
  isColoned (String.ofList (characters.takeWhile (· != '%'))) &&
    characters.dropWhile (· != '%') != ['%']

/-- Whether a host is given by number. The first dot or colon tells the form. -/
def isNumber (host : String) : Bool :=
  match host.toList.find? fun c => c == '.' || c == ':' || c == '%' with
  | some '.' => isDotted host
  | some ':' => isZoned host
  | _ => false

end AvrSim.Host
