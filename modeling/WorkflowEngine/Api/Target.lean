import WorkflowEngine.Error
import WorkflowEngine.Text.Percent
import WorkflowEngine.Text.Quoted
import WorkflowEngine.Uuid

/-!
# Targets of requests

A target is a path, after which parameters may follow; a scheme and the name of a host may stand
before it. Percent signs in a path are read before the path is cut into its parts, so that an
escaped slash divides parts as any other does.
-/
namespace WorkflowEngine.Api

/-- One sign of a target: a character, or the whole identifier of an instance. -/
inductive Sign where
  | char (c : Char)
  | id (id : InstanceId)
  deriving DecidableEq, Repr

/-- A part of a path. -/
structure Segment where
  signs : List Sign
  deriving DecidableEq, Repr

structure Target where
  path : List Segment
  /-- The parameters as they are given; the last one of a name counts. -/
  params : List (String × String)
  deriving DecidableEq, Repr

/-- Why a text is no target. -/
inductive TargetError where
  | tooLong
  /-- A control character is never escaped on the way. -/
  | control (c : Char) (position : Nat)
  /-- What follows the name of a host is no number. -/
  | hostNumber (text : String)
  | address (text : String)
  /-- What follows two slashes would be a host. -/
  | doubleSlash
  /-- What stands before a colon would be a scheme. -/
  | colon
  deriving DecidableEq, Repr

namespace TargetError

def message : TargetError → String
  | tooLong => "URL too long"
  | control c position =>
    "Invalid non-printable ASCII character in URL, " ++ Text.Quoted.encode (String.singleton c) ++
      " at position " ++ toString position ++ "."
  | hostNumber text => "Invalid port: " ++ Text.Quoted.encode text
  | address text => "Invalid IPv4 address: " ++ Text.Quoted.encode text
  | doubleSlash => "Relative URLs cannot have a path starting with '//'"
  | colon => "Relative URLs cannot have a path starting with ':'"

end TargetError

namespace Sign

def slash : Sign := char '/'

def ofText (s : String) : List Sign := s.toList.map char

/-- The number of characters of a sign. -/
def size : Sign → Nat
  | char _ => 1
  | id _ => 36

/-- The number of characters of several signs. -/
def sizes (signs : List Sign) : Nat := signs.foldl (fun n sign => n + sign.size) 0

/-- The characters of a sign. -/
def toChars : Sign → List Char
  | char c => [c]
  | id i => i.toList

/-- The signs with the characters between identifiers changed; some of them come before. -/
def mapCharsAfter (f : List Char → List Char) (before : List Char) : List Sign → List Sign
  | [] => (f before).map char
  | char c :: rest => mapCharsAfter f (before ++ [c]) rest
  | id i :: rest => (f before).map char ++ id i :: mapCharsAfter f [] rest

/-- The signs with every percent sign read. -/
def decode (signs : List Sign) : List Sign := mapCharsAfter Text.Percent.decode [] signs

end Sign

namespace Segment

def ofText (s : String) : Segment := ⟨Sign.ofText s⟩

/-- A part of a path as text. -/
def name (s : Segment) : String := String.ofList (s.signs.flatMap Sign.toChars)

/-- The identifier that a part of a path stands for: that of an instance, or the canonical form of
one. -/
def id? (s : Segment) : Option InstanceId :=
  match Uuid.bare Sign.char s.signs with
  | [.id i] => some i
  | signs =>
    if signs.all fun s => s matches .char _ then
      (Uuid.number? (signs.flatMap Sign.toChars)).map Uuid.text
    else none

end Segment

namespace Target

/-- The first control character of a text, of which some characters come before. -/
def control? (position : Nat) : List Sign → Option TargetError
  | [] => none
  | .char c :: rest =>
    if c.toNat < 0x20 ∨ c.toNat = 0x7f then some (.control c position)
    else control? (position + 1) rest
  | sign :: rest => control? (position + sign.size) rest

/-- Whether a character may stand in a scheme. -/
def isSchemeChar (c : Char) : Bool :=
  c.isAlphanum || c == '+' || c == '.' || c == '-'

/-- Whether a text begins with a scheme, and the rest after its colon. A colon may also stand there
without a scheme. -/
def splitScheme (signs : List Sign) : Bool × List Sign :=
  let isPart (s : Sign) := s.toChars.all isSchemeChar
  match signs.takeWhile isPart, signs.dropWhile isPart with
  | [], .char ':' :: rest => (false, rest)
  | .char c :: _, .char ':' :: rest => if c.isAlpha then (true, rest) else (false, signs)
  | _, _ => (false, signs)

/-- The host after two slashes, and the path. -/
def splitHost : List Sign → List Char × List Sign
  | .char '/' :: .char '/' :: rest =>
    ((rest.takeWhile (· ≠ Sign.slash)).flatMap Sign.toChars, rest.dropWhile (· ≠ Sign.slash))
  | signs => ([], signs)

/-- Whether four runs of digits, with dots between them, are an address: each is a number below 256
without leading zeros. -/
def isAddress (runs : List (List Char)) : Bool :=
  runs.all fun run =>
    run.length ≤ 3 && (run.head? ≠ some '0' || run.length = 1) &&
      (Text.Integer.ofDigits (run.map fun c => c.toNat - 0x30)) < 256

/-- Refuses the name of a host that looks like an address and is none. -/
def checkName (name : List Char) : Except TargetError Unit :=
  let runs := name.splitOn '.'
  let looksSo := runs.length = 4 && runs.all fun run => run ≠ [] && run.all Char.isDigit
  if looksSo && !isAddress runs then .error (.address (String.ofList name)) else .ok ()

/-- Refuses a host, which may have a user before its name and a number after it. Otherwise
tells whether any of them is given. -/
def checkHost (host : List Char) : Except TargetError Bool := do
  let named := (host.reverse.takeWhile (· ≠ '@')).reverse
  let hasUser := named.length + 1 < host.length
  let bracketed := (named.reverse.dropWhile (· ≠ ']')).reverse
  let name :=
    if named.head? = some '[' ∧ bracketed ≠ [] then bracketed else named.takeWhile (· ≠ ':')
  let rest := named.drop name.length
  let number := String.ofList (if rest.head? = some ':' then rest.drop 1 else rest)
  checkName name
  if number ≠ "" ∧ (Text.Integer.read number).toOption.isNone then throw (.hostNumber number)
  return hasUser || name ≠ [] || number ≠ ""

/-- The parts of a path without those that mean this place and the one above. -/
def withoutDots (parts : List (List Sign)) : List (List Sign) :=
  parts.foldl (fun kept part =>
    if part = Sign.ofText "." then kept
    else if part = Sign.ofText ".." then (if kept = [[]] then kept else kept.dropLast)
    else kept ++ [part]) []

/-- The parts of a path. Slashes that follow one another count as one. -/
def readPath (signs : List Sign) : List Segment :=
  let parts := [] :: (signs.dropWhile (· = Sign.slash)).splitOn Sign.slash
  let path := Sign.decode ([Sign.slash].intercalate (withoutDots parts))
  ((path.splitOn Sign.slash).filter (· ≠ [])).map Segment.mk

/-- A text among the parameters: a plus sign stands for a blank. -/
def readText (cs : List Char) : String :=
  String.ofList (Text.Percent.decode (cs.map fun c => if c = '+' then ' ' else c))

/-- A name and what follows the first equals sign. -/
def readParam (cs : List Char) : String × String :=
  (readText (cs.takeWhile (· ≠ '=')), readText ((cs.dropWhile (· ≠ '=')).drop 1))

def readParams (cs : List Char) : List (String × String) :=
  ((cs.splitOn '&').filter (· ≠ [])).map readParam

/-- Refuses a path that would read as something else, if nothing comes before it. -/
def checkPath : List Sign → Except TargetError Unit
  | .char '/' :: .char '/' :: _ => .error .doubleSlash
  | .char ':' :: _ => .error .colon
  | _ => .ok ()

/-- Reads a target. What follows a number sign does not count. -/
def ofSigns (signs : List Sign) : Except TargetError Target := do
  if 65536 < Sign.sizes signs then throw .tooLong
  if let some e := control? 0 signs then throw e
  let signs := signs.takeWhile (· ≠ .char '#')
  let (hasScheme, rest) := splitScheme (signs.takeWhile (· ≠ .char '?'))
  let (host, path) := splitHost rest
  if !(← checkHost host) && !hasScheme then checkPath path
  let query := (signs.dropWhile (· ≠ .char '?')).drop 1
  return { path := readPath path, params := readParams (query.flatMap Sign.toChars) }

/-- The parameter with a name. -/
def param? (t : Target) (name : String) : Option String := t.params.reverse.lookup name

end Target
end WorkflowEngine.Api
