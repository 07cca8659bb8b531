import WorkflowEngine.Kinds
import WorkflowEngine.Text.UpperCase
import WorkflowEngine.Text.Integer

/-!
# Parameters of actions

Each kind of action declares its parameters. `ActionParams.ofValue` checks authored parameters
against the declarations: texts are never made from other values, names are stripped and must not
be blank, numbers of days may be written as text, and anything undeclared is kept as it is. Either
every declared parameter is sound, or all that are not are reported together.
-/
namespace WorkflowEngine

open Text

/-- What a parameter may be. -/
inductive ParamType where
  | text
  | optionalText
  /-- Text that is not blank, without layout around it. -/
  | name
  /-- Null or an integer that is not negative. -/
  | optionalCount
  | method
  /-- The address of a web service, or a template for one. -/
  | url
  | optionalObject
  deriving DecidableEq, Repr

/-- A declared parameter; one without a default must be given. -/
structure ParamSpec where
  name : String
  type : ParamType
  default? : Option Value
  deriving DecidableEq, Repr

/-- Why one parameter is refused. -/
inductive ParamDefect where
  | missing
  | notText
  | blank
  | notInteger
  | unreadableInteger
  | oversizedInteger
  | fractionalInteger
  | negativeInteger
  | notMethod
  | notUrl
  | notObject
  deriving DecidableEq, Repr

/-- Why the parameters of an action are refused. -/
inductive ParamsError where
  | notAnObject
  | defects (found : List (String × ParamDefect))
  /-- A message has neither a template nor a text. -/
  | nothingToSend
  deriving DecidableEq, Repr

/-- Checked parameters: the declared ones in order of declaration, then all others. -/
structure ActionParams where
  declared : Record
  extra : Record
  deriving DecidableEq, Repr

namespace ParamDefect

def message : ParamDefect → String
  | missing => "Field required"
  | notText => "Input should be a valid string"
  | blank => "Value error, must not be empty"
  | notInteger => "Input should be a valid integer"
  | unreadableInteger => "Input should be a valid integer, unable to parse string as an integer"
  | oversizedInteger => "Unable to parse input string as an integer, exceeded maximum size"
  | fractionalInteger => "Input should be a valid integer, got a number with a fractional part"
  | negativeInteger => "Input should be greater than or equal to 0"
  | notMethod => "Input should be 'GET', 'POST' or 'PUT'"
  | notUrl => "Value error, webhook_url must be an http(s) URL"
  | notObject => "Input should be a valid dictionary"

end ParamDefect

namespace ActionKind

def required (name : String) (type : ParamType) : ParamSpec := ⟨name, type, none⟩

def optional (name : String) (type : ParamType) : ParamSpec := ⟨name, type, some .null⟩

/-- The declared parameters of each kind of action. -/
def params : ActionKind → List ParamSpec
  | .sendWhatsapp =>
    [optional "template" .optionalText, optional "message" .optionalText,
      optional "session_id" .optionalText]
  | .sendEmail => [required "subject" .name, required "body" .text, optional "to" .optionalText]
  | .moveStage => [required "target_stage_id" .name]
  | .addTag | .removeTag => [required "tag_id" .name]
  | .assignUser => [required "user_id" .name]
  | .createTask =>
    [required "task_title" .name, optional "task_description" .optionalText,
      ⟨"task_type", .text, some (.text "task")⟩, optional "due_days" .optionalCount]
  | .sendNotification =>
    [required "user_id" .name, required "title" .name, optional "content" .optionalText]
  | .webhook =>
    [required "webhook_url" .url, ⟨"method", .method, some (.text "POST")⟩,
      optional "payload" .optionalObject]

/-- Words with their first letter in upper case, run together. -/
def joinWords (upper : Bool) : List Char → List Char
  | [] => []
  | c :: rest =>
    if c == '_' then joinWords true rest
    else (if upper then c.toUpper else c) :: joinWords false rest

/-- The title of the declarations of a kind. -/
def paramsTitle (kind : ActionKind) : String :=
  String.ofList (joinWords true kind.name.toList) ++ "Params"

end ActionKind

namespace ParamType

/-- A text that is not blank, stripped. -/
def readName (s : String) : Except ParamDefect String :=
  let stripped := strip s
  if stripped = "" then .error .blank else .ok stripped

/-- A plain number: an optional minus sign, and digits that do not begin with a zero unless they are
no more than that. How many digits there are is looked at before what follows them. -/
def readPlain (cs : List Char) : Except ParamDefect Int :=
  let (negative, digits) : Bool × List Char := match cs with
    | '-' :: rest => (true, rest)
    | cs => (false, cs)
  let run := digits.takeWhile Char.isDigit
  let rest := digits.dropWhile Char.isDigit
  match run with
  | [] => .error .unreadableInteger
  | ['0'] => if rest.isEmpty then .ok 0 else .error .unreadableInteger
  | '0' :: _ => .error .unreadableInteger
  | run =>
    if Integer.maxDigits < run.length then .error .oversizedInteger
    else if rest.isEmpty then
      let n := Integer.ofDigits (run.map fun c => c.toNat - 0x30)
      .ok (if negative then -(n : Int) else n)
    else .error .unreadableInteger

/-- What follows leading zeros and the underscores after them. The last of these is kept before a
point, and if nothing follows. -/
def skipZeros (last : Char) : List Char → Option (List Char)
  | [] => some [last]
  | c :: rest =>
    if c = '0' ∨ c = '_' then skipZeros c rest
    else if c.isDigit ∨ c = '-' then some (c :: rest)
    else if c = '.' then some (last :: c :: rest)
    else none

/-- A number begins with a digit or a minus sign; leading zeros are dropped. -/
def dropZeros : List Char → Option (List Char)
  | '0' :: rest => skipZeros '0' rest
  | c :: rest => if c.isDigit ∨ c = '-' then some (c :: rest) else none
  | [] => none

/-- A plus sign is dropped, unless a minus sign follows it. -/
def dropPlus : List Char → Option (List Char)
  | '+' :: '-' :: _ => none
  | '+' :: rest => some rest
  | cs => some cs

/-- A point with nothing but zeros after it is dropped. -/
def dropZeroFraction (cs : List Char) : List Char :=
  let fraction := (cs.dropWhile (· ≠ '.')).drop 1
  if fraction ≠ [] ∧ fraction.all (· == '0') then cs.takeWhile (· ≠ '.') else cs

/-- Whether two underscores stand next to each other. -/
def hasDoubleUnderscore : List Char → Bool
  | '_' :: '_' :: _ => true
  | _ :: rest => hasDoubleUnderscore rest
  | [] => false

/-- Single underscores inside are dropped. -/
def dropUnderscores (cs : List Char) : List Char :=
  if cs.head? = some '_' ∨ cs.getLast? = some '_' ∨ hasDoubleUnderscore cs then cs
  else cs.filter (· ≠ '_')

/-- A number without leading zeros, single underscores and a point with only zeros after it. -/
def tidyDigits? (cs : List Char) : Option (List Char) :=
  (dropZeros cs).map fun cs => dropUnderscores (dropZeroFraction cs)

/-- The plain number that a text stands for. What follows a minus sign is a number of its own. -/
def tidy? (cs : List Char) : Option (List Char) := do
  match ← dropPlus (trim isWhiteSpace cs) with
  | '-' :: cs => return '-' :: (← tidyDigits? cs)
  | cs => tidyDigits? cs

/-- A count written as text: a plain number, or a text that stands for one. Only a plain number can
be refused for its length. -/
def readCountText (s : String) : Except ParamDefect Int :=
  match readPlain s.toList with
  | .error .unreadableInteger =>
    match (tidy? s.toList).map readPlain with
    | some (.ok n) => .ok n
    | _ => .error .unreadableInteger
  | r => r

/-- An integer of any lenient form. -/
def readInteger : Value → Except ParamDefect Int
  | .bool b => .ok (if b then 1 else 0)
  | .int n => .ok n
  | .float x =>
    if !x.isWhole then .error .fractionalInteger
    else if x.truncate.natAbs < Nat.pow 2 63 then .ok x.truncate
    else .error .oversizedInteger
  | .text s => readCountText s
  | _ => .error .notInteger

/-- The methods that a web service may be called with. -/
def methods : List String := ["GET", "POST", "PUT"]

def readMethod (v : Value) : Except ParamDefect Value :=
  match v with
  | .text s =>
    let method := upperKeyword s
    if methods.contains method then .ok (.text method) else .error .notMethod
  | _ => .error .notMethod

/-- Whether a text begins like an address, or with a placeholder. -/
def isUrl (s : String) : Bool :=
  ["http://".toList, "https://".toList, ['\x7b', '\x7b']].any (·.isPrefixOf s.toList)

/-- A value read as a parameter. -/
def read (type : ParamType) (v : Value) : Except ParamDefect Value :=
  match type with
  | text =>
    match v with
    | .text s => .ok (.text s)
    | _ => .error .notText
  | optionalText =>
    match v with
    | .null => .ok .null
    | .text s => .ok (.text s)
    | _ => .error .notText
  | name =>
    match v with
    | .text s => (readName s).map .text
    | _ => .error .notText
  | optionalCount =>
    match v with
    | .null => .ok .null
    | v => do
      let n ← readInteger v
      if n < 0 then throw .negativeInteger
      return .int n
  | method => readMethod v
  | url =>
    match v with
    | .text s => do
      let s ← readName s
      if isUrl s then return .text s else throw .notUrl
    | _ => .error .notText
  | optionalObject =>
    match v with
    | .null => .ok .null
    | .object fields => .ok (.object fields)
    | _ => .error .notObject

end ParamType

namespace ParamSpec

/-- The parameter among the given ones, read or defaulted. -/
def read (spec : ParamSpec) (given : Record) : Except ParamDefect Value :=
  match given.lookup spec.name, spec.default? with
  | some v, _ => spec.type.read v
  | none, some v => .ok v
  | none, none => .error .missing

end ParamSpec

namespace ActionParams

/-- The defects of the declared parameters, in order of declaration. -/
def defectsOf (specs : List ParamSpec) (given : Record) : List (String × ParamDefect) :=
  specs.filterMap fun spec =>
    match spec.read given with
    | .ok _ => none
    | .error defect => some (spec.name, defect)

/-- The declared parameters that are sound. -/
def valuesOf (specs : List ParamSpec) (given : Record) : Record :=
  specs.filterMap fun spec =>
    match spec.read given with
    | .ok v => some (spec.name, v)
    | .error _ => none

/-- What is not declared. -/
def extraOf (specs : List ParamSpec) (given : Record) : Record :=
  given.filter fun field => !specs.any (·.name == field.1)

/-- Whether there is something to send: messages need a template or a text. -/
def hasContent (kind : ActionKind) (declared : Record) : Bool :=
  kind != .sendWhatsapp ||
    ["template", "message"].any fun name => (declared.lookup name).any Value.isGiven

/-- Checks the parameters of an action. -/
def ofRecord (kind : ActionKind) (given : Record) : Except ParamsError ActionParams :=
  let defects := defectsOf kind.params given
  let declared := valuesOf kind.params given
  if defects ≠ [] then .error (.defects defects)
  else if hasContent kind declared then .ok ⟨declared, extraOf kind.params given⟩
  else .error .nothingToSend

def ofValue (kind : ActionKind) (v : Value) : Except ParamsError ActionParams :=
  match v with
  | .object given => ofRecord kind given
  | _ => .error .notAnObject

/-- Every parameter, null or not. -/
def toRecord (p : ActionParams) : Record := p.declared ++ p.extra

/-- The parameters that are not null. -/
def givenRecord (p : ActionParams) : Record := p.toRecord.filter (·.2 ≠ .null)

end ActionParams

namespace ParamsError

/-- Each problem with the name of its parameter. -/
def problems (kind : ActionKind) : ParamsError → List String
  | notAnObject =>
    ["params: Input should be a valid dictionary or instance of " ++ kind.paramsTitle]
  | defects found => found.map fun (name, defect) => name ++ ": " ++ defect.message
  | nothingToSend => ["params: Value error, either 'template' or 'message' is required"]

def message (kind : ActionKind) (e : ParamsError) : String :=
  "Invalid parameters for action '" ++ kind.name ++ "': " ++ "; ".intercalate (e.problems kind)

end ParamsError
end WorkflowEngine
