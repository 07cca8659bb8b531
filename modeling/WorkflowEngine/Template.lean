import WorkflowEngine.Path
import WorkflowEngine.Time
import WorkflowEngine.Value.Text
import WorkflowEngine.Text.Blank
import WorkflowEngine.Text.Word

/-!
# Templates

A placeholder is a path between double braces, with layout allowed around the path. Rendering
replaces every placeholder by the text of the value that its path leads to, in one pass from left
to right: what comes out of the event data is not looked at again.
-/
namespace WorkflowEngine.Template

open Text

/-- Characters of a path in a placeholder. -/
def isPathChar (c : Char) : Bool := isWord c || c == '.' || c == '-'

/-- The rest after two closing braces. -/
def close? : List Char → Option (List Char)
  | '\x7d' :: '\x7d' :: rest => some rest
  | _ => none

/-- The path of a placeholder after its opening braces, and what follows the placeholder. -/
def body? (cs : List Char) : Option (List Char × List Char) :=
  let cs := cs.dropWhile isLayout
  let path := cs.takeWhile isPathChar
  if path.isEmpty then none
  else (close? ((cs.dropWhile isPathChar).dropWhile isLayout)).map (path, ·)

/-- The placeholder at the front of a text. -/
def placeholder? : List Char → Option (List Char × List Char)
  | '\x7b' :: '\x7b' :: rest => body? rest
  | _ => none

theorem length_dropWhile_le (p : Char → Bool) (cs : List Char) :
    (cs.dropWhile p).length ≤ cs.length := by
  induction cs with
  | nil => simp
  | cons c rest ih =>
    simp only [List.dropWhile_cons]
    split
    · simp only [List.length_cons]; omega
    · simp

theorem close?_length {cs rest : List Char} (h : close? cs = some rest) :
    rest.length < cs.length := by
  unfold close? at h
  split at h
  · simp only [Option.some.injEq] at h
    subst h
    simp only [List.length_cons]
    omega
  · simp at h

theorem body?_length {cs path rest : List Char} (h : body? cs = some (path, rest)) :
    rest.length < cs.length := by
  unfold body? at h
  dsimp only at h
  split at h
  · simp at h
  · rw [Option.map_eq_some_iff] at h
    obtain ⟨r, hr, he⟩ := h
    simp only [Prod.mk.injEq] at he
    rw [← he.2]
    have h1 := close?_length hr
    have h2 := length_dropWhile_le isLayout
      ((cs.dropWhile isLayout).dropWhile isPathChar)
    have h3 := length_dropWhile_le isPathChar (cs.dropWhile isLayout)
    have h4 := length_dropWhile_le isLayout cs
    omega

theorem placeholder?_length {cs path rest : List Char}
    (h : placeholder? cs = some (path, rest)) : rest.length < cs.length := by
  unfold placeholder? at h
  split at h
  · have := body?_length h
    simp only [List.length_cons]
    omega
  · simp at h

/-- A text with its placeholders replaced. -/
def substitute (value : List Char → List Char) (cs : List Char) : List Char :=
  match _h : placeholder? cs with
  | some (path, rest) => value path ++ substitute value rest
  | none =>
    match cs with
    | [] => []
    | c :: rest => c :: substitute value rest
termination_by cs.length
decreasing_by
  · exact placeholder?_length _h
  · simp

/-- What a path stands for when the event data does not have it. -/
def builtin (now : WallClock) (path : String) : String :=
  if path = "date" then now.dateText
  else if path = "time" then now.timeText
  else ""

/-- The text that a placeholder's path stands for; null and missing values are empty. -/
def valueText (now : WallClock) (context : Value) (path : String) : String :=
  match Path.resolve? context path with
  | none => builtin now path
  | some .null => ""
  | some v => v.display

/-- Renders a template. -/
def render (now : WallClock) (context : Value) (template : String) : String :=
  String.ofList
    (substitute (fun path => (valueText now context (String.ofList path)).toList) template.toList)

mutual

/-- Renders every text inside a value; the names of fields are no templates. -/
def renderValue (now : WallClock) (context : Value) : Value → Value
  | .text s => .text (render now context s)
  | .list items => .list (renderItems now context items)
  | .object fields => .object (renderFields now context fields)
  | v => v

def renderItems (now : WallClock) (context : Value) : List Value → List Value
  | [] => []
  | item :: rest => renderValue now context item :: renderItems now context rest

def renderFields (now : WallClock) (context : Value) :
    List (String × Value) → List (String × Value)
  | [] => []
  | (name, value) :: rest => (name, renderValue now context value) :: renderFields now context rest

end

end WorkflowEngine.Template
