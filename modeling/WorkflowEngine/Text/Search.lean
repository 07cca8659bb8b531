/-!
# Searching text

A text occurs in another if it is a run of its characters; the empty text occurs everywhere.
-/
namespace WorkflowEngine.Text

/-- Whether the first list is a run of the second. -/
def occursIn (part : List Char) : List Char → Bool
  | [] => part.isEmpty
  | c :: rest => part.isPrefixOf (c :: rest) || occursIn part rest

theorem occursIn_iff {part whole : List Char} : occursIn part whole = true ↔ part <:+: whole := by
  induction whole with
  | nil => simp [occursIn, List.isEmpty_iff]
  | cons c rest ih => simp [occursIn, ih, List.infix_cons_iff]

/-- Whether a text occurs in another. -/
def occurs (part whole : String) : Bool := occursIn part.toList whole.toList

end WorkflowEngine.Text
