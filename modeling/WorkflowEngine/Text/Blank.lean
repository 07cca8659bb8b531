/-!
# Blank characters

Two sets are in use: white space proper, which surrounds a number, and the wider set of layout
characters that separate words, which also has the four information separators of ASCII.
-/
namespace WorkflowEngine.Text

/-- White space: tabs, line breaks, blanks of every width. -/
def isWhiteSpace (c : Char) : Bool :=
  let n := c.toNat
  (0x9 ≤ n && n ≤ 0xd) || n == 0x20 || n == 0x85 || n == 0xa0 || n == 0x1680 ||
    (0x2000 ≤ n && n ≤ 0x200a) || n == 0x2028 || n == 0x2029 || n == 0x202f || n == 0x205f ||
    n == 0x3000

/-- White space and the information separators. -/
def isLayout (c : Char) : Bool :=
  isWhiteSpace c || (0x1c ≤ c.toNat && c.toNat ≤ 0x1f)

/-- Without the characters of a class at either end. -/
def trim {α : Type} (blank : α → Bool) (cs : List α) : List α :=
  ((cs.dropWhile blank).reverse.dropWhile blank).reverse

/-- Text without layout characters at either end. -/
def strip (s : String) : String := String.ofList (trim isLayout s.toList)

theorem isLayout_of_isWhiteSpace {c : Char} (h : isWhiteSpace c = true) : isLayout c = true := by
  simp [isLayout, h]

end WorkflowEngine.Text
