import WorkflowEngine.Text.Hex
import WorkflowEngine.Text.Printable

/-!
# Quoted text

Text between quotes, as it stands inside the text of a list or an object and in error messages.
Single quotes are used unless the text has single quotes and no double ones. The quote itself, the
backslash and unprintable characters are escaped.
-/
namespace WorkflowEngine.Text.Quoted

/-- An unprintable character: two, four or eight hexadecimal digits, as it needs. -/
def escapeCode (n : Nat) : List Char :=
  if n ≤ 0xff then '\\' :: 'x' :: Hex.write 2 n
  else if n ≤ 0xffff then '\\' :: 'u' :: Hex.write 4 n
  else '\\' :: 'U' :: Hex.write 8 n

/-- One character between the given quotes. -/
def encodeChar (quote c : Char) : List Char :=
  if c == quote || c == '\\' then ['\\', c]
  else if c == '\t' then ['\\', 't']
  else if c == '\n' then ['\\', 'n']
  else if c == '\r' then ['\\', 'r']
  else if isPrintable c then [c]
  else escapeCode c.toNat

/-- The quote that text is put between. -/
def quoteFor (cs : List Char) : Char :=
  if cs.contains '\x27' && !cs.contains '\x22' then '\x22' else '\x27'

/-- Text between quotes. -/
def encode (s : String) : String :=
  let quote := quoteFor s.toList
  String.ofList (quote :: s.toList.flatMap (encodeChar quote) ++ [quote])

end WorkflowEngine.Text.Quoted
