/-!
# Upper case, as far as it is ASCII

Keywords are ASCII and read without regard to case. A character whose upper-case form is made of
ASCII letters is mapped to it; any other stays, and no keyword contains it.
-/
namespace WorkflowEngine.Text

/-- Characters outside ASCII whose upper-case form is ASCII. -/
def upperForms : List (Nat × List Char) :=
  [(0xdf, ['S', 'S']), (0x131, ['I']), (0x17f, ['S']), (0xfb00, ['F', 'F']), (0xfb01, ['F', 'I']),
    (0xfb02, ['F', 'L']), (0xfb03, ['F', 'F', 'I']), (0xfb04, ['F', 'F', 'L']),
    (0xfb05, ['S', 'T']), (0xfb06, ['S', 'T'])]

def upperChar (c : Char) : List Char :=
  if c.toNat < 0x80 then [c.toUpper] else (upperForms.lookup c.toNat).getD [c]

/-- The upper-case form of a keyword. -/
def upperKeyword (s : String) : String := String.ofList (s.toList.flatMap upperChar)

end WorkflowEngine.Text
