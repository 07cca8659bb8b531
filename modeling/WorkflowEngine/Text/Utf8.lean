/-!
# UTF-8

Characters as sequences of one to four bytes. `decode` reads any sequence of bytes: the longest
beginning of a character that does not go on as it should is read as one replacement character, and
so is a byte that begins none.
-/
namespace WorkflowEngine.Text.Utf8

/-- The bytes of a text. -/
def encode (cs : List Char) : List Nat :=
  cs.flatMap fun c => (String.utf8EncodeChar c).map UInt8.toNat

/-- What stands for bytes that are no character. -/
def replacement : Char := '\ufffd'

/-- A character whose first bytes have been read. -/
structure Begun where
  /-- The number that is made of the bits read so far. -/
  bits : Nat
  /-- How many bytes are to follow. -/
  missing : Nat
  /-- The least and the greatest byte that may follow. -/
  low : Nat
  high : Nat
  deriving DecidableEq, Repr

/-- The first of several bytes. Neither long forms of short characters nor halves of surrogate
pairs are begun. -/
def begin? (b : Nat) : Option Begun :=
  if 0xc2 ≤ b && b ≤ 0xdf then some ⟨b - 0xc0, 1, 0x80, 0xbf⟩
  else if b == 0xe0 then some ⟨0, 2, 0xa0, 0xbf⟩
  else if b == 0xed then some ⟨0xd, 2, 0x80, 0x9f⟩
  else if 0xe1 ≤ b && b ≤ 0xef then some ⟨b - 0xe0, 2, 0x80, 0xbf⟩
  else if b == 0xf0 then some ⟨0, 3, 0x90, 0xbf⟩
  else if b == 0xf4 then some ⟨4, 3, 0x80, 0x8f⟩
  else if 0xf1 ≤ b && b ≤ 0xf3 then some ⟨b - 0xf0, 3, 0x80, 0xbf⟩
  else none

/-- A character with one more byte, if the byte may follow. -/
def Begun.next? (s : Begun) (b : Nat) : Option Begun :=
  if s.low ≤ b && b ≤ s.high then some ⟨0x40 * s.bits + (b - 0x80), s.missing - 1, 0x80, 0xbf⟩
  else none

/-- Reads bytes after the beginning of a character, if one has been begun. -/
def decodeAfter (begun : Option Begun) : List Nat → List Char
  | [] => if begun.isSome then [replacement] else []
  | b :: rest =>
    match begun.bind (·.next? b) with
    | some s =>
      if s.missing = 0 then Char.ofNat s.bits :: decodeAfter none rest
      else decodeAfter (some s) rest
    | none =>
      (if begun.isSome then [replacement] else []) ++
        if b < 0x80 then Char.ofNat b :: decodeAfter none rest
        else
          match begin? b with
          | some s => decodeAfter (some s) rest
          | none => replacement :: decodeAfter none rest

/-- The text that bytes stand for. -/
def decode (bytes : List Nat) : List Char := decodeAfter none bytes

end WorkflowEngine.Text.Utf8
