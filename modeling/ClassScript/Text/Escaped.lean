import ClassScript.Text.Printable

/-!
Text as an error report shows it: between double quotes, on one line.
-/

namespace ClassScript.Escaped

/-- A character by its number, as in `\u\x7b7\x7d`. -/
def byNumber (c : Char) : List Char :=
  '\\' :: 'u' :: '\x7b' :: Nat.toDigits 16 c.toNat ++ ['\x7d']

def escape (c : Char) : List Char :=
  if c = '\x00' then ['\\', '0']
  else if c = '\t' then ['\\', 't']
  else if c = '\r' then ['\\', 'r']
  else if c = '\n' then ['\\', 'n']
  else if c = '\\' then ['\\', '\\']
  else if c = '"' then ['\\', '"']
  else if c.toNat < 0x20 ∨ c.toNat = 0x7f then byNumber c
  else if c.toNat < 0x7f then [c]
  else if Printable.isHidden c then byNumber c
  else [c]

def text (s : String) : String :=
  String.ofList ('"' :: s.toList.flatMap escape ++ ['"'])

end ClassScript.Escaped
