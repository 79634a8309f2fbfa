/-!
String literals and names of a script.

A literal stands between single quotes. The quote, the backslash and the line controls have
short escapes, the other controls are written in hexadecimal, and all else stands for
itself, so a literal never holds a raw line end.
-/

namespace ClassScript.Quoted

def hexDigit (n : Nat) : Char := "0123456789abcdef".toList.getD n '0'

/-- The low `width` hexadecimal digits of a number. -/
def hex : Nat → Nat → List Char
  | 0, _ => []
  | width + 1, n => hexDigit (n / Nat.pow 16 width % 16) :: hex width n

def escape (c : Char) : List Char :=
  if c = '\\' then ['\\', '\\']
  else if c = '\'' then ['\\', '\'']
  else if c = '\n' then ['\\', 'n']
  else if c = '\r' then ['\\', 'r']
  else if c = '\t' then ['\\', 't']
  else if c.toNat = 0x2028 ∨ c.toNat = 0x2029 then '\\' :: 'u' :: hex 4 c.toNat
  else if c.toNat < 0x20 ∨ c.toNat = 0x7f then '\\' :: 'x' :: hex 2 c.toNat
  else [c]

def chars (s : List Char) : List Char := '\'' :: s.flatMap escape ++ ['\'']

/-- The literal of a text. -/
def text (s : String) : String := String.ofList (chars s.toList)

end ClassScript.Quoted

namespace ClassScript.Identifier

/-- Words that a script may not use as a plain name. -/
def reserved : List String :=
  ["break", "case", "catch", "class", "const", "continue", "debugger", "default", "delete", "do",
    "else", "enum", "export", "extends", "false", "finally", "for", "function", "if", "import",
    "in", "instanceof", "new", "null", "return", "super", "switch", "this", "throw", "true",
    "try", "typeof", "var", "void", "while", "with", "yield", "let", "static", "implements",
    "interface", "package", "private", "protected", "public", "await"]

def isStart (c : Char) : Bool := c.isAlpha || c == '_' || c == '$'

def isPart (c : Char) : Bool := c.isAlphanum || c == '_' || c == '$'

/-- Can the name stand after a point? Only plain ASCII names can. -/
def isPlain (name : String) : Bool :=
  match name.toList with
  | [] => false
  | c :: cs => isStart c && cs.all isPart && !reserved.contains name

end ClassScript.Identifier

namespace ClassScript

/-- `object['name']`, which survives renaming. -/
def bracket (object name : String) : String := object ++ "[" ++ Quoted.text name ++ "]"

/-- `object.name`, or the bracket form when the name is not plain. -/
def property (object name : String) : String :=
  if Identifier.isPlain name then object ++ "." ++ name else bracket object name

def call (callee : String) (args : List String) : String :=
  callee ++ "(" ++ ", ".intercalate args ++ ")"

end ClassScript
