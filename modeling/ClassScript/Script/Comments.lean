/-!
Script without its block comments.
-/

namespace ClassScript.Comments

/-- Where in a script a character stands. Inside a comment the character before it tells
whether the comment may end. -/
inductive Mode where
  | code
  | quoted (quote : Char)
  | escaped (quote : Char)
  | comment (last : Char)
  deriving DecidableEq, Repr

def isQuote (c : Char) : Bool := c == '\'' || c == '"' || c == '`'

def afterQuoted (q c : Char) : Mode :=
  if c = '\\' then .escaped q else if c = q then .code else .quoted q

/-- The characters outside block comments. Within quotes nothing is a comment. -/
def stripFrom : Mode → List Char → List Char
  | _, [] => []
  | .code, '/' :: '*' :: r => stripFrom (.comment '\x00') r
  | .code, c :: r => c :: stripFrom (if isQuote c then .quoted c else .code) r
  | .quoted q, c :: r => c :: stripFrom (afterQuoted q c) r
  | .escaped q, c :: r => c :: stripFrom (.quoted q) r
  | .comment last, c :: r =>
    stripFrom (if last = '*' ∧ c = '/' then .code else .comment c) r

def strip (s : String) : String := String.ofList (stripFrom .code s.toList)

end ClassScript.Comments
