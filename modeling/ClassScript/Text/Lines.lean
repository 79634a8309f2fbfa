/-!
Lines without their blank ends.
-/

namespace ClassScript.Lines

/-- The characters with the property White_Space. -/
def isBlank (c : Char) : Bool :=
  let n := c.toNat
  (0x09 ≤ n && n ≤ 0x0d) || n == 0x20 || n == 0x85 || n == 0xa0 || n == 0x1680 ||
    (0x2000 ≤ n && n ≤ 0x200a) || n == 0x2028 || n == 0x2029 || n == 0x202f || n == 0x205f ||
    n == 0x3000

/-- Cuts at every line end. -/
def split : List Char → List (List Char)
  | [] => [[]]
  | '\n' :: r => [] :: split r
  | c :: r =>
    match split r with
    | [] => [[c]]
    | l :: ls => (c :: l) :: ls

def trimEnd (l : List Char) : List Char := (l.reverse.dropWhile isBlank).reverse

/-- The lines that hold more than blanks, each without the blanks at its end. -/
def solid (s : String) : List String :=
  ((split s.toList).map trimEnd).filterMap fun l =>
    if l.isEmpty then none else some (String.ofList l)

end ClassScript.Lines
