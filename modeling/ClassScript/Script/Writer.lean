/-!
Text written line by line, each line indented by two blanks a level.
-/

namespace ClassScript

structure Writer where
  text : String := ""
  indent : Nat := 0
  deriving DecidableEq, Repr, Inhabited

namespace Writer

def margin (n : Nat) : String := String.ofList (List.replicate (2 * n) ' ')

def line (w : Writer) (s : String) : Writer :=
  { w with text := w.text ++ (margin w.indent ++ s ++ "\n") }

def enter (w : Writer) : Writer := { w with indent := w.indent + 1 }

/-- One level out; the outermost level stays. -/
def leave (w : Writer) : Writer := { w with indent := w.indent - 1 }

/-- Writes a header and goes one level in. -/
def begins (w : Writer) (header : String) : Writer := (w.line header).enter

/-- Goes one level out and writes a trailer. -/
def ends (w : Writer) (trailer : String) : Writer := w.leave.line trailer

/-- Writes one level further out. -/
def label (w : Writer) (s : String) : Writer := (w.leave.line s).enter

def raw (w : Writer) (s : String) : Writer := { w with text := w.text ++ s }

def lines (w : Writer) (ss : List String) : Writer := ss.foldl line w

def isEmpty (w : Writer) : Bool := w.text.isEmpty

/-- The text from the last opening brace on, or all of it. -/
def tail (w : Writer) : String :=
  let cs := w.text.toList.reverse
  match cs.dropWhile (· ≠ '\x7b') with
  | [] => w.text
  | b :: _ => String.ofList (b :: (cs.takeWhile (· ≠ '\x7b')).reverse)

end Writer

end ClassScript
