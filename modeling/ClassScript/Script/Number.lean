import ClassScript.Floating.Shortest

/-!
Numbers as a script writes them.

Exponents from -4 to 15 are written positionally and keep a digit after the point; all
others take the exponent form. Zero with a minus sign, the infinities and what is no number
have texts of their own.
-/

namespace ClassScript.Number

def int (v : Int32) : String := toString v.toInt

/-- The digits of a decimal with its point: `exponent` is the power of ten of the first. -/
def positional (digits : String) (exponent : Int) : String :=
  let n := digits.length
  if exponent < 0 then "0." ++ String.ofList (List.replicate (-exponent - 1).toNat '0') ++ digits
  else
    let whole := exponent.toNat + 1
    if n ≤ whole then digits ++ String.ofList (List.replicate (whole - n) '0') ++ ".0"
    else
      let cs := digits.toList
      String.ofList (cs.take whole) ++ "." ++ String.ofList (cs.drop whole)

def scientific (digits : String) (exponent : Int) : String :=
  let tail := match digits.toList with
    | [] => ""
    | [d] => String.ofList [d]
    | d :: ds => String.ofList (d :: '.' :: ds)
  tail ++ "e" ++ toString exponent

/-- The text of a positive `m * 2 ^ e`. -/
def magnitude (m : Nat) (e : Int) : String :=
  let (d, k) := Shortest.decimal m e
  let digits := toString d
  let exponent := k + digits.length - 1
  if -4 ≤ exponent ∧ exponent < 16 then positional digits exponent
  else scientific digits exponent

def double (x : Binary64) : String :=
  match x.unpack with
  | .nan => "NaN"
  | .infinite false => "Infinity"
  | .infinite true => "-Infinity"
  | .finite false 0 _ => "0.0"
  | .finite true 0 _ => "-0"
  | .finite negative m e => (if negative then "-" else "") ++ magnitude m e

/-- A single is written as the double it widens to, which reads back to the same bits. -/
def float (x : Binary32) : String := double x.widen

/-- The high and the low word of a long. -/
def split (v : Int64) : Int32 × UInt32 :=
  ((v >>> 32).toInt32, v.toUInt64.toUInt32)

def long (v : Int64) : String :=
  let (hi, lo) := split v
  "rt.long(" ++ int hi ++ ", " ++ toString lo.toNat ++ ")"

end ClassScript.Number
