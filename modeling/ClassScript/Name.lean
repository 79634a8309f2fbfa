import ClassScript.Script.Quoted
import ClassScript.Text.Utf16

/-!
Class names, and the identifiers that stand for them in a script.

An internal name separates packages by slashes. In an identifier a slash becomes an
underscore, and the underscore, the semicolon, the bracket and all that is no ASCII letter,
digit or dollar are escaped by an underscore and a digit.
-/

namespace ClassScript.Name

/-- The package of an internal name: all before the last slash. -/
def package? (name : String) : Option String :=
  match name.toList.reverse.dropWhile (· ≠ '/') with
  | [] => none
  | _ :: r => some (String.ofList r.reverse)

/-- Drops every `.class` at the end, the text being given backwards. -/
def dropSuffixes : List Char → List Char
  | 's' :: 's' :: 'a' :: 'l' :: 'c' :: '.' :: r => dropSuffixes r
  | r => r

/-- The internal form of a name written with dots, with slashes, or as a file name. -/
def internal (name : String) : String :=
  let stem := (dropSuffixes name.toList.reverse).reverse
  String.ofList (stem.map fun c => if c = '.' then '/' else c)

/-- The resource that holds a class. -/
def resource (name : String) : String := name ++ ".class"

def escape (c : Char) : List Char :=
  if c.isAlphanum || c == '$' then [c]
  else if c = '/' then ['_']
  else if c = '_' then ['_', '1']
  else if c = ';' then ['_', '2']
  else if c = '[' then ['_', '3']
  else (Utf16.units c).flatMap fun u => '_' :: '0' :: Quoted.hex 4 u.toNat

def escapeAll (cs : List Char) : List Char := cs.flatMap escape

/-- The function that defines a class. -/
def ofClass (name : String) : String := String.ofList (escapeAll name.toList)

/-- Method names keep their underscores. -/
def escapeMethod (c : Char) : List Char := if c = '_' then [c] else escape c

/-- The parameters and the result of a method descriptor, as text; a text of another form is
all result. -/
def splitDescriptor (descriptor : List Char) : List Char × List Char :=
  match descriptor with
  | '(' :: cs =>
    match cs.dropWhile (· ≠ ')') with
    | [] => ([], descriptor)
    | _ :: result => (cs.takeWhile (· ≠ ')'), result)
  | _ => ([], descriptor)

def methodStem (name : String) : List Char :=
  if name = "<init>" then "cons".toList
  else if name = "<clinit>" then "class".toList
  else name.toList.flatMap escapeMethod

/-- The property of a method: its name, two underscores, the result and the parameters. -/
def ofMethod (name descriptor : String) : String :=
  let (params, result) := splitDescriptor descriptor.toList
  String.ofList (methodStem name ++ '_' :: '_' :: escapeAll result ++ escapeAll params)

/-- The property of a field, qualified by the class that declares it, so that a field hidden
by a subclass keeps a property of its own. -/
def ofField (owner name : String) : String :=
  String.ofList ("fld_".toList ++ escapeAll owner.toList ++ '_' :: escapeAll name.toList)

/-- The property that is set on the prototypes of all classes assignable to a class. -/
def instanceFlag (name : String) : String := "$instOf_" ++ ofClass name

end ClassScript.Name
