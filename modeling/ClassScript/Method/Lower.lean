import ClassScript.Arith
import ClassScript.Method.Shuffle

/-!
Code for the instructions that need no other class.

An operation on constants is done at once where its result is an integer; all else becomes a
statement. An instruction that names the constant pool generates nothing here.
-/

namespace ClassScript.Lower

def immediate : Immediate → Literal
  | .null => .null
  | .int v => .int v
  | .long v => .long v
  | .float v => .float v
  | .double v => .double v

def converted : Arith.Converted → Literal
  | .int v => .int v
  | .long v => .long v
  | .float v => .float v
  | .double v => .double v

/-- Both operands, when both are constants. -/
def both {α β : Type} (a : Option α) (b : Option β) : Option (α × β) := do return (← a, ← b)

def arith (op : ArithOp) (k : Kind) (a b : Atom) : Lower Unit :=
  match k with
  | .int =>
    match (both a.int? b.int?).bind fun (x, y) => Arith.arith32 op x y with
    | some v => pushConst (.int v)
    | none => assign .int (.helper (.arith32 op) [a, b])
  | .long =>
    match (both a.long? b.long?).bind fun (x, y) => Arith.arith64 op x y with
    | some v => pushConst (.long v)
    | none => assign .long (.helper (.arith64 op) [a, b])
  | .float => assign .float (.fround (.binary (.arith op) a b))
  | .double => assign .double (.binary (.arith op) a b)
  | .ref => throw (.defect .arithmeticOnReference)

def neg (k : Kind) (a : Atom) : Lower Unit :=
  match k with
  | .int =>
    match a.int? with
    | some v => pushConst (.int (-v))
    | none => assign .int (.helper .neg32 [a])
  | .long =>
    match a.long? with
    | some v => pushConst (.long (-v))
    | none => assign .long (.helper .neg64 [a])
  | .float => assign .float (.negate a)
  | .double => assign .double (.negate a)
  | .ref => throw (.defect .negationOfReference)

def shift (op : ShiftOp) (k : Kind) (a b : Atom) : Lower Unit :=
  match k with
  | .int =>
    match both a.int? b.int? with
    | some (x, y) => pushConst (.int (Arith.shift32 op x y))
    | none =>
      let e := Expr.binary (.shift op) a b
      assign .int (if op = .ushr then .wrap e else e)
  | .long =>
    match both a.long? b.int? with
    | some (x, y) => pushConst (.long (Arith.shift64 op x y))
    | none => assign .long (.helper (.shift64 op) [a, b])
  | _ => throw (.defect .shiftOfNonIntegral)

def logic (op : LogicOp) (k : Kind) (a b : Atom) : Lower Unit :=
  match k with
  | .int =>
    match both a.int? b.int? with
    | some (x, y) => pushConst (.int (Arith.logic32 op x y))
    | none => assign .int (.binary (.logic op) a b)
  | .long =>
    match both a.long? b.long? with
    | some (x, y) => pushConst (.long (Arith.logic64 op x y))
    | none => assign .long (.helper (.logic64 op) [a, b])
  | _ => throw (.defect .logicOfNonIntegral)

/-- The constant that a conversion of a constant gives. -/
def convertConst? (c : Conversion) (a : Atom) : Option Arith.Converted :=
  match c.source with
  | .int => a.int?.bind (Arith.convertInt c)
  | .long => a.long?.bind (Arith.convertLong c)
  | _ => a.double?.bind (Arith.convertDouble c)

def convertExpr (c : Conversion) (a : Atom) : Expr :=
  match c with
  | .i2l => .helper .i2l [a]
  | .i2f | .d2f => .fround (.atom a)
  | .i2d | .f2d => .atom a
  | .l2i => .helper .l2i [a]
  | .l2f => .fround (.helper .l2d [a])
  | .l2d => .helper .l2d [a]
  | .f2i | .d2i => .helper .d2i [a]
  | .f2l | .d2l => .helper .d2l [a]
  | .i2b => .helper .toInt8 [a]
  | .i2c => .helper .toChar [a]
  | .i2s => .helper .toInt16 [a]

def convert (c : Conversion) (a : Atom) : Lower Unit :=
  match convertConst? c a with
  | some v => pushConst (converted v)
  | none => assign c.target (convertExpr c a)

/-- The value as an array of that kind stores it. -/
def narrow (k : ArrayKind) (a : Atom) : Expr :=
  let stored (c : Conversion) : Expr :=
    match convertConst? c a with
    | some v => .atom (.lit (converted v))
    | none => convertExpr c a
  match k with
  | .byte | .boolean => stored .i2b
  | .char => stored .i2c
  | .short => stored .i2s
  | _ => .atom a

/-- The keys of a table from `low` on, with their targets. -/
def tablePairs (low : Int32) (targets : List Nat) : List (Int32 × Nat) :=
  targets.zipIdx.map fun (t, i) => (low + .ofNat i, t)

def switch (pairs : List (Int32 × Nat)) (default : Nat) : Lower Unit := do
  let key ← pop
  beforeJump (pairs.map Prod.snd ++ [default])
  emit (.jumpTo key (.ofPairs pairs default) default)

def equality (equal : Bool) : Cond := if equal then .eq else .ne

/-- The shuffle of an instruction, done on the stack as it stands. -/
def shuffle (i : Instruction) : Lower Unit := do
  match Shuffle.of? (← get).isWide i with
  | some s => s.run
  | none => return

/-- Code for an instruction. -/
def instruction (i : Instruction) : Lower Unit := do
  match i with
  | .push v => pushConst (immediate v)
  | .load k index => assign k (.atom (.var (← slot k index)))
  | .store k index =>
    let value ← pop
    emit (.assign (← slot k index) (.atom value))
  | .iinc index delta =>
    let v ← slot .int index
    emit (.assign v (.wrap (.binary (.arith .add) (.var v) (.lit (.int delta.toInt32)))))
  | .arrayLoad k =>
    let (array, index) ← pop2
    assign k.kind (.helper .elementAt [array, index])
  | .arrayStore k =>
    let (array, index, value) ← pop3
    emit (.eval (.put array index (narrow k value)))
  | .pop | .monitorEnter | .monitorExit =>
    let _ ← pop
  | .pop2 =>
    if (← get).isWide 0 then
      let _ ← pop
    else
      let _ ← pop2
  | .arith op k =>
    let (a, b) ← pop2
    arith op k a b
  | .neg k => neg k (← pop)
  | .shift op k =>
    let (a, b) ← pop2
    shift op k a b
  | .logic op k =>
    let (a, b) ← pop2
    logic op k a b
  | .convert c => convert c (← pop)
  | .lcmp =>
    let (a, b) ← pop2
    match both a.long? b.long? with
    | some (x, y) => pushConst (.int (Arith.compare64 x y))
    | none => assign .int (.helper .compare64 [a, b])
  | .cmp _ nanGreater =>
    let (a, b) ← pop2
    let nan : Literal := .int (if nanGreater then 1 else -1)
    assign .int (.helper .compareFloat [a, b, .lit nan])
  | .ifZero cond t => branch ⟨cond, ← pop, .lit (.int 0)⟩ t
  | .ifInt cond t =>
    let (a, b) ← pop2
    branch ⟨cond, a, b⟩ t
  | .ifRef equal t =>
    let (a, b) ← pop2
    branch ⟨equality equal, a, b⟩ t
  | .ifNull null t => branch ⟨equality null, ← pop, .lit .null⟩ t
  | .goto t =>
    beforeJump [t]
    emit (.jump t)
  | .jsr _ => throw (.unsupported "jsr")
  | .ret _ => throw (.unsupported "ret")
  | .tableSwitch default low targets => switch (tablePairs low targets) default
  | .lookupSwitch default pairs => switch pairs default
  | .returns none => emit (.returns none)
  | .returns (some _) => emit (.returns (some (← pop)))
  | .invokeDynamic _ => throw (.unsupported "invokedynamic")
  | .newArray k => assign .ref (.helper .newArray [.lit (.text k.arrayDescriptor), ← pop])
  | .arrayLength => assign .int (.member (.atom (← pop)) .plain "length")
  | .athrow => emit (.raise (← pop))
  | i => shuffle i

end ClassScript.Lower
