import InlineA64.Environment
import InlineA64.Machine.Bindings

/-!
# Expressions

Expressions are evaluated while they are read: an unknown variable is reported before a mistake
further on. From the loosest to the tightest the operators are

* `OR` and `EOR`;
* `AND`;
* `+` and `-`;
* `*` and `/`;
* the signs `-` and `+`;

each level grouping from the left. Operands are numbers in decimal, `&` hexadecimal or `%` binary,
strings in quotes, variables, the addresses `P%` and `O%`, and expressions in parentheses.

Integers have 64 bits and wrap around. While range checks are off an unknown variable has the
address of the code as its value, so that labels can be used before they are defined.
-/

namespace InlineA64

/-- The name of a variable. -/
abbrev Name := List Byte

/-- What a variable holds. -/
inductive Variable where
  /-- A number. -/
  | numeric (n : Int64)
  /-- A string. -/
  | string (bytes : List Byte)
deriving DecidableEq, Repr

namespace Variable

/-- What a variable holds, as the value of an expression. -/
def value : Variable → Value
  | numeric n => .int n
  | string bytes => .string bytes

end Variable

namespace Expression

open Cursor (Scan failAt)

/-! ## Operators -/

/-- The binary operators. -/
inductive Operator where
  | or
  | eor
  | and
  | add
  | subtract
  | multiply
  | divide
deriving DecidableEq, Repr

namespace Operator

/-- The bitwise operators, which work on integers alone. -/
def bitwise? : Operator → Option (Int64 → Int64 → Int64)
  | or => some (· ||| ·)
  | eor => some (· ^^^ ·)
  | and => some (· &&& ·)
  | _ => none

/-- An arithmetic operator on integers; there is no quotient by zero. -/
def onInts (a b : Int64) : Operator → Except Fault Value
  | add => .ok (.int (a + b))
  | subtract => .ok (.int (a - b))
  | multiply => .ok (.int (a * b))
  | _ => if b == 0 then .error .divisionByZero else .ok (.int (a / b))

/-- An arithmetic operator on floating-point numbers; there is no quotient by zero. -/
def onFloats (a b : Float) : Operator → Except Fault Value
  | add => .ok (.float (a + b))
  | subtract => .ok (.float (a - b))
  | multiply => .ok (.float (a * b))
  | _ => if b == 0 then .error .divisionByZero else .ok (.float (a / b))

/-- An arithmetic operator on any values. Strings can be added to each other and nothing else; an
integer beside a floating-point number is taken as one. -/
def arithmetic (op : Operator) : Value → Value → Except Fault Value
  | .int a, .int b => op.onInts a b
  | .int a, .float b => op.onFloats a.toFloat b
  | .float a, .int b => op.onFloats a b.toFloat
  | .float a, .float b => op.onFloats a b
  | .string a, .string b => if op = add then .ok (.string (a ++ b)) else .error .typeMismatch
  | _, _ => .error .typeMismatch

/-- A binary operator on any values. -/
def apply (op : Operator) (left right : Value) : Except Fault Value :=
  match op.bitwise? with
  | none => op.arithmetic left right
  | some f =>
    match left.toInt?, right.toInt? with
    | some a, some b => .ok (.int (f a b))
    | _, _ => .error .typeMismatch

/-- The one-byte token of an operator that has one. -/
def token? : Operator → Option Byte
  | or => some Byte.orToken
  | and => some Byte.andToken
  | _ => none

/-- The spelling of an operator. -/
def spelling : Operator → List Byte
  | or => bytesOf "OR"
  | eor => bytesOf "EOR"
  | and => bytesOf "AND"
  | add => bytesOf "+"
  | subtract => bytesOf "-"
  | multiply => bytesOf "*"
  | divide => bytesOf "/"

/-- The operator is spelled as a word, which a name must not continue. -/
def isWord (op : Operator) : Bool :=
  op.bitwise?.isSome

end Operator

/-- The bytes from `offset` on are exactly those of `word`. -/
def spelledAt (s : Cursor) : List Byte → Nat → Bool
  | [], _ => true
  | b :: word, offset => s.text[offset]? == some b && spelledAt s word (offset + 1)

/-- The number of bytes that an operator takes at the cursor, if it is there. -/
def Operator.length? (s : Cursor) (op : Operator) : Option Nat :=
  if op.token? == some s.peek then some 1
  else if spelledAt s op.spelling s.pos &&
      !(op.isWord && (s.ahead op.spelling.length).continuesName) then some op.spelling.length
  else none

/-- Skip blanks, then take one of some operators if it is next. -/
def operator? (operators : List Operator) (s : Cursor) : Option Operator × Cursor :=
  let s := s.skipBlanks
  match operators.findSome? fun op => (op.length? s).map (op, ·) with
  | some (op, length) => (some op, s.advance length)
  | none => (none, s)

/-- Operands joined by some operators, grouped from the left, `left` being what has been read. Each
further operand takes a byte at least, so `fuel` need not exceed what remains of the text. A fault
points at where the operator was looked for. -/
def chain (operators : List Operator) (operand : Scan Value) : (fuel : Nat) → Value → Scan Value
  | 0, left => pure left
  | fuel + 1, left => do
    let start := (← get).pos
    match ← modifyGet (operator? operators) with
    | none => pure left
    | some op =>
      let right ← operand
      match op.apply left right with
      | .ok value => chain operators operand fuel value
      | .error fault => failAt start fault

/-- Operands joined by some operators. -/
def level (operators : List Operator) (operand : Scan Value) : Scan Value := do
  let left ← operand
  chain operators operand ((← get).remaining + 1) left

/-- Operands joined by any operators. -/
def joined (operand : Scan Value) : Scan Value :=
  level [.or, .eor] (level [.and] (level [.add, .subtract] (level [.multiply, .divide] operand)))

/-! ## Operands -/

/-- Take the bytes that satisfy `p`. -/
def takeWhile (p : Byte → Bool) : Scan (List Byte) := fun s =>
  let s' := s.skipWhile p
  .ok (s.slice s.pos s'.pos) s'

/-- The number that digits stand for. -/
def numeral (base : Nat) (digits : List Byte) : Nat :=
  digits.foldl (fun n b => n * base + (b.digit? base).getD 0) 0

/-- Take a number in a base behind the byte that announces it, which stands at `start`. -/
def based (base start : Nat) : Scan Value := do
  let digits ← takeWhile fun b => (b.digit? base).isSome
  if digits.isEmpty then failAt start (.malformed .number)
  else pure (.int (Int64.ofNat (numeral base digits)))

/-- Add the digits behind a decimal point to a number, each at a tenth of the scale before. -/
def addFraction : Float → Float → List Byte → Float
  | f, _, [] => f
  | f, scale, b :: rest =>
    addFraction (f + Float.ofNat ((b.digit? 10).getD 0) * scale) (scale / 10) rest

/-- Take a decimal number, with or without a fraction. -/
def decimal : Scan Value := do
  let whole := Int64.ofNat (numeral 10 (← takeWhile Byte.isDigit))
  if (← get).peek == '.'.toUInt8 then
    modify (·.advance 1)
    let digits ← takeWhile Byte.isDigit
    pure (.float (addFraction whole.toFloat 0.1 digits))
  else pure (.int whole)

/-- What stands before the closing quote, two quotes standing for one, and the number of bytes up to
there. -/
def quoted : List Byte → Option (List Byte) × Nat
  | [] => (none, 0)
  | 0x22 :: 0x22 :: rest =>
    let (bytes?, length) := quoted rest
    (bytes?.map (0x22 :: ·), length + 2)
  | 0x22 :: _ => (some [], 1)
  | b :: rest =>
    if b == 0 || b.isBreak then (none, 0)
    else
      let (bytes?, length) := quoted rest
      (bytes?.map (b :: ·), length + 1)

/-- Take a string in quotes, which has to end before the line does. -/
def string : Scan Value := do
  let start := (← get).pos
  modify (·.advance 1)
  let (bytes?, length) := quoted (← get).rest.toList
  modify (·.advance length)
  match bytes? with
  | some bytes => pure (.string bytes)
  | none => failAt start (.malformed (.missing '"'))

/-- Take the name of a variable: name bytes and perhaps the sign of its type. -/
def name : Scan Name := do
  let bytes ← takeWhile Byte.continuesName
  let sign := (← get).peek
  if sign == '%'.toUInt8 || sign == '$'.toUInt8 then
    modify (·.advance 1)
    pure (bytes ++ [sign])
  else pure bytes

/-- What expressions can refer to. -/
structure Scope where
  /-- The state of assembly. -/
  context : Context
  /-- The variables. -/
  vars : Bindings Name Variable

namespace Scope

/-- The value of a name. -/
def value? (scope : Scope) (name : Name) : Option Value :=
  if name = bytesOf "P%" then some (.int scope.context.logical.toInt64)
  else if name = bytesOf "O%" then some (.int scope.context.physical.toInt64)
  else
    match scope.vars.get? name with
    | some v => some v.value
    | none =>
      if scope.context.options.rangeCheck then none
      else some (.int scope.context.logical.toInt64)

end Scope

/-- Take an operand that is a single item, `value?` telling what a name stands for. -/
def item (value? : Name → Option Value) : Scan Value := do
  let s ← get
  let b := s.peek
  if b == '&'.toUInt8 then
    modify (·.advance 1)
    based 16 s.pos
  else if b == '%'.toUInt8 then
    modify (·.advance 1)
    based 2 s.pos
  else if b == '"'.toUInt8 then string
  else if b.isDigit || b == '.'.toUInt8 then decimal
  else if b.startsName then
    match value? (← name) with
    | some value => pure value
    | none => failAt s.pos .noSuchVariable
  else Cursor.fail (.malformed .statement)

/-- The negative of a number whose sign was looked for at `start`. -/
def negate (start : Nat) : Value → Scan Value
  | .int n => pure (.int (-n))
  | .float f => pure (.float (-f))
  | .string _ => failAt start .typeMismatch

/-- Skip blanks, then take an operand: an item, or one with a sign, or an expression in parentheses.
Each sign and each parenthesis takes a byte, so `depth` need not exceed what remains of the
text. -/
def operand (value? : Name → Option Value) : (depth : Nat) → Scan Value
  | 0 => Cursor.fail (.malformed .statement)
  | depth + 1 => do
    let start := (← get).pos
    modify Cursor.skipBlanks
    let b := (← get).peek
    if b == '-'.toUInt8 then
      modify (·.advance 1)
      negate start (← operand value? depth)
    else if b == '+'.toUInt8 then
      modify (·.advance 1)
      operand value? depth
    else if b == '('.toUInt8 then
      modify (·.advance 1)
      let value ← joined (operand value? depth)
      Cursor.expect ')' (.malformed (.missing ')'))
      pure value
    else item value?

/-- Take an expression and give its value, `value?` telling what the names in it stand for. -/
def readIn (value? : Name → Option Value) : Scan Value := do
  joined (operand value? ((← get).remaining + 1))

/-- Take an expression and give its value. -/
def read (scope : Scope) : Scan Value :=
  readIn scope.value?

end Expression

end InlineA64
