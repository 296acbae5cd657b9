import InlineA64.Placement
import InlineA64.SystemCall

/-!
# The environment of the assembler

The assembler has no memory, no variables and no expressions of its own. An `Environment` provides
them as functions on a state `σ`; `Slot` is the type of its handles on variables. Expressions and
names are read by the environment, which moves the cursor past them.
-/

namespace InlineA64

/-- The value of an expression. -/
inductive Value where
  /-- A 64-bit integer. -/
  | int (n : Int64)
  /-- A floating-point number. -/
  | float (f : Float)
  /-- A string of bytes. -/
  | string (bytes : List Byte)

namespace Value

/-- A number as an integer: a floating-point number is cut off towards zero, with the integers at
the ends of the range standing for what lies beyond and 0 for what is no number. -/
def toInt? : Value → Option Int64
  | int n => some n
  | float f => some f.toInt64
  | string _ => none

/-- The bytes of a string. -/
def toBytes? : Value → Option (List Byte)
  | string bytes => some bytes
  | int _ | float _ => none

end Value

/-- The kinds of variable. -/
inductive VariableKind where
  /-- A number, which can hold an address. -/
  | numeric
  /-- A string, which cannot. -/
  | string
deriving DecidableEq, Repr

/-- The services that the assembler needs. -/
structure Environment (σ Slot : Type) where
  /-- The value of the expression at the cursor. -/
  evaluate : Context → EStateM Failure (Cursor × σ) Value
  /-- The variable named at the cursor, made if it is new. -/
  slot : EStateM Failure (Cursor × σ) (Slot × VariableKind)
  /-- The integer that a variable holds. -/
  load : Slot → σ → Int64
  /-- Bind a variable to an address. -/
  store : Slot → UInt64 → EStateM Failure σ Unit
  /-- Write bytes from an address on. -/
  write : UInt64 → List Byte → EStateM Failure σ Unit
  /-- The address of a symbol. -/
  symbol : String → σ → Option UInt64 := fun _ _ => none
  /-- The address of a system call. -/
  systemCall : SystemCall → σ → Option UInt64 := fun _ _ => none
  /-- Have instructions fetched anew from the first address up to the second. -/
  flush : UInt64 → UInt64 → σ → σ := fun _ _ state => state
  /-- Take a line of the listing. -/
  listing : String → σ → σ := fun _ state => state

namespace Environment

variable {σ Slot : Type}

/-- The value of the expression at the cursor as the type that `view` looks for; a value of another
type is a mismatch at the start of the expression. -/
def evaluateAs {α : Type} (env : Environment σ Slot) (view : Value → Option α) (context : Context) :
    EStateM Failure (Cursor × σ) α := do
  let start := (← get).1.pos
  match view (← env.evaluate context) with
  | some a => pure a
  | none => fun s => .error ⟨.typeMismatch, s.1.spanOf start⟩ s

/-- The value of a numeric expression as an integer. -/
def evaluateInt (env : Environment σ Slot) (context : Context) :
    EStateM Failure (Cursor × σ) Int64 :=
  env.evaluateAs Value.toInt? context

/-- The value of a string expression. -/
def evaluateBytes (env : Environment σ Slot) (context : Context) :
    EStateM Failure (Cursor × σ) (List Byte) :=
  env.evaluateAs Value.toBytes? context

end Environment

end InlineA64
