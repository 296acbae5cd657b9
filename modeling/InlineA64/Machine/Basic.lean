import InlineA64.Machine.Expression
import InlineA64.Machine.Image

/-!
# Machines

A `Machine` is an environment that stands alone: a memory image, variables, and the addresses of
symbols and system calls. It keeps the listing and the ranges that were flushed.
-/

namespace InlineA64

/-- An environment that stands alone. -/
structure Machine where
  /-- The memory. -/
  image : Image
  /-- The variables. -/
  vars : Bindings Name Variable
  /-- The symbols that data directives can name. -/
  symbols : Bindings String UInt64
  /-- The system calls that data directives can name. -/
  systemCalls : Bindings SystemCall UInt64
  /-- The lines of the listing. -/
  listing : Array String
  /-- The ranges that were flushed. -/
  flushed : Array (UInt64 × UInt64)
deriving DecidableEq, Repr

namespace Machine

/-- A machine with an empty image at a base address. -/
def ofBase (base : UInt64) : Machine :=
  ⟨.empty base, .empty, .empty, .empty, #[], #[]⟩

/-- Empty the image and keep everything else. -/
def withEmptyImage (w : Machine) : Machine :=
  { w with image := .empty w.image.base }

/-- Set a variable. -/
def setVariable (w : Machine) (name : Name) (value : Variable) : Machine :=
  { w with vars := w.vars.set name value }

/-- The number that a variable holds, if it is numeric. -/
def number? (w : Machine) (name : Name) : Option Int64 :=
  match w.vars.get? name with
  | some (.numeric n) => some n
  | _ => none

/-- Give a symbol an address. -/
def setSymbol (w : Machine) (name : String) (address : UInt64) : Machine :=
  { w with symbols := w.symbols.set name address }

/-- Give a system call an address. -/
def setSystemCall (w : Machine) (call : SystemCall) (address : UInt64) : Machine :=
  { w with systemCalls := w.systemCalls.set call address }

/-! ## Services -/

/-- Read an expression of the machine. -/
def evaluate (context : Context) : EStateM Failure (Cursor × Machine) Value := fun (s, w) =>
  match Expression.read ⟨context, w.vars⟩ s with
  | .ok value s => .ok value (s, w)
  | .error failure s => .error failure (s, w)

/-- The kind of a variable, which its name shows. -/
def kindOf (name : Name) : VariableKind :=
  if name.getLast? == some '$'.toUInt8 then .string else .numeric

/-- What a new variable of a kind holds. -/
def initial : VariableKind → Variable
  | .numeric => .numeric 0
  | .string => .string []

/-- Have a variable of a name, a new one if there is none. -/
def declare (w : Machine) (name : Name) : Machine :=
  if (w.vars.get? name).isSome then w else w.setVariable name (initial (kindOf name))

/-- Read the name of a variable, which starts at the cursor. -/
def slot : EStateM Failure (Cursor × Machine) (Name × VariableKind) := fun (s, w) =>
  if s.peek.startsName then
    match Expression.name s with
    | .ok name s => .ok (name, kindOf name) (s, w.declare name)
    | .error failure s => .error failure (s, w)
  else .error ⟨.malformed .statement, s.span⟩ (s, w)

/-- Write bytes into the image. -/
def write (address : UInt64) (bytes : List Byte) : EStateM Failure Machine Unit := fun w =>
  match w.image.write address bytes with
  | .ok image => .ok () { w with image }
  | .error failure => .error failure w

/-- Bind a variable to an address. -/
def store (name : Name) (address : UInt64) : EStateM Failure Machine Unit := fun w =>
  .ok () (w.setVariable name (.numeric address.toInt64))

/-- A machine as an environment with the services that every environment has and no others. -/
def bareEnvironment : Environment Machine Name where
  evaluate := evaluate
  slot := slot
  load name w := (w.number? name).getD 0
  store := store
  write := write

/-- A machine as an environment. -/
def environment : Environment Machine Name :=
  { bareEnvironment with
    symbol := fun name w => w.symbols.get? name
    systemCall := fun call w => w.systemCalls.get? call
    flush := fun start stop w => { w with flushed := w.flushed.push (start, stop) }
    listing := fun line w => { w with listing := w.listing.push line } }

end Machine

end InlineA64
