import InlineA64.Block.Basic
import InlineA64.Instruction.Family
import InlineA64.Text.Utf8

/-!
# Directives

What the data directives lay out, and the directives that align and that set the options. Words are
placed at a multiple of four, which is seen to when the operand has been evaluated.
-/

namespace InlineA64.Block

variable {σ Slot : Type}

/-- The length of the longest string that can be laid out. -/
def longestString : Nat := 256

/-- The word of an instruction that does nothing. -/
def noOperation : UInt32 := 0xd503201f

/-- The value of a numeric expression. -/
def evaluateInt (env : Environment σ Slot) : Assembling σ Slot Int64 := do
  let context := (← get).placement.context
  consult (env.evaluateInt context)

/-- The value of an expression. -/
def evaluate (env : Environment σ Slot) : Assembling σ Slot Value := do
  let context := (← get).placement.context
  consult (env.evaluate context)

/-! ## Data -/

/-- Emit the low bytes of a number. -/
def emitNumber (env : Environment σ Slot) (count : Nat) (n : UInt64) : Assembling σ Slot Unit :=
  emit env (bytesOfNat count n.toNat)

/-- Emit the bytes of a string that is not too long; the operand starts at `start`. -/
def emitString (env : Environment σ Slot) (start : Nat) (bytes : List Byte) :
    Assembling σ Slot Unit :=
  if longestString < bytes.length then failAt start (.stringTooLong bytes.length)
  else emit env bytes

/-- Lay out a byte or the bytes of a string. -/
def data (env : Environment σ Slot) : Assembling σ Slot Unit := do
  let start := (← get).cursor.pos
  match ← evaluate env with
  | .string bytes => emitString env start bytes
  | number => emitNumber env 1 (number.toInt?.getD 0).toUInt64

/-- Lay out the bytes of a string. -/
def string (env : Environment σ Slot) : Assembling σ Slot Unit := do
  let b ← get
  let bytes ← consult (env.evaluateBytes b.placement.context)
  emitString env b.cursor.pos bytes

/-- The address of a system call or a symbol, if it is not 0. -/
def addressOf? (env : Environment σ Slot) (state : σ) (name : List Byte) : Option UInt64 :=
  let call? := (SystemCall.ofPrefix? name).bind (env.systemCall · state)
  (call?.orElse fun _ => env.symbol (Utf8.decode name) state).filter (· != 0)

/-- The value of an expression, a string standing for the address that it names. -/
def evaluateAddress (env : Environment σ Slot) : Assembling σ Slot UInt64 := do
  let start := (← get).cursor.pos
  match ← evaluate env with
  | .string name =>
    match addressOf? env (← get).state name with
    | some address => pure address
    | none => failAt start (.noSuchSystemCall (Utf8.decode name))
  | number => pure (number.toInt?.getD 0).toUInt64

/-! ## Alignment -/

/-- Emit instructions that do nothing. -/
def emitNoOperations (env : Environment σ Slot) : Nat → Assembling σ Slot Unit
  | 0 => pure ()
  | count + 1 => do
    emit env (bytesOfWord noOperation)
    emitNoOperations env count

/-- The numbers that code can be aligned to. -/
def alignments : List Int64 :=
  [4, 8, 16, 32, 64, 128]

/-- Align to a word; if a number follows, fill up with instructions that do nothing to a multiple of
it. -/
def align (env : Environment σ Slot) : Assembling σ Slot Unit := do
  alignStart
  modifyCursor Cursor.skipBlanks
  let b ← get
  if b.cursor.peek.isDigit && b.cursor.peek != '0'.toUInt8 then
    let n ← evaluateInt env
    if alignments.contains n then
      emitNoOperations env ((Placement.padTo n.toUInt64 b.placement.logical).toNat / 4)
    else failAt b.cursor.pos (.malformed .alignment)

/-! ## All directives -/

/-- Run a directive whose name has been read. -/
def directive (env : Environment σ Slot) : Directive → Assembling σ Slot Unit
  | .align => align env
  | .data => data env
  | .byte => do emitNumber env 1 (← evaluateInt env).toUInt64
  | .half => do emitNumber env 2 (← evaluateInt env).toUInt64
  | .word => do
    let n ← evaluateAddress env
    alignStart
    emitNumber env 4 n
  | .quad => do emitNumber env 8 (← evaluateAddress env)
  | .string => string env
  | .options => do
    let n ← evaluateInt env
    modifyPlacement (·.withOptions (.ofInt n.toInt))

end InlineA64.Block
