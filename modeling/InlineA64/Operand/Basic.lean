import InlineA64.Operand.Reader
import InlineA64.Immediate.Displacement
import InlineA64.Immediate.Unsigned

/-!
# Operands

The operands that instructions share: marks, registers, immediates, labels, conditions and shifts.
Each is a `Reader`. A failure points at the operand if its value is at fault and at the cursor if
something else stands where it should.
-/

namespace InlineA64.Reader

/-! ## Marks -/

/-- Note the position of the cursor. -/
def here : Reader Mark :=
  request .mark

/-- Skip blanks. Is the mark next? -/
def sees (p : Punctuation) : Reader Bool :=
  request (.sees p)

/-- Skip blanks, and take the mark if it is next. -/
def accept (p : Punctuation) : Reader Bool :=
  request (.accept p)

/-- Take a mark or fail at the cursor. -/
def expect (p : Punctuation) (fault : Fault) : Reader Unit := do
  if ← accept p then pure () else failHere fault

/-- Take a comma. -/
def comma : Reader Unit :=
  expect .comma .missingComma

/-- Take the mark of an immediate. -/
def hash : Reader Unit :=
  expect .hash (.malformed (.missing '#'))

/-- Take the bracket before a base register. -/
def openBracket : Reader Unit :=
  expect .openBracket (.malformed (.missing '['))

/-- Take the bracket behind a memory operand. -/
def closeBracket : Reader Unit :=
  request .closeBracket

/-! ## Keywords -/

/-- Skip blanks, and take a keyword if one is next. -/
def keyword {β : Type} (v : Vocabulary β) : Reader (Option β) :=
  request (.keyword v)

/-- Skip blanks, and take the next word if it is a keyword. -/
def wholeWord {β : Type} (v : Vocabulary β) : Reader (Option β) :=
  request (.wholeWord v)

/-- A condition code. -/
def condition : Reader Nat := do
  let start ← here
  match ← keyword .conditions with
  | some code => pure code
  | none => malformedAt start .condition

/-- A condition code that has an opposite; the value is the code of the opposite. -/
def oppositeCondition : Reader Nat := do
  let start ← here
  let code ← condition
  if 14 ≤ code then malformedAt start .unconditional
  else pure (code ^^^ 1)

/-! ## Registers -/

/-- A register of any kind. -/
def register : Reader Register :=
  request .register

/-- A register that is not the stack pointer. -/
def plainRegister : Reader Register := do
  let start ← here
  let r ← register
  if r.isStackPointer then malformedAt start .stackPointer
  else pure r

/-- A register of a given width that is not the stack pointer. -/
def registerOf (width : Width) : Reader Register := do
  let start ← here
  let r ← plainRegister
  if r.width ≠ width then malformedAt start .mixedWidths
  else pure r

/-- An `X` register or its zero register. -/
def wideRegister : Reader Register := do
  let start ← here
  let r ← register
  if !r.isWide || r.isStackPointer then malformedAt start .register
  else pure r

/-- An `X` register or its stack pointer: a base register, or the modifier of an
authentication. -/
def addressRegister : Reader Register := do
  let start ← here
  let r ← register
  if !r.isWide || r.zero then malformedAt start .register
  else pure r

/-- A `W` register or its zero register. -/
def narrowRegister : Reader Register := do
  let start ← here
  let r ← register
  if r.isWide || r.isStackPointer then malformedAt start .register
  else pure r

/-- Require two registers to be of one width. -/
def requireSameWidth (r s : Register) : Reader Unit :=
  if r.width = s.width then pure () else malformed .mixedWidths

/-! ## Values -/

/-- The value of a numeric expression. -/
def value : Reader Int := do
  return (← request .value).toInt

/-- A hash and a numeric expression. -/
def immediate : Reader Int := do
  hash
  value

/-- A hash and a numeric expression from 0 to `max`. -/
def constant (max : Nat) (limit : Limit := .constant max) : Reader Nat := do
  hash
  let start ← here
  liftAt start (Immediate.unsigned max limit (← value))

/-- A constant if a hash is next, else `default`. -/
def optionalConstant (max default : Nat) : Reader Nat := do
  if ← sees .hash then constant max else pure default

/-- The distance of a label from the instruction. -/
def distance : Reader Int := do
  return (← request .distance).toInt

/-- Require a distance noted at `mark` to be in reach while range checks are on, and yield its
field. -/
def reachable (mark : Mark) (d : Displacement) (distance : Int) : Reader Nat := do
  request (.reach (d.admits distance) d.fault mark)
  pure (d.field distance)

/-- A label in reach of a displacement. -/
def target (d : Displacement) : Reader Nat := do
  let start ← here
  reachable start d (← distance)

/-! ## Shifts -/

/-- A shift amount behind a hash, below the width of the register. -/
def shiftAmount (width : Width) : Reader Nat :=
  constant (width.bits - 1) (.shiftAmount width.bits)

/-- A bit number behind a hash. -/
def bitNumber (width : Width) : Reader Nat :=
  constant (width.bits - 1) .bitNumber

/-- A comma, a shift and an amount, or nothing, which stands for no shift. -/
def optionalShift (width : Width) (rotate : Bool) : Reader (Shift × Nat) := do
  if ← accept .comma then
    let start ← here
    match ← keyword .shifts with
    | none => malformedAt start .shiftKind
    | some kind =>
      if kind = .ror ∧ !rotate then malformedAt start .shiftKind
      else pure (kind, ← shiftAmount width)
  else pure (.lsl, 0)

end InlineA64.Reader
