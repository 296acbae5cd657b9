import InlineA64.Operand.Basic

/-!
# Reading memory operands

A memory operand starts with a bracket; anything else is a label. The comma behind `[Xn]` belongs to
the operand if an immediate follows it, and to the next operand otherwise.
-/

namespace InlineA64.Reader

/-- What stands behind the base register and before the closing bracket. -/
inductive Inside where
  /-- Nothing. -/
  | nothing
  /-- An offset. -/
  | offset (offset : Int)
  /-- An index register with its modifier and amount. -/
  | index (index : Register) (modifier : Option IndexModifier) (amount : Int) (written : Bool)

/-- The modifier of an index register and its amount. -/
def indexModifier (index : Register) : Reader Inside := do
  match ← keyword .indexModifiers with
  | none => malformed .indexModifier
  | some modifier =>
    if ← sees .hash then return .index index modifier (← immediate) true
    else return .index index modifier 0 false

/-- What stands behind the base register. -/
def inside : Reader Inside := do
  if ← accept .comma then
    if ← sees .hash then return .offset (← immediate)
    else
      let index ← register
      if ← accept .comma then indexModifier index
      else return .index index none 0 false
  else return .nothing

/-- Pre-indexing, which a bang behind the closing bracket asks for. -/
def preIndexed (base : Register) : Option Int → Reader MemoryOperand
  | none => malformed .preIndexWithoutOffset
  | some offset => do
    let _ ← accept .bang
    return .preIndexed base offset

/-- Post-indexing by an immediate behind a comma. -/
def postIndexed (base : Register) : Reader MemoryOperand := do
  let _ ← accept .comma
  return .postIndexed base (← immediate)

/-- A memory operand or a label. -/
def address : Reader MemoryOperand := do
  if ← sees .openBracket then
    openBracket
    let base ← addressRegister
    let inside ← inside
    closeBracket
    match inside with
    | .index index modifier amount written => return .indexed base index modifier amount written
    | .offset offset =>
      if ← sees .bang then preIndexed base (some offset) else return .offset base offset
    | .nothing =>
      if ← sees .bang then preIndexed base none
      else if ← request .seesPostIndex then postIndexed base
      else return .offset base 0
  else return .literal (← distance)

/-- A comma and an immediate that is 0, or nothing. -/
def optionalZeroOffset : Reader Unit := do
  if ← accept .comma then
    let start ← here
    if (← immediate) ≠ 0 then malformedAt start .nonzeroOffset

/-- A base register in brackets, with no offset but 0. -/
def plainAddress : Reader Register := do
  openBracket
  let base ← addressRegister
  optionalZeroOffset
  closeBracket
  return base

end InlineA64.Reader
