import InlineA64.Register

/-!
# Memory operands

The forms of memory operand that a load or store can name.
-/

namespace InlineA64

/-- A modifier of an index register. -/
inductive IndexModifier where
  /-- Zero-extend a `W` index. -/
  | uxtw
  /-- Sign-extend a `W` index. -/
  | sxtw
  /-- Take an `X` index as signed. -/
  | sxtx
  /-- Shift an `X` index. -/
  | lsl
deriving DecidableEq, Repr

namespace IndexModifier

/-- The `option` field of a modifier, in place at bits 13 to 15. An index without a modifier is
one shifted by nothing. -/
def optionField : Option IndexModifier → UInt32
  | some uxtw => 0x4000
  | some sxtw => 0xc000
  | some sxtx => 0xe000
  | some lsl | none => 0x6000

/-- The modifier takes a `W` index. -/
def takesNarrow : IndexModifier → Bool
  | uxtw | sxtw => true
  | sxtx | lsl => false

end IndexModifier

/-- A memory operand. -/
inductive MemoryOperand where
  /-- The bytes at `base` plus `offset`; the form without an offset has offset 0. -/
  | offset (base : Register) (offset : Int)
  /-- The same, `base` being moved by `offset`. -/
  | preIndexed (base : Register) (offset : Int)
  /-- The bytes at `base`, which is moved by `offset` afterwards. -/
  | postIndexed (base : Register) (offset : Int)
  /-- The bytes at `base` plus an index register, modified by `modifier` and `amount`; the amount is
  0 unless it is `written`. -/
  | indexed (base index : Register) (modifier : Option IndexModifier) (amount : Int)
    (written : Bool)
  /-- The bytes at a label, `offset` away from the instruction. -/
  | literal (offset : Int)
deriving DecidableEq, Repr

namespace MemoryOperand

/-- The base register of a memory operand that has one. -/
def base? : MemoryOperand → Option Register
  | offset base _ | preIndexed base _ | postIndexed base _ | indexed base .. => some base
  | literal _ => none

end MemoryOperand

end InlineA64
