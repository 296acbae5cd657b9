import InlineA64.Operand.Basic
import InlineA64.Encoding

/-!
# Conditional selection and comparison
-/

namespace InlineA64.Encoder

open Reader

/-- A destination, two sources and a condition. -/
def select (base : UInt32) : Reader Encoding := do
  let d ← plainRegister
  comma
  let n ← registerOf d.width
  comma
  let m ← registerOf d.width
  comma
  let code ← condition
  return Encoding.of base |>.sf d |>.rm m |>.cond code |>.rn n |>.rd d

/-- A destination, a source that stands for both and a condition that is turned around. -/
def selectOpposite (base : UInt32) : Reader Encoding := do
  let d ← plainRegister
  comma
  let n ← registerOf d.width
  comma
  let code ← oppositeCondition
  return Encoding.of base |>.sf d |>.rm n |>.cond code |>.rn n |>.rd d

/-- A destination and a condition that is turned around. -/
def setOnCondition (base : UInt32) : Reader Encoding := do
  let d ← plainRegister
  comma
  let code ← oppositeCondition
  return Encoding.of base |>.sf d |>.cond code |>.rd d

/-- The second source of a conditional comparison: a register or a constant of five bits. -/
def compareOperand (n : Register) (e : Encoding) : Reader Encoding := do
  if ← sees .hash then return e.option 0x800 |>.field 16 5 (← constant 31)
  else return e.rm (← registerOf n.width)

/-- Two sources, the flags for when the condition fails, and the condition. -/
def conditionalCompare (base : UInt32) : Reader Encoding := do
  let n ← plainRegister
  comma
  let e ← compareOperand n (Encoding.of base |>.sf n |>.rn n)
  comma
  let flags ← constant 15 .flags
  comma
  let code ← condition
  return e.cond code |>.field 0 4 flags

end InlineA64.Encoder
