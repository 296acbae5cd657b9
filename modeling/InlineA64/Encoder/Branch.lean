import InlineA64.Operand.Basic
import InlineA64.Encoding

/-!
# Branches, exceptions and pointer authentication

Labels are reached by their distance from the instruction. A test branch is refused beyond its
reach in any case, the others while range checks are on.
-/

namespace InlineA64.Encoder

open Reader

/-! ## Branches to labels -/

/-- A branch on the condition behind the dot. -/
def conditionalBranch : Reader Encoding := do
  let code ← condition
  let offset ← target .literal
  return Encoding.of 0x54000000 |>.imm19 offset |>.field 0 4 code

/-- A branch without a condition. A blank has to part the label from the mnemonic. -/
def plainBranch (link : Bool) : Reader Encoding := do
  if ← request .atBlank then
    let offset ← target .branch
    return Encoding.of (if link then 0x94000000 else 0x14000000) |>.imm26 offset
  else malformed .statement

/-- Branches with and without a condition. -/
def branch (link : Bool) : Reader Encoding := do
  if link then plainBranch true
  else if ← request (.acceptJoined .dot) then conditionalBranch
  else plainBranch false

/-- A register and a label. -/
def compareBranch (base : UInt32) : Reader Encoding := do
  let t ← plainRegister
  comma
  let offset ← target .literal
  return Encoding.of base |>.sf t |>.imm19 offset |>.rt t

/-- A register, the number of a bit in it, and a label. -/
def testBranch (base : UInt32) : Reader Encoding := do
  let t ← plainRegister
  comma
  hash
  let start ← here
  let bit ← value
  if !(0 ≤ bit && bit < t.bits) then malformedAt start .bitNumber
  else
    comma
    let start ← here
    let offset ← liftAt start (Displacement.test.encode true (← distance))
    return Encoding.of base
      |>.optionIf (32 ≤ bit) 0x80000000 |>.field 19 5 (bit.toNat % 32) |>.field 5 14 offset |>.rt t

/-! ## Branches to registers -/

/-- A register. -/
def registerBranch (base : UInt32) : Reader Encoding := do
  let n ← wideRegister
  return Encoding.of base |>.rn n

/-- A register and a modifier. -/
def authenticatedBranch (base : UInt32) : Reader Encoding := do
  let n ← wideRegister
  comma
  let m ← addressRegister
  return Encoding.of base |>.rn n |>.rd m

/-- A return through a register, the link register if none is written. -/
def ret : Reader Encoding := do
  let n ← (do if ← request .atEnd then return .link else wideRegister)
  return Encoding.of 0xd65f0000 |>.rn n

/-! ## Exceptions and hints -/

/-- The profiling barrier, which names its one operand. -/
def profilingBarrier : Reader Encoding := do
  match ← keyword .profilingBarrier with
  | some () => return Encoding.of 0xd503223f
  | none => malformed .statement

/-- A constant of 16 bits. -/
def exception (base : UInt32) : Reader Encoding := do
  return Encoding.of base |>.imm16 (← constant 0xffff)

/-- A constant of 16 bits, 0 if none is written. -/
def debugState (base : UInt32) : Reader Encoding := do
  return Encoding.of base |>.imm16 (← optionalConstant 0xffff 0)

/-- A hint number. -/
def hint : Reader Encoding := do
  return Encoding.of 0xd503201f |>.field 5 7 (← constant 127 .hint)

/-! ## Pointer authentication -/

/-- A pointer and a modifier. -/
def authenticate (base : UInt32) : Reader Encoding := do
  let d ← wideRegister
  comma
  let n ← addressRegister
  return Encoding.of base |>.rn n |>.rd d

/-- A pointer. -/
def authenticateZero (base : UInt32) : Reader Encoding := do
  let d ← wideRegister
  return Encoding.of base |>.rd d

/-- A destination, a source and a modifier. -/
def genericAuthentication : Reader Encoding := do
  let d ← registerOf .x64
  comma
  let n ← registerOf .x64
  comma
  let m ← addressRegister
  return Encoding.of 0x9ac03000 |>.rm m |>.rn n |>.rd d

end InlineA64.Encoder
