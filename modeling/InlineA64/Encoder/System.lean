import InlineA64.Operand.Basic

/-!
# Barriers, system registers and maintenance
-/

namespace InlineA64.Encoder

open Reader

/-! ## Barriers -/

/-- The option of a barrier: a constant or a keyword, which an instruction barrier may leave out. -/
def barrierOption (instruction : Bool) : Reader Nat := do
  if ← sees .hash then constant 15 .barrier
  else if instruction then
    let _ ← keyword .instructionBarrier
    return 15
  else
    match ← wholeWord .barriers with
    | some option => return option
    | none => malformed .barrier

/-- A barrier and its option. -/
def barrier (base : UInt32) (instruction : Bool) : Reader Encoding := do
  return Encoding.of base |>.field 8 4 (← barrierOption instruction)

/-- A constant of four bits, all ones if none is written. -/
def clearExclusive : Reader Encoding := do
  return Encoding.of 0xd503305f |>.field 8 4 (← optionalConstant 15 15)

/-! ## System registers -/

/-- A register and the system register it is loaded from. -/
def readSystemRegister : Reader Encoding := do
  let t ← wideRegister
  comma
  let r ← request .systemRegister
  return r.encode (Encoding.of 0xd5300000) |>.rt t

/-- A system register and the register it is loaded from, or a processor state field and a
constant. -/
def writeSystemRegister : Reader Encoding := do
  match ← wholeWord .stateFields with
  | some field =>
    comma
    let imm ← constant 15
    return Encoding.of 0xd500401f
      |>.field 16 3 field.op1 |>.field 8 4 imm |>.field 5 3 field.op2
  | none =>
    let r ← request .systemRegister
    comma
    let t ← wideRegister
    return r.encode (Encoding.of 0xd5100000) |>.rt t

/-- The letter of a control register and its number. -/
def controlRegister : Reader Nat := do
  if ← accept .control then
    let start ← here
    liftAt start (Immediate.unsigned 15 .controlRegister (← value))
  else malformed .controlRegister

/-- A system instruction given by its numbers, with a register for its result or, optionally, for
its operand. -/
def system (result : Bool) : Reader Encoding := do
  let destination ← (do
    if result then
      let t ← wideRegister
      comma
      return t
    else return .zeroOf .x64)
  let op1 ← constant 7
  comma
  let crn ← controlRegister
  comma
  let crm ← controlRegister
  comma
  let op2 ← constant 7
  let t ← (do
    if result then return destination
    else if ← accept .comma then wideRegister
    else return destination)
  return Encoding.of (if result then 0xd5280000 else 0xd5080000)
    |>.field 16 3 op1 |>.field 12 4 crn |>.field 8 4 crm |>.field 5 3 op2 |>.rt t

/-! ## Maintenance -/

/-- The opcode of a kind of maintenance. -/
def maintenanceBase : Maintenance → UInt32
  | .pageWalk => 0xd5087800
  | .dataCache | .instructionCache => 0xd5087000
  | .lookaside => 0xd5088000

/-- The operation always works on an address, so its register has to be written. -/
def maintenanceNeedsAddress : Maintenance → Bool
  | .pageWalk | .dataCache => true
  | .instructionCache | .lookaside => false

/-- A maintenance operation and its register, the zero register if none is written. -/
def maintenance (kind : Maintenance) : Reader Encoding := do
  match ← wholeWord (.operations kind) with
  | none => malformed .operation
  | some operation =>
    let written ← (do if maintenanceNeedsAddress kind then return true else sees .comma)
    let t ← (do
      if written then
        comma
        wideRegister
      else return .zeroOf .x64)
    return Encoding.of (maintenanceBase kind) |>.option operation |>.rt t

end InlineA64.Encoder
