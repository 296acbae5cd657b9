import InlineA64.Encoder.Arithmetic

/-!
# Bitwise operations and moves

The immediate of a bitwise operation is a bitmask. A move of an immediate takes the first of three
forms that holds it: one 16-bit lane, the complement of one, a bitmask.
-/

namespace InlineA64.Encoder

open Reader

/-! ## Bitwise operations -/

/-- The bitmask for a value, as a field. -/
def bitmaskField (width : Width) (value : Nat) : Except Fault Nat :=
  match Bitmask.encode? width value with
  | some b => .ok b.toNat
  | none => .error (.outOfRange .bitmask)

/-- The field for the immediate of a bitwise operation, complemented if the operation is of the
inverted kind. -/
def logicalField (width : Width) (invert : Bool) (value : Int) : Except Fault Nat := do
  let value ← Immediate.reduceTo width value
  bitmaskField width (if invert then Immediate.complement width value else value)

/-- A bitwise operation on an immediate. The word is that of the plain operation, since the
immediate is complemented instead. -/
def logicalImmediate (op : LogicalOp) (invert : Bool) (d n : Register) : Reader Encoding := do
  if (op.setsFlags && d.isStackPointer) || (!op.setsFlags && d.zero) then malformed .register
  else
    let start ← here
    let field ← liftAt start (logicalField d.width invert (← immediate))
    return Encoding.of 0x12000000 |>.field 29 2 op.code |>.sf d |>.bitmask field |>.rn n |>.rd d

/-- A bitwise operation on a shifted register. -/
def logicalRegister (op : LogicalOp) (invert : Bool) (d n : Register) : Reader Encoding := do
  if d.isStackPointer then malformed .register
  else
    let m ← registerOf d.width
    let (shift, amount) ← optionalShift d.width true
    return Encoding.of 0x0a000000
      |>.field 29 2 op.code |>.optionIf invert 0x200000 |>.sf d |>.field 22 2 shift.code |>.rm m
      |>.field 10 6 amount |>.rn n |>.rd d

/-- Bitwise operations and the test. -/
def logical (op : LogicalOp) (invert test : Bool) : Reader Encoding := do
  let (d, n) ← destinationAndSource test plainRegister
  comma
  if ← sees .hash then logicalImmediate op invert d n else logicalRegister op invert d n

/-! ## Moves -/

/-- A move of 16 bits into a lane. -/
def laneMove (base : UInt32) (d : Register) (lane held : Nat) : Encoding :=
  Encoding.of base |>.sf d |>.hw lane |>.imm16 held |>.rd d

/-- A disjunction of a bitmask with the zero register. -/
def bitmaskMove (d : Register) (value : Nat) : Except Fault Encoding := do
  let field ← bitmaskField d.width value
  return Encoding.of 0x320003e0 |>.sf d |>.bitmask field |>.rd d

/-- The move of an immediate into a register. The stack pointer takes a bitmask alone, the zero
register anything but a bitmask. -/
def moveImmediate (d : Register) (value : Int) : Except Fault Encoding := do
  let value ← Immediate.reduceTo d.width value
  if d.isStackPointer then bitmaskMove d value
  else
    match Immediate.lane? d.width value,
        Immediate.lane? d.width (Immediate.complement d.width value) with
    | some (lane, held), _ => return laneMove 0x52800000 d lane held
    | none, some (lane, held) => return laneMove 0x12800000 d lane held
    | none, none => if d.zero then .error (.malformed .register) else bitmaskMove d value

/-- The move of a register: an addition of 0 where the stack pointer is involved, a disjunction with
the zero register otherwise. -/
def moveRegister (d s : Register) : Reader Encoding := do
  requireSameWidth d s
  if d.isStackPointer || s.isStackPointer then
    if d.zero || s.zero then malformed .register
    else return Encoding.of 0x11000000 |>.sf d |>.rn s |>.rd d
  else return Encoding.of 0x2a0003e0 |>.sf d |>.rm s |>.rd d

/-- A move of an immediate or of a register. -/
def move : Reader Encoding := do
  let d ← register
  comma
  if ← sees .hash then
    let start ← here
    liftAt start (moveImmediate d (← immediate))
  else moveRegister d (← register)

/-- The lane that a written shift names, in a register of a width. -/
def laneOfShift? (width : Width) (shift : Int) : Option Nat :=
  if 0 ≤ shift && shift % 16 == 0 && shift < width.bits then some (shift / 16).toNat else none

/-- A comma and a left shift by a multiple of 16, or nothing, which stands for the lowest lane. -/
def optionalLane (width : Width) : Reader Nat := do
  if ← accept .comma then
    match ← keyword .immediateShift with
    | none => malformed .laneShift
    | some () =>
      match laneOfShift? width (← immediate) with
      | some lane => return lane
      | none => malformed .laneShift
  else return 0

/-- A 16-bit immediate and its lane. -/
def wideMove (base : UInt32) : Reader Encoding := do
  let d ← plainRegister
  comma
  let held ← constant 0xffff
  return laneMove base d (← optionalLane d.width) held

end InlineA64.Encoder
