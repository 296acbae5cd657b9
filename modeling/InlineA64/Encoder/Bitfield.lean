import InlineA64.Operand.Basic
import InlineA64.Encoding

/-!
# Shifts, bitfields and bit operations

Shifts by an immediate, extensions and the insert and extract forms are all spellings of the
bitfield moves, but for the rotation, which extracts from a register beside itself.
-/

namespace InlineA64.Encoder

open Reader

/-! ## Shifts -/

/-- A shift by a register. -/
def shiftByRegister (kind : Shift) (d n : Register) : Reader Encoding := do
  let m ← registerOf d.width
  return Encoding.of 0x1ac02000 |>.field 10 2 kind.code |>.sf d |>.rm m |>.rn n |>.rd d

/-- The opcode and the immediates of a shift by `amount`, below the width of the register. -/
def shiftFields (kind : Shift) (n : Register) (amount : Nat) : Encoding :=
  let bits := n.bits
  match kind with
  | .lsl => Encoding.of 0x53000000 |>.immr ((bits - amount) % bits) |>.imms (bits - 1 - amount)
  | .lsr => Encoding.of 0x53000000 |>.immr amount |>.imms (bits - 1)
  | .asr => Encoding.of 0x13000000 |>.immr amount |>.imms (bits - 1)
  | .ror => Encoding.of 0x13800000 |>.rm n |>.imms amount

/-- A shift by an immediate or by a register. -/
def shift (kind : Shift) : Reader Encoding := do
  let d ← plainRegister
  comma
  let n ← registerOf d.width
  comma
  if ← sees .hash then
    let amount ← shiftAmount d.width
    return shiftFields kind n amount |>.sfAndN d |>.rn n |>.rd d
  else shiftByRegister kind d n

/-! ## Bitfields -/

/-- Rotation and end of a field given by its lowest bit and its width. -/
def fieldBounds (form : FieldSpelling) (bits lowest width : Nat) : Nat × Nat :=
  match form with
  | .extract => (lowest, lowest + width - 1)
  | _ => ((bits - lowest) % bits, width - 1)

/-- The second operand of a bitfield move, the first being `first`; the value is rotation and
end. -/
def fieldOperand (form : FieldSpelling) (width : Width) (first : Nat) : Reader (Nat × Nat) := do
  if form = .raw then return (first, ← bitNumber width)
  else
    let count ← constant width.bits .bitfieldWidth
    if count = 0 ∨ width.bits < first + count then beyond .bitfield
    else return fieldBounds form width.bits first count

/-- Bitfield moves. Clearing takes no source but the zero register. -/
def bitfield (op : BitfieldOp) (form : FieldSpelling) : Reader Encoding := do
  let d ← plainRegister
  comma
  let n ← (do
    if form = .clear then return .zeroOf d.width
    else
      let n ← registerOf d.width
      comma
      return n)
  let first ← bitNumber d.width
  comma
  let (immr, imms) ← fieldOperand form d.width first
  return Encoding.of 0x13000000
    |>.field 29 2 op.code |>.sfAndN d |>.immr immr |>.imms imms |>.rn n |>.rd d

/-- The destinations of an extension: a word extends to an `X` register, anything less with zeros to
a `W` register and with the sign to either. -/
def extensionAdmits (signed : Bool) (source : Nat) (d : Register) : Bool :=
  if source == 32 then d.isWide else signed || !d.isWide

/-- Sign or zero extension of the low bits of a `W` register. -/
def extension (signed : Bool) (source : Nat) : Reader Encoding := do
  let start ← here
  let d ← plainRegister
  if !extensionAdmits signed source d then malformedAt start .extensionWidth
  else
    comma
    let n ← registerOf .w32
    return Encoding.of (if signed then 0x13000000 else 0x53000000)
      |>.sfAndN d |>.imms (source - 1) |>.rn n |>.rd d

/-- Extraction from two registers side by side. -/
def extract : Reader Encoding := do
  let d ← plainRegister
  comma
  let n ← registerOf d.width
  comma
  let m ← registerOf d.width
  comma
  let lowest ← bitNumber d.width
  return Encoding.of 0x13800000 |>.sfAndN d |>.rm m |>.imms lowest |>.rn n |>.rd d

/-! ## Bit operations -/

/-- A destination and a source of one width. -/
def bitOperation (base wideBits : UInt32) (wideOnly : Bool) : Reader Encoding := do
  let start ← here
  let d ← plainRegister
  if wideOnly && !d.isWide then malformedAt start .narrowRegister
  else
    comma
    let n ← registerOf d.width
    return Encoding.of base |>.optionIf d.isWide wideBits |>.rn n |>.rd d

end InlineA64.Encoder
