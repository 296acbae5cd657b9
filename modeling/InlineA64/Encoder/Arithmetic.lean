import InlineA64.Operand.Basic
import InlineA64.Encoding

/-!
# Arithmetic

Additions, the three-register forms, multiplies and checksums, and label addresses.
-/

namespace InlineA64.Encoder

open Reader

/-- Three registers of one width. -/
def threeRegister (base : UInt32) : Reader Encoding := do
  let d ← plainRegister
  comma
  let n ← registerOf d.width
  comma
  let m ← registerOf d.width
  return Encoding.of base |>.sf d |>.rm m |>.rn n |>.rd d

/-! ## Addition and subtraction -/

/-- The opcode of an addition with the bits for subtracting and for setting the flags. -/
def additionOf (base : UInt32) (subtract setsFlags : Bool) : Encoding :=
  Encoding.of base |>.optionIf subtract 0x40000000 |>.optionIf setsFlags 0x20000000

/-- The registers that the immediate and the extended form take: their base register is never the
zero register, and their destination is the stack pointer or the zero register depending on
whether the flags are set. -/
def admitsStackPointer (setsFlags : Bool) (d n : Register) : Bool :=
  !(n.zero || (setsFlags && d.isStackPointer) || (!setsFlags && d.zero))

/-- An immediate whose shift is not written: the value itself, or the upper twelve of 24 bits if
they hold all of it. -/
def splitAddend (value : Int) : Int × Bool :=
  if 4096 ≤ value && value % 4096 == 0 && value / 4096 < 4096 then (value / 4096, true)
  else (value, false)

/-- The shift of an immediate, which has to be one by 0 or by 12. -/
def addendShift : Reader Bool := do
  match ← keyword .immediateShift with
  | none => malformed .immediateShift
  | some () =>
    match ← immediate with
    | 0 => return false
    | 12 => return true
    | _ => malformed .immediateShift

/-- Addition of an immediate of 12 bits, shifted by 0 or by 12. -/
def additionImmediate (subtract setsFlags : Bool) (d n : Register) : Reader Encoding := do
  if !admitsStackPointer setsFlags d n then malformed .register
  else
    let start ← here
    let written ← immediate
    let (addend, shifted) ← (do
      if ← accept .comma then return (written, ← addendShift) else return splitAddend written)
    let imm ← liftAt start (Immediate.unsigned 4095 .addend addend)
    return additionOf 0x11000000 subtract setsFlags
      |>.sf d |>.optionIf shifted 0x400000 |>.imm12 imm |>.rn n |>.rd d

/-- The modifier of the third register and its amount. -/
def additionModifier : Reader (Option Modifier × Int) := do
  if ← accept .comma then
    match ← keyword .modifiers with
    | none => malformed .modifier
    | some modifier =>
      if ← sees .hash then return (some modifier, ← immediate)
      else return (some modifier, 0)
  else return (none, 0)

/-- The extension that a modifier stands for where the stack pointer is involved: a left shift, or
no modifier, extends the whole register. -/
def extensionOf (d : Register) : Option Modifier → Option Nat
  | some (.extension option) => some option
  | some (.shift .lsl) | none => some (if d.isWide then 3 else 2)
  | some (.shift _) => none

/-- Addition of an extended register, shifted by at most 4. -/
def additionExtended (subtract setsFlags : Bool) (d n m : Register) (start : Mark)
    (modifier : Option Modifier) (amount : Int) : Reader Encoding := do
  if !admitsStackPointer setsFlags d n then malformed .register
  else
    match extensionOf d modifier with
    | none => malformed .stackPointerModifier
    | some option =>
      if m.isWide ≠ (d.isWide && option % 4 == 3) then malformedAt start .extendedWidth
      else if !(0 ≤ amount && amount ≤ 4) then beyond .extensionAmount
      else
        return additionOf 0x0b200000 subtract setsFlags
          |>.sf d |>.rm m |>.field 13 3 option |>.field 10 3 amount.toNat |>.rn n |>.rd d

/-- Addition of a shifted register. -/
def additionShifted (subtract setsFlags : Bool) (d n m : Register) (shift : Shift)
    (amount : Int) : Reader Encoding := do
  requireSameWidth d m
  if shift = .ror then malformed .shiftKind
  else if !(0 ≤ amount && amount < d.bits) then beyond (.shiftAmount d.bits)
  else
    return additionOf 0x0b000000 subtract setsFlags
      |>.sf d |>.field 22 2 shift.code |>.rm m |>.field 10 6 amount.toNat |>.rn n |>.rd d

/-- Addition of a register: the extended form if the stack pointer or an extension is involved, the
shifted form otherwise. -/
def additionRegister (subtract setsFlags : Bool) (d n : Register) : Reader Encoding := do
  let start ← here
  let m ← register
  if m.isStackPointer then malformedAt start .stackPointerOperand
  else
    let (modifier, amount) ← additionModifier
    let extended := additionExtended subtract setsFlags d n m start modifier amount
    if n.isStackPointer || d.isStackPointer then extended
    else
      match modifier with
      | some (.extension _) => extended
      | some (.shift kind) => additionShifted subtract setsFlags d n m kind amount
      | none => additionShifted subtract setsFlags d n m .lsl amount

/-- The destination and the first source; a comparison writes the source alone and discards the
result into the zero register. -/
def destinationAndSource (compare : Bool) (source : Reader Register) :
    Reader (Register × Register) := do
  if compare then
    let n ← source
    return (.zeroOf n.width, n)
  else
    let d ← register
    comma
    let n ← source
    requireSameWidth d n
    return (d, n)

/-- Additions, subtractions and comparisons. -/
def addition (subtract setsFlags compare : Bool) : Reader Encoding := do
  let (d, n) ← destinationAndSource compare register
  comma
  if ← sees .hash then additionImmediate subtract setsFlags d n
  else additionRegister subtract setsFlags d n

/-! ## Negation -/

/-- A destination and a source with an optional shift. -/
def shiftedMove (base : UInt32) (rotate : Bool) : Reader Encoding := do
  let d ← plainRegister
  comma
  let m ← registerOf d.width
  let (shift, amount) ← optionalShift d.width rotate
  return Encoding.of base |>.sf d |>.field 22 2 shift.code |>.rm m |>.field 10 6 amount |>.rd d

/-- A destination and a source. -/
def negateWithCarry (base : UInt32) : Reader Encoding := do
  let d ← plainRegister
  comma
  let m ← registerOf d.width
  return Encoding.of base |>.sf d |>.rm m |>.rd d

/-! ## Multiplication -/

/-- A destination, two factors and an addend, all of one width. -/
def multiplyAdd (base : UInt32) : Reader Encoding := do
  let d ← plainRegister
  comma
  let n ← registerOf d.width
  comma
  let m ← registerOf d.width
  comma
  let a ← registerOf d.width
  return Encoding.of base |>.sf d |>.rm m |>.ra a |>.rn n |>.rd d

/-- A wide destination and two narrow factors, with a wide addend if it accumulates. The widths are
checked when all registers have been read. -/
def wideningMultiply (base : UInt32) (accumulate : Bool) : Reader Encoding := do
  let start ← here
  let d ← plainRegister
  comma
  let n ← plainRegister
  comma
  let m ← plainRegister
  let product := Encoding.of base |>.rm m |>.rn n |>.rd d
  if accumulate then
    comma
    let a ← plainRegister
    if d.isWide && !n.isWide && !m.isWide && a.isWide then return product.ra a
    else malformedAt start (.wideningMultiply accumulate)
  else if d.isWide && !n.isWide && !m.isWide then return product
  else malformedAt start (.wideningMultiply accumulate)

/-- Three wide registers. -/
def multiplyHigh (base : UInt32) : Reader Encoding := do
  let d ← registerOf .x64
  comma
  let n ← registerOf .x64
  comma
  let m ← registerOf .x64
  return Encoding.of base |>.rm m |>.rn n |>.rd d

/-- A narrow result and a narrow checksum so far, with narrow or wide data. -/
def checksum (base : UInt32) (wide : Bool) : Reader Encoding := do
  let d ← narrowRegister
  comma
  let n ← narrowRegister
  comma
  let m ← if wide then wideRegister else narrowRegister
  return Encoding.of base |>.rm m |>.rn n |>.rd d

/-! ## Label addresses -/

/-- The field of a label address, its low two bits apart from the others. -/
def labelAddress (base : UInt32) (d : Register) (field : Nat) : Encoding :=
  Encoding.of base |>.field 29 2 (field % 4) |>.imm19 (field / 4) |>.rd d

/-- The address of a label, or of its page. -/
def address (page : Bool) : Reader Encoding := do
  let d ← wideRegister
  comma
  if page then
    let start ← here
    let pages ← request .pageDistance
    return labelAddress 0x90000000 d (← reachable start .page pages.toInt)
  else return labelAddress 0x10000000 d (← target .address)

end InlineA64.Encoder
