import InlineA64.Text.Span

/-!
# What can go wrong

A failure is a `Fault`, the cause, at a `Span`, the place. Causes are constructors; the wording
shown to the user and the error number stand in `Fault.message` and `Fault.code` alone.

* `Malformed`: a statement that cannot be read or names an operand the instruction does not take;
* `Limit`: an operand value that its field cannot hold;
* `Fault`: every cause of failure;
* `Failure`: a cause and its place.
-/

namespace InlineA64

/-- What is wrong with the form of a statement. -/
inductive Malformed where
  /-- Nothing more specific can be said. -/
  | statement
  /-- A mark that the grammar requires is not there. -/
  | missing (mark : Char)
  /-- No register, or one that the operand does not admit. -/
  | register
  /-- The stack pointer where a field reads 31 as the zero register. -/
  | stackPointer
  /-- Registers of two widths. -/
  | mixedWidths
  /-- An offset other than 0 behind a base register that takes none. -/
  | nonzeroOffset
  /-- No condition code. -/
  | condition
  /-- A condition that has no opposite. -/
  | unconditional
  /-- No shift type, or one that the operand does not admit. -/
  | shiftKind
  /-- No index modifier after the comma of a register offset. -/
  | indexModifier
  /-- Pre-indexing without an offset. -/
  | preIndexWithoutOffset
  /-- A shift of an immediate other than `LSL #0` and `LSL #12`. -/
  | immediateShift
  /-- The stack pointer as the third register of an addition. -/
  | stackPointerOperand
  /-- No modifier after the comma of a register operand. -/
  | modifier
  /-- A right shift or rotation where the stack pointer requires an extension. -/
  | stackPointerModifier
  /-- A register whose width is not the one its extension takes. -/
  | extendedWidth
  /-- A move shift that is no lane of the register. -/
  | laneShift
  /-- A destination too narrow or too wide for the extension. -/
  | extensionWidth
  /-- Operands of the wrong widths for a widening multiply. -/
  | wideningMultiply (accumulate : Bool)
  /-- A `W` register where only `X` registers will do. -/
  | narrowRegister
  /-- A bit number outside the register. -/
  | bitNumber
  /-- No maintenance operation of that name. -/
  | operation
  /-- No system register. -/
  | systemRegister
  /-- No barrier option. -/
  | barrier
  /-- No control register. -/
  | controlRegister
  /-- A label where the instruction takes none. -/
  | noLiteralForm
  /-- A form of memory operand that the instruction does not take. -/
  | addressingMode
  /-- Register pairs that are not pairs. -/
  | registerPairs
  /-- No prefetch operation. -/
  | prefetch
  /-- An alignment that is no power of two from 4 to 128. -/
  | alignment
  /-- A base prefix without digits. -/
  | number
deriving DecidableEq, Repr

namespace Malformed

/-- The message shown for a malformed statement. -/
def message : Malformed → String
  | statement => "Syntax error"
  | missing mark => "Missing ".push mark
  | register => "Bad register"
  | stackPointer => "SP is not allowed here"
  | mixedWidths => "Registers must all be the same width"
  | nonzeroOffset => "If an offset is present, it must be 0"
  | condition => "Bad condition code"
  | unconditional => "Condition cannot be AL or NV"
  | shiftKind => "Shift types: LSL, LSR, ASR, or sometimes ROR"
  | indexModifier => "Extend types: UXTW, SXTW, SXTX, or LSL"
  | preIndexWithoutOffset => "Pre-indexing needs an offset"
  | immediateShift => "Shift must be LSL #0 or LSL #12"
  | stackPointerOperand => "Third register cannot be SP"
  | modifier => "Bad extend or shift type"
  | stackPointerModifier => "Only LSL can be used with SP"
  | extendedWidth => "Index register width does not match the extend type"
  | laneShift => "Shift must be a multiple of 16, up to 48"
  | extensionWidth => "Bad register width for this extension"
  | wideningMultiply true => "Registers must be: Xd, Wn, Wm, Xa"
  | wideningMultiply false => "Registers must be: Xd, Wn, Wm"
  | narrowRegister => "Registers must be X registers"
  | bitNumber => "Bit numbers must be 0-31 for W registers, 0-63 for X registers"
  | operation => "Unknown operation"
  | systemRegister => "Bad system register"
  | barrier => "Unknown barrier option"
  | controlRegister => "Control register names are C0 to C15"
  | noLiteralForm => "There is no literal form of this instruction"
  | addressingMode => "Addressing mode not allowed here"
  | registerPairs => "Pairs of registers must have sequential numbers and all be the same width"
  | prefetch => "Unknown prefetch operation"
  | alignment => "Alignment must be a power of two from 4 to 128"
  | number => "Bad number"

end Malformed

/-- The limit that an operand value breaks. -/
inductive Limit where
  /-- An unsigned 12-bit offset in units of `2 ^ scale` bytes. -/
  | scaledOffset (scale : Nat)
  /-- A signed 9-bit byte offset. -/
  | byteOffset
  /-- The offset of a register pair, in words or doublewords. -/
  | pairOffset (doubleword : Bool)
  /-- The offset of an authenticated load. -/
  | authenticatedOffset
  /-- An unsigned constant up to `max`. -/
  | constant (max : Nat)
  /-- The immediate of an addition. -/
  | addend
  /-- The amount of a shift of a register of `bits` bits. -/
  | shiftAmount (bits : Nat)
  /-- A bit number. -/
  | bitNumber
  /-- The width of a bitfield. -/
  | bitfieldWidth
  /-- A bitfield that sticks out of the register. -/
  | bitfield
  /-- The amount of an extension. -/
  | extensionAmount
  /-- The amount of an index shift. -/
  | indexAmount
  /-- The amount of an index shift of a prefetch. -/
  | prefetchAmount
  /-- A prefetch operation given as a number. -/
  | prefetchOperation
  /-- A hint number. -/
  | hint
  /-- A barrier option given as a number. -/
  | barrier
  /-- Condition flags given as a number. -/
  | flags
  /-- A control register number. -/
  | controlRegister
  /-- An immediate for a `W` register. -/
  | wordImmediate
  /-- An immediate that is no bitmask. -/
  | bitmask
  /-- A label addressed in words from the instruction, over `reach` as written in the message. -/
  | wordTarget (reach : String)
  /-- A label addressed in bytes or pages from the instruction. -/
  | target (reach : String)
  /-- A limit that the caller puts into words. -/
  | stated (text : String)
deriving DecidableEq, Repr

namespace Limit

/-- The message shown for a value beyond a limit. -/
def message : Limit → String
  | scaledOffset scale =>
    match scale % 4 with
    | 0 => "Constant must be positive and less than 4096"
    | 1 => "Constant must be positive, a multiple of 2, and less than 8192"
    | 2 => "Constant must be positive, a multiple of 4, and less than 16384"
    | _ => "Constant must be positive, a multiple of 8, and less than 32768"
  | byteOffset => "Offset must be between -256 and 255"
  | pairOffset false => "Offset must be a multiple of 4 from -256 to 252"
  | pairOffset true => "Offset must be a multiple of 8 from -512 to 504"
  | authenticatedOffset => "Offset must be a multiple of 8 from -4096 to 4088"
  | constant max => "Constant must be 0-" ++ toString max
  | addend => "Constant must be 0-4095, optionally shifted left by 12"
  | shiftAmount bits =>
    if bits ≤ 32 then "Shift amount must be 0-31 for W registers"
    else "Shift amount must be 0-63 for X registers"
  | bitNumber => "Bit numbers must be 0-31 for W registers, 0-63 for X registers"
  | bitfieldWidth => "Bitfield width must be 1 to register size"
  | bitfield => "Bitfield does not fit in the register"
  | extensionAmount => "Extension amount must be 0..4"
  | indexAmount => "Shift amount must be 0 or the access size"
  | prefetchAmount => "Only shifts #0 and #3 allowed, must be present with LSL"
  | prefetchOperation => "Prefetch operation must be 0-31"
  | hint => "Hint number must be 0-127"
  | barrier => "Barrier option must be 0-15"
  | flags => "Flags must be 0-15"
  | controlRegister => "Control register names are C0 to C15"
  | wordImmediate => "Immediate value does not fit in a W register"
  | bitmask => "Immediate value cannot be encoded"
  | wordTarget reach =>
    "Label is not within " ++ reach ++ " of the instruction, or is not word aligned"
  | target reach => "Label is not within " ++ reach ++ " of the instruction"
  | stated text => text

end Limit

/-- Every cause of failure. -/
inductive Fault where
  /-- The statement is malformed. -/
  | malformed (what : Malformed)
  /-- A comma was expected between operands. -/
  | missingComma
  /-- No mnemonic starts the statement; `text` is what stands there. -/
  | unknownMnemonic (text : String)
  /-- The mnemonic is known but belongs to the floating-point and vector instructions. -/
  | unsupported (mnemonic : String)
  /-- An operand value does not fit its field. -/
  | outOfRange (limit : Limit)
  /-- A branch target is out of reach or misaligned. -/
  | branchOutOfRange
  /-- Output would go to `address`, at or beyond `limit` or below the image. -/
  | addressOutOfRange (address limit : UInt64)
  /-- A label is defined a second time. -/
  | multipleLabel (label : String)
  /-- A string stands where a number is required, or a number where a string is. -/
  | typeMismatch
  /-- A string operand is longer than a string may be. -/
  | stringTooLong (length : Nat)
  /-- A name stands for no address. -/
  | noSuchSystemCall (name : String)
  /-- An expression names a variable that does not exist. -/
  | noSuchVariable
  /-- An expression divides by zero. -/
  | divisionByZero
deriving DecidableEq, Repr

namespace Fault

/-- The error number of a fault. -/
def code : Fault → Nat
  | branchOutOfRange => 1
  | multipleLabel _ => 3
  | missingComma => 5
  | typeMismatch => 6
  | outOfRange _ | addressOutOfRange .. => 8
  | malformed _ | unknownMnemonic _ | unsupported _ => 16
  | divisionByZero => 18
  | stringTooLong _ => 19
  | noSuchVariable => 26
  | noSuchSystemCall _ => 51

/-- The message shown for a fault. -/
def message : Fault → String
  | malformed what => what.message
  | missingComma => "Missing ,"
  | unknownMnemonic _ => "Syntax error"
  | unsupported _ => "Unsupported FP/SIMD operation"
  | outOfRange limit => limit.message
  | branchOutOfRange => (Limit.wordTarget "128MB").message
  | addressOutOfRange .. => "Address out of range"
  | multipleLabel _ => "Multiple label"
  | typeMismatch => "Type mismatch"
  | stringTooLong _ => "String too long"
  | noSuchSystemCall _ => "No such system call"
  | noSuchVariable => "No such variable"
  | divisionByZero => "Division by zero"

end Fault

/-- A fault and the place it points at. -/
structure Failure where
  /-- The cause. -/
  fault : Fault
  /-- The place. -/
  span : Span
deriving DecidableEq, Repr

namespace Failure

/-- The one-line report: line, column and message. -/
def render (failure : Failure) : String :=
  failure.span.render ++ ": " ++ failure.fault.message

end Failure

end InlineA64
