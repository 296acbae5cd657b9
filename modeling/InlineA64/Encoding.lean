import InlineA64.Immediate.Bitmask

/-!
# Instruction words

An `Encoding` is an instruction word as an encoder describes it: a base opcode and the parts added
to it, each register, operand field and option by itself. `Encoding.word` puts them together. The
parts stay apart until then, so that one can ask which register went into which field and whether
two parts claim the same bit.
-/

namespace InlineA64

/-- What an encoder adds to a base opcode. -/
inductive Part where
  /-- A register number in the five bits from `shift` up. -/
  | register (shift : Nat) (r : Register)
  /-- A value in the `width` bits from `shift` up. -/
  | field (shift width value : Nat)
  /-- Bits that stand for an option. -/
  | option (bits : UInt32)
deriving DecidableEq, Repr

namespace Part

/-- The low `width` bits of a value, moved up by `shift`. -/
def place (shift width value : Nat) : UInt32 :=
  UInt32.ofNat (value % (1 <<< width)) <<< UInt32.ofNat shift

/-- The bits that a part sets. -/
def word : Part → UInt32
  | register shift r => place shift 5 r.number
  | field shift width value => place shift width value
  | option bits => bits

end Part

/-- An instruction word, part by part. -/
structure Encoding where
  /-- The opcode. -/
  base : UInt32
  /-- What has been added to it, in order. -/
  parts : List Part
deriving DecidableEq, Repr

namespace Encoding

/-- The opcode alone. -/
def of (base : UInt32) : Encoding :=
  ⟨base, []⟩

/-- The finished word. -/
def word (e : Encoding) : UInt32 :=
  e.parts.foldl (fun word part => word ||| part.word) e.base

/-- Add a part. -/
def add (e : Encoding) (part : Part) : Encoding :=
  { e with parts := e.parts ++ [part] }

/-- Add a value in the `width` bits from `shift` up. -/
def field (e : Encoding) (shift width value : Nat) : Encoding :=
  e.add (.field shift width value)

/-- Add option bits. -/
def option (e : Encoding) (bits : UInt32) : Encoding :=
  e.add (.option bits)

/-- Add option bits if the condition holds. -/
def optionIf (e : Encoding) (condition : Bool) (bits : UInt32) : Encoding :=
  if condition then e.option bits else e

/-! ## Registers -/

/-- The destination register, bits 0 to 4. -/
def rd (e : Encoding) (r : Register) : Encoding := e.add (.register 0 r)

/-- The transfer register of a load or store, bits 0 to 4. -/
def rt (e : Encoding) (r : Register) : Encoding := e.rd r

/-- The first source or the base register, bits 5 to 9. -/
def rn (e : Encoding) (r : Register) : Encoding := e.add (.register 5 r)

/-- The second transfer register of a pair, bits 10 to 14. -/
def rt2 (e : Encoding) (r : Register) : Encoding := e.add (.register 10 r)

/-- The addend of a multiply, bits 10 to 14. -/
def ra (e : Encoding) (r : Register) : Encoding := e.rt2 r

/-- The second source or the index register, bits 16 to 20. -/
def rm (e : Encoding) (r : Register) : Encoding := e.add (.register 16 r)

/-- The status register of an exclusive store, or the operand of an atomic, bits 16 to 20. -/
def rs (e : Encoding) (r : Register) : Encoding := e.rm r

/-! ## Sizes -/

/-- The size bit of data processing, bit 31, set for `X` registers. -/
def sf (e : Encoding) (r : Register) : Encoding := e.optionIf r.isWide 0x80000000

/-- The size bit of loads and stores, bit 30, set for `X` registers. -/
def sizeBit (e : Encoding) (r : Register) : Encoding := e.optionIf r.isWide 0x40000000

/-- The two size bits of bitfield moves, 31 and 22, set for `X` registers. -/
def sfAndN (e : Encoding) (r : Register) : Encoding := e.optionIf r.isWide 0x80400000

/-! ## Immediates -/

/-- A 12-bit immediate, bits 10 to 21. -/
def imm12 (e : Encoding) (value : Nat) : Encoding := e.field 10 12 value

/-- A 9-bit immediate, bits 12 to 20. -/
def imm9 (e : Encoding) (value : Nat) : Encoding := e.field 12 9 value

/-- A 16-bit immediate, bits 5 to 20. -/
def imm16 (e : Encoding) (value : Nat) : Encoding := e.field 5 16 value

/-- A 19-bit displacement, bits 5 to 23. -/
def imm19 (e : Encoding) (value : Nat) : Encoding := e.field 5 19 value

/-- A 26-bit displacement, bits 0 to 25. -/
def imm26 (e : Encoding) (value : Nat) : Encoding := e.field 0 26 value

/-- A bitmask immediate as a 13-bit number, bits 10 to 22. -/
def bitmask (e : Encoding) (value : Nat) : Encoding := e.field 10 13 value

/-- The rotation of a bitfield move, bits 16 to 21. -/
def immr (e : Encoding) (value : Nat) : Encoding := e.field 16 6 value

/-- The end of a bitfield, or a shift amount, bits 10 to 15. -/
def imms (e : Encoding) (value : Nat) : Encoding := e.field 10 6 value

/-- A condition code, bits 12 to 15. -/
def cond (e : Encoding) (value : Nat) : Encoding := e.field 12 4 value

/-- The lane of a wide move, bits 21 and 22. -/
def hw (e : Encoding) (value : Nat) : Encoding := e.field 21 2 value

end Encoding

end InlineA64
