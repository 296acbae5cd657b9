/-!
# Assembly options

The options that `OPT` sets, as the low bits of a number.
-/

namespace InlineA64

/-- The assembly options, the low four bits of the number given to `OPT`. -/
structure Options where
  /-- List each statement. -/
  list : Bool
  /-- Report unknown labels, branches out of reach and labels bound before. -/
  rangeCheck : Bool
  /-- Write bytes at the physical address instead of the logical one. -/
  offset : Bool
  /-- Stop when writing reaches the limit. -/
  limitCheck : Bool
deriving DecidableEq, Repr

namespace Options

/-- The options that a number stands for. -/
def ofInt (n : Int) : Options :=
  ⟨n % 2 == 1, n / 2 % 2 == 1, n / 4 % 2 == 1, n / 8 % 2 == 1⟩

/-- The number of the options. -/
def toNat (o : Options) : Nat :=
  o.list.toNat + 2 * o.rangeCheck.toNat + 4 * o.offset.toNat + 8 * o.limitCheck.toNat

/-- Listing and range checks, the options at the start of a program and after each block. -/
def standard : Options :=
  ofInt 3

end Options

end InlineA64
