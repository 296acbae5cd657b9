import InlineA64.Register

/-!
# Unsigned immediates

Each function takes the value of an operand and yields the field it goes into, or the fault to
report.
-/

namespace InlineA64.Immediate

/-- A constant from 0 to `max`, refused beyond `limit`. -/
def unsigned (max : Nat) (limit : Limit) (value : Int) : Except Fault Nat :=
  if 0 ≤ value && value ≤ max then .ok value.toNat else .error (.outOfRange limit)

/-- An offset of 12 bits in units of `2 ^ scale` bytes. -/
def scaledOffset (scale : Nat) (value : Int) : Except Fault Nat :=
  let unit : Int := (1 <<< scale : Nat)
  if 0 ≤ value && value % unit == 0 && value / unit < 4096 then .ok (value / unit).toNat
  else .error (.outOfRange (.scaledOffset scale))

/-- A value reduced to the width of a register. A 32-bit value may be written as signed or as
unsigned. -/
def reduceTo (width : Width) (value : Int) : Except Fault Nat :=
  match width with
  | .x64 => .ok (value % 0x10000000000000000).toNat
  | .w32 =>
    if -0x80000000 ≤ value && value ≤ 0xffffffff then .ok (value % 0x100000000).toNat
    else .error (.outOfRange .wordImmediate)

/-- The value of a register in which every bit of `value` is turned over. -/
def complement (width : Width) (value : Nat) : Nat :=
  (1 <<< width.bits) - 1 - value

/-- The lowest 16-bit lane that holds every set bit of `value`, with what it holds. -/
def lane? (width : Width) (value : Nat) : Option (Nat × Nat) :=
  (List.range (width.bits / 16)).findSome? fun lane =>
    let held := value / (1 <<< (16 * lane)) % 0x10000
    if held * (1 <<< (16 * lane)) = value then some (lane, held) else none

end InlineA64.Immediate
