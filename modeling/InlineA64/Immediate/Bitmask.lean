import InlineA64.Register

/-!
# Bitmask immediates

A logical instruction takes as immediate a value that repeats one element of 2, 4, 8, 16, 32 or 64
bits, where the element is a rotated run of ones that is neither empty nor full. `Bitmask` is the
13-bit triple `N:immr:imms` that stands for such a value.

* `Bitmask.decode?`: the value that a triple stands for;
* `Bitmask.encode?`: the triple for a value. The element is the shortest one that repeats to the
  value, its run of ones is as long as it has ones, and the rotation is found by trying each.
-/

namespace InlineA64

/-- The triple `N:immr:imms` of a logical immediate. -/
structure Bitmask where
  /-- The element has 64 bits. -/
  n : Bool
  /-- The rotation of the element to the right. -/
  immr : Nat
  /-- The size of the element and the length of its run of ones. -/
  imms : Nat
deriving DecidableEq, Repr

namespace Bitmask

/-- The triple as a 13-bit number. -/
def toNat (b : Bitmask) : Nat :=
  b.n.toNat * 4096 + b.immr * 64 + b.imms

/-- The triple in the low 13 bits of a number. -/
def ofNat (code : Nat) : Bitmask :=
  ⟨code / 4096 % 2 == 1, code / 64 % 64, code % 64⟩

/-- A run of `count` ones at the low end. -/
def ones (count : Nat) : Nat :=
  (1 <<< count) - 1

/-- Rotate the low `size` bits of `value` to the right by `count`, at most `size`. -/
def rotateRight (size value count : Nat) : Nat :=
  value / (1 <<< count) + value % (1 <<< count) * (1 <<< (size - count))

/-- An element of `size` bits, repeated side by side. -/
def repeated (size element : Nat) : Nat → Nat
  | 0 => 0
  | copies + 1 => element + repeated size element copies * (1 <<< size)

/-- The value of a register of `width` filled with an element of `size` bits. -/
def fill (width : Width) (size element : Nat) : Nat :=
  repeated size element (width.bits / size)

/-- The element size that a triple names: the highest bit of `N` and the inverted `imms`. A
reserved triple names none. -/
def elementSize? (b : Bitmask) : Option Nat :=
  if b.n then some 64
  else [32, 16, 8, 4, 2].find? fun size => b.imms / size % 2 = 0

/-- The value that a triple stands for in a register of a width, or nothing if the triple is
reserved. -/
def decode? (width : Width) (b : Bitmask) : Option Nat := do
  let size ← b.elementSize?
  let run := b.imms % size + 1
  if size ≤ width.bits && run < size then
    some (fill width size (rotateRight size (ones run) (b.immr % size)))
  else none

/-- The size of the shortest element that repeats to `value`. -/
def period? (width : Width) (value : Nat) : Option Nat :=
  [2, 4, 8, 16, 32, 64].find? fun size =>
    size ≤ width.bits && fill width size (value % (1 <<< size)) == value

/-- The number of ones among the low `size` bits. -/
def countOnes (size value : Nat) : Nat :=
  (List.range size).countP value.testBit

/-- The triple that stands for `value` in a register of a width. -/
def encode? (width : Width) (value : Nat) : Option Bitmask := do
  let size ← period? width value
  let element := value % (1 <<< size)
  let run := countOnes size element
  if run = 0 || run = size then none
  else
    let rotation ← (List.range size).find? (rotateRight size (ones run) · == element)
    some ⟨size == 64, rotation, 64 - 2 * size + (run - 1)⟩

end Bitmask

end InlineA64
