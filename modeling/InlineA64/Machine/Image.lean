import InlineA64.Fault

/-!
# Memory images

An `Image` is a run of bytes from a base address on. It grows as far as it is written, with zeros
in the gaps, up to `Image.capacity` bytes.
-/

namespace InlineA64

/-- Bytes from a base address on. -/
structure Image where
  /-- The address of the first byte. -/
  base : UInt64
  /-- The bytes. -/
  bytes : Array Byte
deriving DecidableEq, Repr

namespace Image

/-- The greatest size of an image. -/
def capacity : Nat :=
  16 * 1024 * 1024

/-- The empty image at a base address. -/
def empty (base : UInt64) : Image :=
  ⟨base, #[]⟩

/-- Fill an array up to a size with zeros; a longer array is left alone. -/
def grow (size : Nat) (bytes : Array Byte) : Array Byte :=
  if bytes.size < size then bytes ++ Array.replicate (size - bytes.size) 0 else bytes

/-- Put bytes into an array from an index on. -/
def put : List Byte → Nat → Array Byte → Array Byte
  | [], _, bytes => bytes
  | b :: rest, i, bytes => put rest (i + 1) (bytes.setIfInBounds i b)

/-- The offset of an address from the base, if bytes from there on to the end of `count` are within
the capacity. -/
def offset? (image : Image) (address : UInt64) (count : Nat) : Option Nat :=
  if image.base ≤ address then
    let offset := address.toNat - image.base.toNat
    if offset + count ≤ capacity then some offset else none
  else none

/-- Write bytes from an address on. Bytes that would not lie within the capacity are refused, and
the image is left alone. -/
def write (image : Image) (address : UInt64) (bytes : List Byte) : Except Failure Image :=
  match image.offset? address bytes.length with
  | some offset =>
    .ok { image with bytes := put bytes offset (grow (offset + bytes.length) image.bytes) }
  | none =>
    .error ⟨.addressOutOfRange address (image.base + UInt64.ofNat capacity), .nowhere⟩

end Image

end InlineA64
