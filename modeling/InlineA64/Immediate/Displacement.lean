import InlineA64.Fault

/-!
# Signed displacements

Branch and label offsets, pair offsets and unscaled offsets all have one form: a signed field of
`bits` bits that counts in units of `unit` bytes (or pages). `Displacement` is that form,
`Displacement.admits` says which distances it holds and `Displacement.field` what goes into the
field.
-/

namespace InlineA64

/-- A signed field that counts in units. -/
structure Displacement where
  /-- The number of bits of the field. -/
  bits : Nat
  /-- The distance that one step of the field stands for. -/
  unit : Nat
  /-- What a distance beyond the field is reported as. -/
  fault : Fault

namespace Displacement

/-- The distance is a whole number of units and that number is in the two's complement range. -/
def admits (d : Displacement) (distance : Int) : Bool :=
  let reach : Int := ((1 <<< (d.bits - 1)) * d.unit : Nat)
  distance % d.unit == 0 && -reach ≤ distance && distance < reach

/-- The field for a distance: the whole units in it, rounded down, modulo the size of the field. -/
def field (d : Displacement) (distance : Int) : Nat :=
  (distance / d.unit % (1 <<< d.bits : Nat)).toNat

/-- The field for a distance; with `checked` off a distance beyond the field is cut down to it
instead of being refused. -/
def encode (d : Displacement) (checked : Bool) (distance : Int) : Except Fault Nat :=
  if checked && !d.admits distance then .error d.fault else .ok (d.field distance)

/-- The target of a `B` or `BL`. -/
def branch : Displacement := ⟨26, 4, .branchOutOfRange⟩

/-- The target of a conditional branch or of a literal load. -/
def literal : Displacement := ⟨19, 4, .outOfRange (.wordTarget "1MB")⟩

/-- The target of a test branch. -/
def test : Displacement := ⟨14, 4, .outOfRange (.wordTarget "32KB")⟩

/-- The target of an `ADR`. -/
def address : Displacement := ⟨21, 1, .outOfRange (.target "1MB")⟩

/-- The target of an `ADRP`, in pages. -/
def page : Displacement := ⟨21, 1, .outOfRange (.target "4GB")⟩

/-- A signed byte offset from a base register. -/
def unscaled : Displacement := ⟨9, 1, .outOfRange .byteOffset⟩

/-- The offset of a pair of words or doublewords. -/
def pair (doubleword : Bool) : Displacement :=
  ⟨7, if doubleword then 8 else 4, .outOfRange (.pairOffset doubleword)⟩

/-- The offset of an authenticated load. -/
def authenticated : Displacement := ⟨10, 8, .outOfRange .authenticatedOffset⟩

end Displacement

end InlineA64
