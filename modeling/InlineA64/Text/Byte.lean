/-!
# Bytes of assembler text

Assembler text is a sequence of bytes: ASCII, with three one-byte keyword tokens mixed in. The
classes below know ASCII alone, so every byte from `0x80` up is outside each of them; in
particular the end-of-text byte `0` is in none.
-/

namespace InlineA64

/-- One byte of assembler text or of assembled output. -/
abbrev Byte := UInt8

namespace Byte

/-! ## Keyword tokens -/

/-- The one-byte form of the keyword `AND`. -/
def andToken : Byte := 0x80

/-- The one-byte form of the keyword `OR`. -/
def orToken : Byte := 0x84

/-- The one-byte form of the keyword `REM`, which starts a comment. -/
def remToken : Byte := 0xf4

/-! ## Classes -/

/-- The decimal digits. -/
def isDigit (b : Byte) : Bool :=
  0x30 ≤ b && b ≤ 0x39

/-- The capital letters. -/
def isUpper (b : Byte) : Bool :=
  0x41 ≤ b && b ≤ 0x5a

/-- The small letters. -/
def isLower (b : Byte) : Bool :=
  0x61 ≤ b && b ≤ 0x7a

/-- The letters of either case. -/
def isLetter (b : Byte) : Bool :=
  b.isUpper || b.isLower

/-- Letters and digits. -/
def isAlphanumeric (b : Byte) : Bool :=
  b.isLetter || b.isDigit

/-- Space and tab, the bytes skipped between operands. -/
def isBlank (b : Byte) : Bool :=
  b == 0x20 || b == 0x09

/-- The white space a statement may consist of and still count as empty: space, tab, line feed,
form feed and carriage return. -/
def isWhite (b : Byte) : Bool :=
  b == 0x20 || b == 0x09 || b == 0x0a || b == 0x0c || b == 0x0d

/-- Carriage return and line feed. -/
def isBreak (b : Byte) : Bool :=
  b == 0x0d || b == 0x0a

/-- Letters, digits and the underscore: what continues a keyword. -/
def continuesWord (b : Byte) : Bool :=
  b.isAlphanumeric || b == 0x5f

/-- Letters, the underscore and the grave accent: what starts a variable name. -/
def startsName (b : Byte) : Bool :=
  b.isLetter || b == 0x5f || b == 0x60

/-- What continues a variable name. -/
def continuesName (b : Byte) : Bool :=
  b.startsName || b.isDigit

/-- The bytes at which the operands of a statement stop: a separator, a line or block end, the end
of the text, or the start of a comment. -/
def endsStatement (b : Byte) : Bool :=
  b == 0 || b.isBreak || b == ':'.toUInt8 || b == ']'.toUInt8 || b == ';'.toUInt8 ||
    b == remToken

/-! ## Case and digits -/

/-- The small letter of a capital letter; any other byte is left alone. -/
def lower (b : Byte) : Byte :=
  if b.isUpper then b + 0x20 else b

/-- The value of a digit in the given base, at most 16, or nothing. -/
def digit? (base : Nat) (b : Byte) : Option Nat :=
  let value? :=
    if b.isDigit then some (b.toNat - 0x30)
    else if b.isLetter then some (b.lower.toNat - 0x61 + 10)
    else none
  value?.filter (· < base)

end Byte

/-- The bytes of a word of the assembly language, in UTF-8. -/
def bytesOf (word : String) : List Byte :=
  word.toUTF8.data.toList

end InlineA64
