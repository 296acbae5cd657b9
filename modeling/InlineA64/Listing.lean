import InlineA64.Text.Byte

/-!
# Listings

A statement is listed in rows. Each row starts with an address of 16 hexadecimal digits and shows up
to four bytes there as one number, the first byte being the lowest. The first row goes on with the
label of the statement at column 26 and the rest of it at column 38; a label that runs past the
second column sends the rest to a row of its own. Further rows carry on with address and bytes.

Columns count bytes of UTF-8: a source byte `b` is shown as the character with number `b`, which
takes two bytes from `0x80` up.
-/

namespace InlineA64.Listing

/-- The column of a label. -/
def labelColumn : Nat := 26

/-- The column of the rest of a statement. -/
def textColumn : Nat := 38

/-! ## Numbers -/

/-- A hexadecimal digit, in capitals. -/
def hexDigit (n : Nat) : Char :=
  if n < 10 then Char.ofNat (0x30 + n) else Char.ofNat (0x41 + n - 10)

/-- The low `digits` hexadecimal digits of a number. -/
def hex : (digits : Nat) → Nat → List Char
  | 0, _ => []
  | digits + 1, n => hex digits (n / 16) ++ [hexDigit (n % 16)]

/-- The number that bytes stand for, the first being the lowest. -/
def littleEndian : List Byte → Nat
  | [] => 0
  | b :: rest => b.toNat + 256 * littleEndian rest

/-- The start of a row: an address and the bytes there. -/
def addressColumns (address : UInt64) (bytes : List Byte) : List Char :=
  hex 16 address.toNat ++ ' ' ::
    (if bytes.isEmpty then [] else hex (2 * bytes.length) (littleEndian bytes) ++ [' '])

/-! ## Text -/

/-- What is shown for a source byte: its character, or the spelling of a keyword token. -/
def shown (b : Byte) : List Char :=
  if b == Byte.andToken then ['A', 'N', 'D']
  else if b == Byte.orToken then ['O', 'R']
  else if b == Byte.remToken then ['R', 'E', 'M']
  else [Char.ofNat b.toNat]

/-- What is shown for source text. -/
def spelled (text : List Byte) : List Char :=
  text.flatMap shown

/-- What continues a label: a name byte or the sign of its type. -/
def isLabelByte (b : Byte) : Bool :=
  b.continuesName || b == '%'.toUInt8 || b == '$'.toUInt8

/-- A leading label with its dot, and the rest of a statement without the spaces between. -/
def leadingLabel : List Byte → List Byte × List Byte
  | [] => ([], [])
  | b :: rest =>
    if b == '.'.toUInt8 then
      (b :: rest.takeWhile isLabelByte, (rest.dropWhile isLabelByte).dropWhile (· == 0x20))
    else ([], b :: rest)

/-! ## Rows -/

/-- The blanks that a row does not end in: the white space among the first 256 characters. -/
def isTrailing (c : Char) : Bool :=
  (9 ≤ c.toNat && c.toNat ≤ 13) || c.toNat == 0x20 || c.toNat == 0x85 || c.toNat == 0xa0

/-- A row without the blanks at its end. -/
def trim (row : List Char) : String :=
  String.ofList (row.reverse.dropWhile isTrailing).reverse

/-- The number of columns that characters take. -/
def width (row : List Char) : Nat :=
  row.foldl (fun columns c => columns + c.utf8Size) 0

/-- The rows finished so far, and the row being written. -/
structure Page where
  /-- The rows finished so far. -/
  rows : List String
  /-- The row being written. -/
  row : List Char

namespace Page

/-- Move to a column, on a row of its own if the row has run past it. -/
def moveTo (page : Page) (column : Nat) : Page :=
  let page := if column < width page.row then ⟨page.rows ++ [trim page.row], []⟩ else page
  { page with row := page.row ++ List.replicate (column - width page.row) ' ' }

/-- Write text at a column. -/
def write (page : Page) (column : Nat) (text : List Char) : Page :=
  let page := page.moveTo column
  { page with row := page.row ++ text }

/-- All rows. -/
def finish (page : Page) : List String :=
  page.rows ++ [trim page.row]

end Page

/-- Bytes in groups of four, the last being what is left. -/
def groups : List Byte → List (List Byte)
  | a :: b :: c :: d :: rest => [a, b, c, d] :: groups rest
  | [] => []
  | rest => [rest]

/-- The rows behind the first: address and bytes of each further group. -/
def furtherRows : UInt64 → List (List Byte) → List String
  | _, [] => []
  | address, group :: rest =>
    trim (addressColumns address group) :: furtherRows (address + 4) rest

/-- The rows for a statement that put `bytes` at `address`. -/
def rows (address : UInt64) (bytes text : List Byte) : List String :=
  let (label, rest) := leadingLabel text
  let page : Page := ⟨[], addressColumns address (bytes.take 4)⟩
  let page := if label.isEmpty then page else page.write labelColumn (spelled label)
  (page.write textColumn (spelled rest)).finish ++
    furtherRows (address + 4) (groups (bytes.drop 4))

end InlineA64.Listing
