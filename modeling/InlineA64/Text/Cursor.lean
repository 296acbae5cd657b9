import InlineA64.Fault

/-!
# A cursor over assembler text

There is no token stream: whoever reads an operand moves a `Cursor` past what it took, so that
after a statement the cursor stands at the next separator. Reading past the end yields the byte
`0`, which ends a program like the end of the text does.

* `Cursor.skipBlanks`, `Cursor.accept`: blanks and single marks;
* `Cursor.keyword?`, `Cursor.wholeWord?`: tables of keywords, where the last entry of the table
  that starts the text wins;
* `Cursor.Scan`: readers that can fail and leave the cursor where they failed.
-/

namespace InlineA64

/-- A text and a position in it. -/
structure Cursor where
  /-- The text. -/
  text : Array Byte
  /-- The offset of the next byte. -/
  pos : Nat
deriving DecidableEq, Repr

namespace Cursor

/-- The start of a text. -/
def ofBytes (text : Array Byte) : Cursor :=
  ⟨text, 0⟩

/-- The start of a text given as a string, read as UTF-8. -/
def ofString (text : String) : Cursor :=
  ofBytes text.toUTF8.data

/-! ## Looking -/

/-- The byte at an absolute offset, or `0` past the end. -/
def byteAt (s : Cursor) (offset : Nat) : Byte :=
  s.text.getD offset 0

/-- The byte `n` places ahead of the cursor, or `0` past the end. -/
def ahead (s : Cursor) (n : Nat) : Byte :=
  s.byteAt (s.pos + n)

/-- The byte under the cursor, or `0` at the end. -/
def peek (s : Cursor) : Byte :=
  s.ahead 0

/-- The number of bytes from the cursor to the end. -/
def remaining (s : Cursor) : Nat :=
  s.text.size - s.pos

/-- The bytes from the cursor to the end. -/
def rest (s : Cursor) : Array Byte :=
  s.text.extract s.pos s.text.size

/-- The bytes from one offset up to another. -/
def slice (s : Cursor) (start stop : Nat) : List Byte :=
  (s.text.extract start stop).toList

/-- The span of the byte at an offset. -/
def spanOf (s : Cursor) (offset : Nat) : Span :=
  Span.ofOffset s.text offset

/-- The span of the byte under the cursor. -/
def span (s : Cursor) : Span :=
  s.spanOf s.pos

/-- The operands of a statement stop at the cursor. -/
def atEnd (s : Cursor) : Bool :=
  s.peek.endsStatement

/-! ## Moving -/

/-- Move the cursor on by `n` bytes, at most to the end. -/
def advance (s : Cursor) (n : Nat) : Cursor :=
  { s with pos := min (s.pos + n) s.text.size }

/-- Move the cursor to an offset, at most to the end. -/
def seek (s : Cursor) (offset : Nat) : Cursor :=
  { s with pos := min offset s.text.size }

/-- Move the cursor on to an offset; an offset behind the cursor leaves it where it is. -/
def advanceTo (s : Cursor) (offset : Nat) : Cursor :=
  s.seek (max s.pos offset)

/-- The first offset from `i` on, `fuel` bytes at most, whose byte fails `p`. -/
def endOfRun (s : Cursor) (p : Byte → Bool) : Nat → Nat → Nat
  | 0, i => i
  | fuel + 1, i => if p (s.byteAt i) then s.endOfRun p fuel (i + 1) else i

/-- Move the cursor past the bytes that satisfy `p`, at most to the end. -/
def skipWhile (s : Cursor) (p : Byte → Bool) : Cursor :=
  { s with pos := s.endOfRun p s.remaining s.pos }

/-- Move the cursor past spaces and tabs. -/
def skipBlanks (s : Cursor) : Cursor :=
  s.skipWhile Byte.isBlank

/-- Skip blanks, then take the byte `b` if it is next. -/
def accept (s : Cursor) (b : Byte) : Bool × Cursor :=
  let s := s.skipBlanks
  if s.peek == b then (true, { s with pos := s.pos + 1 }) else (false, s)

/-! ## Keywords -/

/-- The bytes from `offset` on are those of `word`, either case of a letter counting as the
other. -/
def agreesAt (s : Cursor) : List Byte → Nat → Bool
  | [], _ => true
  | b :: word, offset =>
    s.text[offset]?.any (·.lower == b.lower) && s.agreesAt word (offset + 1)

/-- The text at the cursor starts with `word`, ignoring case. -/
def startsWith (s : Cursor) (word : String) : Bool :=
  s.agreesAt (bytesOf word) s.pos

variable {β : Type}

/-- The last entry of a table whose keyword starts the text at the cursor. A keyword must
therefore stand after every keyword that it extends. -/
def lastMatch? (s : Cursor) (table : List (String × β)) : Option (String × β) :=
  table.reverse.find? fun entry => s.startsWith entry.1

/-- Skip blanks, then take a keyword of the table and give its meaning. -/
def keyword? (s : Cursor) (table : List (String × β)) : Option β × Cursor :=
  let s := s.skipBlanks
  match s.lastMatch? table with
  | some (word, meaning) => (some meaning, s.advance word.utf8ByteSize)
  | none => (none, s)

/-- Skip blanks, then take a keyword of the table that is the whole word at the cursor. A keyword
that goes on with a letter, a digit or an underscore is no match and takes nothing. -/
def wholeWord? (s : Cursor) (table : List (String × β)) : Option β × Cursor :=
  let s := s.skipBlanks
  match s.keyword? table with
  | (some meaning, s') => if s'.peek.continuesWord then (none, s) else (some meaning, s')
  | (none, _) => (none, s)

/-! ## Readers that can fail -/

/-- A reader of text: it moves the cursor and yields a value or a failure. -/
abbrev Scan := EStateM Failure Cursor

/-- Fail at an offset. -/
def failAt {α : Type} (offset : Nat) (fault : Fault) : Scan α := fun s =>
  .error ⟨fault, s.spanOf offset⟩ s

/-- Fail at the cursor. -/
def fail {α : Type} (fault : Fault) : Scan α := fun s =>
  Cursor.failAt s.pos fault s

/-- Take the mark `mark`, or fail with `fault`. -/
def expect (mark : Char) (fault : Fault) : Scan Unit := do
  if (← modifyGet (·.accept mark.toUInt8)) then pure () else fail fault

/-- Take a comma. -/
def comma : Scan Unit :=
  expect ',' .missingComma

/-- Take the mark of an immediate. -/
def hash : Scan Unit :=
  expect '#' (.malformed (.missing '#'))

/-- Take an opening bracket. -/
def openBracket : Scan Unit :=
  expect '[' (.malformed (.missing '['))

/-- Take a closing bracket. -/
def closeBracket : Scan Unit :=
  expect ']' (.malformed (.missing ']'))

end Cursor

end InlineA64
