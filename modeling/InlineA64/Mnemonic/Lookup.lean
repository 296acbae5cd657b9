import InlineA64.Mnemonic.Table

/-!
# Finding the mnemonic of a statement

Statements are not cut into words first. `Mnemonic.lookup` halves the table again and again,
comparing the entry in the middle with the text at the cursor, and keeps the last entry probed that
starts the text. The one-byte tokens of `AND` and `OR` are seen to before that.

`Mnemonic.ofName?` finds an entry by its whole name, halving the table as well.
-/

namespace InlineA64.Mnemonic

/-- Compare a name with the text from an offset on, ignoring case. A text that ends early counts as
smaller, one that goes on as equal. -/
def compareAt (s : Cursor) : List Byte → Nat → Ordering
  | [], _ => .eq
  | b :: name, offset =>
    (compare b.lower (s.byteAt offset).lower).then (compareAt s name (offset + 1))

/-- Compare the name of a mnemonic with the text at the cursor. -/
def compareName (m : Mnemonic) (s : Cursor) : Ordering :=
  compareAt s (bytesOf m.name) s.pos

/-- Compare the whole name of a mnemonic with a name, ignoring case. -/
def compareWhole (m : Mnemonic) (name : String) : Ordering :=
  compare ((bytesOf m.name).map Byte.lower) ((bytesOf name).map Byte.lower)

/-- Halve the range from `bottom` up to `top` of the table until it is empty, where `order` compares
an entry with what is looked for. An entry that is equal to that replaces the best one so far, and
the search goes on to the right of it. -/
def chop (order : Mnemonic → Ordering) : (fuel : Nat) → (bottom top : Nat) →
    (best : Option Mnemonic) → Option Mnemonic
  | 0, _, _, best => best
  | fuel + 1, bottom, top, best =>
    if bottom < top then
      let middle := (bottom + top) / 2
      match table[middle]? with
      | none => best
      | some m =>
        match order m with
        | .gt => chop order fuel bottom middle best
        | .eq => chop order fuel (middle + 1) top (some m)
        | .lt => chop order fuel (middle + 1) top best
    else best

/-- The mnemonic that starts the text at the cursor, by halving the whole table. -/
def search (s : Cursor) : Option Mnemonic :=
  chop (·.compareName s) table.size 0 table.size none

/-- The mnemonic of a name, ignoring case, by halving the whole table. -/
def ofName? (name : String) : Option Mnemonic :=
  chop (·.compareWhole name) table.size 0 table.size none

/-- The mnemonic that a keyword token starts, with the number of bytes it takes. -/
def tokenised? (s : Cursor) : Option (Option Mnemonic × Nat) :=
  let next := (s.ahead 1).lower
  if s.peek == Byte.orToken && next == 'r'.toUInt8 then some (ofName? "ORR", 2)
  else if s.peek == Byte.andToken && next == 's'.toUInt8 then some (ofName? "ANDS", 2)
  else if s.peek == Byte.andToken then some (ofName? "AND", 1)
  else none

/-- Skip blanks, then take a mnemonic. If there is none the cursor stays at the first byte that is
no blank. -/
def lookup (s : Cursor) : Option Mnemonic × Cursor :=
  let s := s.skipBlanks
  match tokenised? s with
  | some (found, length) => (found, s.advance length)
  | none =>
    match search s with
    | some m => (some m, s.advance m.name.utf8ByteSize)
    | none => (none, s)

end InlineA64.Mnemonic
