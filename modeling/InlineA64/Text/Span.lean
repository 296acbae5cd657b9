import InlineA64.Text.Byte

/-!
# Places in a text

A `Span` names one byte of a text by line and column as well as by offset.

Main definitions:

* `LineColumn.after`: the line and column reached after a run of bytes, where a carriage return, a
  line feed, or the two together end a line;
* `Span.ofOffset`: the span of the byte at an offset.
-/

namespace InlineA64

/-- A place in a text, as shown to the user. -/
structure Span where
  /-- The line, counted from 1. -/
  line : Nat
  /-- The column in bytes, counted from 1. -/
  column : Nat
  /-- The byte offset, counted from 0. -/
  offset : Nat
  /-- The number of bytes covered: 1, or 0 at the end of the text. -/
  length : Nat
deriving DecidableEq, Repr, Inhabited

/-- A line and a column. -/
structure LineColumn where
  /-- The line, counted from 1. -/
  line : Nat
  /-- The column in bytes, counted from 1. -/
  column : Nat
deriving DecidableEq, Repr

namespace LineColumn

/-- The line and column reached by reading `bytes` from a given place. -/
def after : LineColumn → List Byte → LineColumn
  | p, [] => p
  | p, 0x0d :: 0x0a :: rest => after ⟨p.line + 1, 1⟩ rest
  | p, b :: rest =>
    if b.isBreak then after ⟨p.line + 1, 1⟩ rest else after ⟨p.line, p.column + 1⟩ rest

end LineColumn

namespace Span

/-- The span of a failure that no text accounts for. -/
def nowhere : Span := ⟨0, 0, 0, 0⟩

/-- The span of the byte at `offset`; an offset past the end stands for the end of the text. -/
def ofOffset (text : Array Byte) (offset : Nat) : Span :=
  let offset := min offset text.size
  let place := LineColumn.after ⟨1, 1⟩ (text.extract 0 offset).toList
  ⟨place.line, place.column, offset, if offset < text.size then 1 else 0⟩

/-- Line and column as they stand before an error message. -/
def render (span : Span) : String :=
  toString span.line ++ ":" ++ toString span.column

end Span

end InlineA64
