import InlineA64.Text.Byte

/-!
# Showing bytes as text

Names and mnemonics are bytes; error reports show them as text. `Utf8.decode` reads bytes as UTF-8
and puts the replacement character in place of each longest run that starts a character but does
not complete it, and of each byte that can start none.
-/

namespace InlineA64.Utf8

/-- A character whose first bytes have been read. -/
structure Pending where
  /-- The number of bytes still to come, at least 1. -/
  needed : Nat
  /-- The least byte that may come next. -/
  low : Byte
  /-- The greatest byte that may come next. -/
  high : Byte
  /-- The bits collected so far. -/
  bits : Nat

/-- The character shown for bytes that encode none. -/
def replacement : Char := '\ufffd'

/-- What a byte that starts a character leaves pending, or nothing if it can start none. The
bounds on the second byte keep out overlong forms, surrogates and code points past the last. -/
def Pending.ofLead? (b : Byte) : Option Pending :=
  if 0xc2 ≤ b && b ≤ 0xdf then some ⟨1, 0x80, 0xbf, b.toNat % 0x20⟩
  else if b == 0xe0 then some ⟨2, 0xa0, 0xbf, 0⟩
  else if b == 0xed then some ⟨2, 0x80, 0x9f, b.toNat % 0x10⟩
  else if 0xe1 ≤ b && b ≤ 0xef then some ⟨2, 0x80, 0xbf, b.toNat % 0x10⟩
  else if b == 0xf0 then some ⟨3, 0x90, 0xbf, 0⟩
  else if 0xf1 ≤ b && b ≤ 0xf3 then some ⟨3, 0x80, 0xbf, b.toNat % 0x08⟩
  else if b == 0xf4 then some ⟨3, 0x80, 0x8f, b.toNat % 0x08⟩
  else none

/-- What the first byte of a character shows at once, and what it leaves pending. -/
def start (b : Byte) : List Char × Option Pending :=
  if b < 0x80 then ([Char.ofNat b.toNat], none)
  else match Pending.ofLead? b with
    | some pending => ([], some pending)
    | none => ([replacement], none)

/-- The characters shown for `bytes` behind a pending character, if there is one. -/
def decodeFrom : Option Pending → List Byte → List Char
  | none, [] => []
  | some _, [] => [replacement]
  | none, b :: rest =>
    let (shown, pending) := start b
    shown ++ decodeFrom pending rest
  | some p, b :: rest =>
    if p.low ≤ b && b ≤ p.high then
      let bits := p.bits * 0x40 + b.toNat % 0x40
      if p.needed ≤ 1 then Char.ofNat bits :: decodeFrom none rest
      else decodeFrom (some ⟨p.needed - 1, 0x80, 0xbf, bits⟩) rest
    else
      let (shown, pending) := start b
      replacement :: (shown ++ decodeFrom pending rest)

/-- The text shown for bytes that are meant as UTF-8. -/
def decode (bytes : List Byte) : String :=
  String.ofList (decodeFrom none bytes)

end InlineA64.Utf8
