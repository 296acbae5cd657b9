import InlineA64.Proofs.Literal
import Mathlib.Data.Nat.Digits.Defs

/-!
# Formulas

An expression over integers as a formula, without regard to how it is written: what it is worth
(`Formula.value`), and which texts are spellings of it (`Formula.Prints`). Operators are ranked by
how loosely they bind, from `*` and `/` at 0 to `OR` and `EOR` at 3. A text is printed under a
limit: operators as loose as the limit or looser are put in parentheses there, the others are not.
Every formula has a text (`Formula.prints_text`).
-/

namespace InlineA64.Expression

/-! ## Literals and names -/

/-- How an integer literal is written. -/
inductive Radix where
  /-- Decimal digits. -/
  | decimal
  /-- An ampersand and hexadecimal digits. -/
  | hexadecimal
  /-- A percent sign and binary digits. -/
  | binary
deriving DecidableEq, Repr

namespace Radix

/-- The base of the digits. -/
def base : Radix → ℕ
  | decimal => 10
  | hexadecimal => 16
  | binary => 2

/-- What stands before the digits. -/
def announcement : Radix → List Byte
  | decimal => []
  | hexadecimal => bytesOf "&"
  | binary => bytesOf "%"

end Radix

/-- An integer literal, with a digit at least. Zeros may lead, and letters have either case. -/
structure Numeral where
  /-- How it is written. -/
  radix : Radix
  /-- The digits, from the most significant on. -/
  digits : List Byte
  digits_ne_nil : digits ≠ []
  valid : ∀ b ∈ digits, (b.digit? radix.base).isSome = true

namespace Numeral

/-- The spelling of a literal. -/
def text (n : Numeral) : List Byte :=
  n.radix.announcement ++ n.digits

/-- The number that a literal stands for. -/
def value (n : Numeral) : ℕ :=
  Nat.ofDigits n.radix.base (n.digits.reverse.map fun b => (b.digit? n.radix.base).getD 0)

/-- Behind a literal the byte would be part of it: a digit, or the point of a decimal fraction. -/
def continuedBy (n : Numeral) (b : Byte) : Bool :=
  (b.digit? n.radix.base).isSome || n.radix == .decimal && b == '.'.toUInt8

end Numeral

/-- The name of a variable: name bytes, the first of which is no digit, and perhaps the sign of a
type. -/
structure Identifier where
  /-- The name without the sign. -/
  stem : List Byte
  /-- The sign. -/
  sign : Option Byte
  starts : ∃ b ∈ stem.head?, b.startsName = true
  continues : ∀ b ∈ stem, b.continuesName = true
  sign_eq : ∀ b ∈ sign, b = '%'.toUInt8 ∨ b = '$'.toUInt8

namespace Identifier

/-- The name. -/
def name (x : Identifier) : Name :=
  x.stem ++ x.sign.toList

/-- Behind a name the byte would be part of it. -/
def continuedBy (x : Identifier) (b : Byte) : Bool :=
  x.sign.isNone && (b.continuesName || b == '%'.toUInt8 || b == '$'.toUInt8)

end Identifier

/-! ## Operators -/

namespace Operator

/-- How loosely an operator binds. -/
def looseness : Operator → ℕ
  | multiply | divide => 0
  | add | subtract => 1
  | and => 2
  | or | eor => 3

/-- The spellings of an operator, of which the first is a word or a mark and the other one a
token. -/
def spellings (op : Operator) : List (List Byte) :=
  op.spelling :: (op.token?.map ([·])).toList

/-- What an operation yields: the exact result, wrapped around to 64 bits. A quotient is truncated
towards zero; by zero there is none, which is error 18. -/
def result (op : Operator) (a b : Int64) : Except ℕ Int64 :=
  match op with
  | or => .ok (a ||| b)
  | eor => .ok (a ^^^ b)
  | and => .ok (a &&& b)
  | add => .ok (.ofInt (a.toInt + b.toInt))
  | subtract => .ok (.ofInt (a.toInt - b.toInt))
  | multiply => .ok (.ofInt (a.toInt * b.toInt))
  | divide => if b = 0 then .error 18 else .ok (.ofInt (a.toInt.tdiv b.toInt))

/-- The text starts with an operator. A word that goes on as a name is none. -/
def Opens (op : Operator) (rest : List Byte) : Prop :=
  ∃ word ∈ op.spellings, ∃ behind, rest = word ++ behind ∧
    (word = op.spelling → op.isWord = true → ∀ b ∈ behind.head?, b.continuesName = false)

end Operator

/-! ## Formulas -/

/-- An expression over integers. The addresses `P%` and `O%` are names like others. -/
inductive Formula where
  /-- A literal. -/
  | literal (n : Numeral)
  /-- A name. -/
  | name (x : Identifier)
  /-- An expression with a sign, which is `-` if `negative` and else `+`. -/
  | signed (negative : Bool) (t : Formula)
  /-- Two expressions joined by an operator. -/
  | binary (op : Operator) (left right : Formula)

namespace Formula

/-- The value of an expression, or the error number of the first mishap from left to right. A name
without a number is error 26 while range checks are on, and else it has the value of `P%`. -/
def value (context : Context) (number? : Name → Option Int64) : Formula → Except ℕ Int64
  | literal n => .ok (.ofNat n.value)
  | name x =>
    if x.name = bytesOf "P%" then .ok context.logical.toInt64
    else if x.name = bytesOf "O%" then .ok context.physical.toInt64
    else
      match number? x.name with
      | some v => .ok v
      | none =>
        if context.options.rangeCheck then .error 26 else .ok context.logical.toInt64
  | signed negative t => do
    let v ← t.value context number?
    return if negative then .ofInt (-v.toInt) else v
  | binary op left right => do
    let a ← left.value context number?
    let b ← right.value context number?
    op.result a b

/-- All names of an expression satisfy `p`. -/
def AllNames (p : Name → Prop) : Formula → Prop
  | literal _ => True
  | name x => p x.name
  | signed _ t => t.AllNames p
  | binary _ left right => left.AllNames p ∧ right.AllNames p

/-- The byte of a sign. -/
def signByte (negative : Bool) : Byte :=
  if negative then '-'.toUInt8 else '+'.toUInt8

/-! ## Texts of formulas -/

/-- A text of blanks alone. -/
def Blank (text : List Byte) : Prop :=
  ∀ b ∈ text, b.isBlank = true

/-- A text is a spelling of a formula: operators as loose as the limit or looser are in parentheses
and the others are not, with any blanks between the parts. A word has a blank on both sides. -/
inductive Prints : ℕ → Formula → List Byte → Prop
  | literal {limit : ℕ} {blanks : List Byte} (n : Numeral) : Blank blanks →
      Prints limit (literal n) (blanks ++ n.text)
  | name {limit : ℕ} {blanks : List Byte} (x : Identifier) : Blank blanks →
      Prints limit (name x) (blanks ++ x.name)
  | signed {limit : ℕ} {blanks text : List Byte} {t : Formula} (negative : Bool) : Blank blanks →
      Prints 0 t text → Prints limit (signed negative t) (blanks ++ signByte negative :: text)
  | binary {limit : ℕ} {op : Operator} {l r : Formula} {left gap word right : List Byte} :
      op.looseness < limit → Prints (op.looseness + 1) l left → Blank gap → word ∈ op.spellings →
      (word = op.spelling → op.isWord = true →
        gap ≠ [] ∧ ∃ b ∈ right.head?, b.isBlank = true) →
      Prints op.looseness r right →
      Prints limit (binary op l r) (left ++ (gap ++ (word ++ right)))
  | parenthesised {limit : ℕ} {op : Operator} {l r : Formula} {blanks inner gap : List Byte} :
      limit ≤ op.looseness → Blank blanks → Prints 4 (binary op l r) inner → Blank gap →
      Prints limit (binary op l r) (blanks ++ '('.toUInt8 :: (inner ++ (gap ++ [')'.toUInt8])))

/-- Behind a text of a formula the byte would be part of its last item. -/
def continuedBy : ℕ → Formula → Byte → Bool
  | _, literal n, b => n.continuedBy b
  | _, name x, b => x.continuedBy b
  | _, signed _ t, b => t.continuedBy 0 b
  | limit, binary op _ right, b => decide (op.looseness < limit) && right.continuedBy op.looseness b

/-- A formula ends before a text: that neither goes on with the last item nor has an operator
behind its blanks. -/
structure EndsBefore (t : Formula) (behind : List Byte) : Prop where
  continuedBy_eq : ∀ b ∈ behind.head?, t.continuedBy 4 b = false
  not_opens : ∀ op : Operator, ¬op.Opens (behind.dropWhile Byte.isBlank)

/-- A text of a formula under a limit. -/
def text : ℕ → Formula → List Byte
  | _, literal n => n.text
  | _, name x => x.name
  | _, signed negative t => signByte negative :: t.text 0
  | limit, binary op left right =>
    let inner := left.text (op.looseness + 1) ++
      (bytesOf " " ++ (op.spelling ++ (bytesOf " " ++ right.text op.looseness)))
    if op.looseness < limit then inner else '('.toUInt8 :: (inner ++ [')'.toUInt8])

variable {limit : ℕ} {t : Formula}

theorem blank_nil : Blank [] := List.forall_mem_nil _

theorem blank_space : Blank (bytesOf " ") := by
  rw [Blank]
  decide

theorem Blank.append {gap gap' : List Byte} (h : Blank gap) (h' : Blank gap') :
    Blank (gap ++ gap') := by
  intro b hb
  rcases List.mem_append.mp hb with hb | hb
  · exact h b hb
  · exact h' b hb

/-- Blanks before a text make no difference. -/
theorem Prints.blanks {gap text : List Byte} (hgap : Blank gap) (h : Prints limit t text) :
    Prints limit t (gap ++ text) := by
  -- blanks before a text are blanks before its first token
  induction h with
  | literal n hblanks =>
    rw [← List.append_assoc]
    exact .literal n (hgap.append hblanks)
  | name x hblanks =>
    rw [← List.append_assoc]
    exact .name x (hgap.append hblanks)
  | signed negative hblanks htext =>
    rw [← List.append_assoc]
    exact .signed negative (hgap.append hblanks) htext
  | binary hlimit _ hgap' hword hapart hright hleft =>
    rw [← List.append_assoc]
    exact .binary hlimit hleft hgap' hword hapart hright
  | parenthesised hlimit hblanks hinner hgap' =>
    rw [← List.append_assoc]
    exact .parenthesised hlimit (hgap.append hblanks) hinner hgap'

/-- Every formula has a text. -/
theorem prints_text (t : Formula) (limit : ℕ) : Prints limit t (t.text limit) := by
  induction t generalizing limit with
  | literal n => exact .literal n blank_nil
  | name x => exact .name x blank_nil
  | signed negative t ih => exact .signed negative blank_nil (ih 0)
  | binary op left right ihl ihr =>
    -- without parentheses, at any limit that allows the operator
    have hinner {limit : ℕ} (hlimit : op.looseness < limit) :
        Prints limit (.binary op left right) (left.text (op.looseness + 1) ++
          (bytesOf " " ++ (op.spelling ++ (bytesOf " " ++ right.text op.looseness)))) := by
      refine .binary hlimit (ihl _) blank_space List.mem_cons_self (fun _ _ => ⟨by decide, ?_⟩)
        ((ihr _).blanks blank_space)
      exact ⟨' '.toUInt8, rfl, by decide⟩
    rw [text]
    split
    · next hlimit => exact hinner hlimit
    · next hlimit =>
      have hloosest : op.looseness < 4 := by cases op <;> decide
      exact .parenthesised (Nat.le_of_not_lt hlimit) blank_nil (hinner hloosest) blank_nil

end Formula

end InlineA64.Expression
