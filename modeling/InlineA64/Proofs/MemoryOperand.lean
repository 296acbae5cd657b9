import InlineA64.Proofs.Expression.Grammar
import InlineA64.Proofs.Reader.Leaves

/-!
# Memory operands as printed

A memory operand is printed as words with any blanks between them. What stands behind a bracket
decides between the forms, so the same start of a text comes to any of four: a comma can go on with
the operand or start the next one.

* `Surroundings.ReadsIntegers`: what is asked of an environment, which is to read the integers;
* `Reader.address_printed`: an operand is read back from how it is printed, and the cursor is left
  at its end.
-/

namespace InlineA64

open Cursor (between)
open Expression.Formula (Blank blank_nil)
open Literal (integer natural)

/-! ## Spellings -/

/-- The spelling of a modifier in capitals. -/
def IndexModifier.name : IndexModifier → String
  | uxtw => "UXTW"
  | sxtw => "SXTW"
  | sxtx => "SXTX"
  | lsl => "LSL"

namespace MemoryOperand

/-- The words that an operand is printed as. An offset of 0 can be left out, and so can the modifier
of an index and the amount of a modifier. -/
inductive Prints : MemoryOperand → List (List Byte) → Prop
  | bare (base : Register) : Prints (.offset base 0) [bytesOf "[", bytesOf base.name, bytesOf "]"]
  | offset (base : Register) (v : Int64) : Prints (.offset base v.toInt)
      [bytesOf "[", bytesOf base.name, bytesOf ",", bytesOf "#", integer v, bytesOf "]"]
  | preIndexed (base : Register) (v : Int64) : Prints (.preIndexed base v.toInt)
      [bytesOf "[", bytesOf base.name, bytesOf ",", bytesOf "#", integer v, bytesOf "]",
        bytesOf "!"]
  | postIndexed (base : Register) (v : Int64) : Prints (.postIndexed base v.toInt)
      [bytesOf "[", bytesOf base.name, bytesOf "]", bytesOf ",", bytesOf "#", integer v]
  | indexed (base index : Register) : Prints (.indexed base index none 0 false)
      [bytesOf "[", bytesOf base.name, bytesOf ",", bytesOf index.name, bytesOf "]"]
  | extended (base index : Register) (modifier : IndexModifier) :
      Prints (.indexed base index (some modifier) 0 false)
        [bytesOf "[", bytesOf base.name, bytesOf ",", bytesOf index.name, bytesOf ",",
          bytesOf modifier.name, bytesOf "]"]
  | shifted (base index : Register) (modifier : IndexModifier) (v : Int64) :
      Prints (.indexed base index (some modifier) v.toInt true)
        [bytesOf "[", bytesOf base.name, bytesOf ",", bytesOf index.name, bytesOf ",",
          bytesOf modifier.name, bytesOf "#", integer v, bytesOf "]"]

/-- The words one after the other, with any blanks before each. -/
def Spaced : List (List Byte) → List Byte → Prop
  | [], text => text = []
  | word :: words, text => ∃ gap tail, Blank gap ∧ text = gap ++ (word ++ tail) ∧ Spaced words tail

/-- The text does not go on with a memory operand: it starts, behind blanks, neither with a bang nor
with a comma and an immediate. -/
structure EndsBefore (rest : List Byte) : Prop where
  not_bang : ∀ tail, rest.dropWhile Byte.isBlank ≠ '!'.toUInt8 :: tail
  not_postIndex : ∀ gap tail, Blank gap →
    rest.dropWhile Byte.isBlank ≠ ','.toUInt8 :: (gap ++ '#'.toUInt8 :: tail)

end MemoryOperand

/-! ## Integers -/

section Integers

variable {σ Slot : Type}

/-- What is left of a text, up to blanks. -/
def Reader.LeavesBlanks {α : Type} (x : Reader α) (around : Surroundings σ Slot) (text : List Byte)
    (a : α) (behind : List Byte) : Prop :=
  ∃ gap rest, Blank gap ∧ behind = gap ++ rest ∧ x.Leaves around text a rest

/-- The environment reads an integer in decimal if what stands behind it `ends` an expression, as a
closing bracket does. -/
structure Surroundings.ReadsIntegers (around : Surroundings σ Slot) (ends : List Byte → Prop) :
    Prop where
  bracket : ∀ {gap : List Byte} (tail : List Byte), Blank gap → ends (gap ++ ']'.toUInt8 :: tail)
  value : ∀ (v : Int64) {gap behind : List Byte}, Blank gap → ends behind →
    (Reader.request .value).LeavesBlanks around (gap ++ (Literal.integer v ++ behind)) v
      behind

end Integers

namespace Expression

/-- Behind an integer in decimal the text does not go on with the expression: not with a digit or a
point, and behind blanks not with an operator. -/
structure EndsInteger (behind : List Byte) : Prop where
  not_digit : ∀ b ∈ behind.head?, b.isDigit = false
  not_point : ∀ b ∈ behind.head?, (b == '.'.toUInt8) = false
  not_opens : ∀ op : Operator, ¬op.Opens (behind.dropWhile Byte.isBlank)

/-- A natural number in decimal, as a literal. -/
def Numeral.ofNatural (n : ℕ) : Numeral where
  radix := .decimal
  digits := natural n
  digits_ne_nil := by
    obtain ⟨b, digits, hdigits, -⟩ := Literal.exists_natural_eq_cons n
    rw [hdigits]
    exact List.cons_ne_nil b digits
  valid b hb := (isSome_digit?_ten b).trans (Literal.isDigit_of_mem_natural hb)

theorem Numeral.value_ofNatural (n : ℕ) : (ofNatural n).value = n :=
  (numeral_eq_ofDigits 10 (natural n)).symm.trans (numeral_natural n)

namespace Formula

/-- An integer as a formula. -/
def ofInteger (v : Int64) : Formula :=
  if v.toInt < 0 then .signed true (.literal (.ofNatural v.toInt.natAbs))
  else .literal (.ofNatural v.toInt.natAbs)

theorem prints_ofInteger (v : Int64) : Prints 4 (ofInteger v) (integer v) := by
  rw [ofInteger, integer]
  split
  · exact .signed true blank_nil (.literal _ blank_nil)
  · exact .literal _ blank_nil

theorem value_ofInteger (v : Int64) (context : Context) (number? : Name → Option Int64) :
    (ofInteger v).value context number? = .ok v := by
  rw [ofInteger]
  split
  · next hneg =>
    -- the digits of the least integer wrap around to it, and it is its own negative
    have hvalue : Int64.ofInt (-(Int64.ofNat v.toInt.natAbs).toInt) = v := by
      rw [Int64.ofInt_neg, Int64.ofInt_toInt, ← Int64.ofInt_eq_ofNat, ← Int64.ofInt_neg,
        Int.ofNat_natAbs_of_nonpos (Int.le_of_lt hneg), Int.neg_neg, Int64.ofInt_toInt]
    simp only [value, Numeral.value_ofNatural]
    exact congrArg Except.ok hvalue
  · next hnonneg =>
    rw [value, Numeral.value_ofNatural, ← Int64.ofInt_eq_ofNat,
      Int.natAbs_of_nonneg (Int.not_lt.mp hnonneg), Int64.ofInt_toInt]

theorem endsBefore_ofInteger (v : Int64) {behind : List Byte} (h : EndsInteger behind) :
    (ofInteger v).EndsBefore behind where
  continuedBy_eq b hb := by
    have hnumeral (n : ℕ) : (Numeral.ofNatural n).continuedBy b = false := by
      rw [Numeral.continuedBy, Bool.or_eq_false_iff]
      exact ⟨(isSome_digit?_ten b).trans (h.not_digit b hb), h.not_point b hb⟩
    rw [ofInteger]
    split <;> exact hnumeral _
  not_opens := h.not_opens

theorem allNames_ofInteger (v : Int64) (p : Name → Prop) : (ofInteger v).AllNames p := by
  rw [ofInteger]
  split <;> trivial

end Formula

end Expression

/-- An integer starts with a digit or with its sign, and so not with a blank. -/
theorem isBlank_head?_integer (v : Int64) (text : List Byte) :
    ∀ b ∈ (integer v ++ text).head?, b.isBlank = false := by
  obtain ⟨d, digits, hdigits, hd⟩ := Literal.exists_natural_eq_cons v.toInt.natAbs
  rw [integer, hdigits]
  split
  · rintro b ⟨⟩
    rfl
  · rintro b ⟨⟩
    rw [Byte.isBlank, Expression.beq_of_class hd rfl, Expression.beq_of_class hd rfl, Bool.or_self]

namespace Machine

theorem evaluateInt_integer (context : Context) (w : Machine) (v : Int64) {behind : List Byte}
    (before : List Byte) (hends : Expression.EndsInteger behind) :
    environment.evaluateInt context (between before (integer v ++ behind), w) =
      .ok v (between (before ++ integer v ++ behind.takeWhile Byte.isBlank)
        (behind.dropWhile Byte.isBlank), w) := by
  have hevaluate := (evaluate_prints before (Expression.Formula.prints_ofInteger v)
    (Expression.Formula.endsBefore_ofInteger v hends)
    (Expression.Formula.allNames_ofInteger v (Expression.Formula.NamesNumber w))).1 v
    (Expression.Formula.value_ofInteger v context w.number?)
  rw [Environment.evaluateInt, Environment.evaluateAs, get_bind, bind_of_ok hevaluate]
  rfl

/-- A machine reads integers, and takes the blanks behind them. -/
theorem readsIntegers (context : Context) (mnemonic : String) :
    Surroundings.ReadsIntegers ⟨environment, context, mnemonic⟩ Expression.EndsInteger where
  bracket := by
    intro gap tail hgap
    refine ⟨forall_head?_gap (by decide) hgap rfl tail, forall_head?_gap (by decide) hgap rfl tail,
      fun op => ?_⟩
    rw [Expression.Formula.dropWhile_gap hgap rfl]
    exact Expression.Formula.not_opens_cons (by cases op <;> decide) tail
  value := by
    intro v gap behind hgap hends
    refine ⟨behind.takeWhile Byte.isBlank, behind.dropWhile Byte.isBlank,
      fun _ => List.mem_takeWhile_imp, List.takeWhile_append_dropWhile.symm, ?_⟩
    have hsplit : integer v ++ behind =
        (integer v ++ behind.takeWhile Byte.isBlank) ++ behind.dropWhile Byte.isBlank := by
      rw [List.append_assoc, List.takeWhile_append_dropWhile]
    -- the blanks behind the digits are read with the expression, and are what is left over
    have hblank := isBlank_head?_integer v behind
    rw [hsplit] at hblank ⊢
    refine Reader.leaves_value hgap hblank fun before w => ⟨w, ?_⟩
    rw [← hsplit, ← List.append_assoc]
    exact evaluateInt_integer context w v before hends

end Machine

/-! ## The reader -/

namespace Reader

variable {σ Slot : Type} {around : Surroundings σ Slot} {ends : List Byte → Prop}
  {base index : Register} {gap gap₁ gap₂ gap₃ gap₄ gap₅ gap₆ text behind : List Byte}

/-- What is made of a base register and of what stands behind it, once the bracket is closed. -/
def completed (base : Register) : Inside → Reader MemoryOperand
  | .index index modifier amount written => return .indexed base index modifier amount written
  | .offset offset => do
    if ← sees .bang then preIndexed base (some offset) else return .offset base offset
  | .nothing => do
    if ← sees .bang then preIndexed base none
    else if ← request .seesPostIndex then postIndexed base
    else return .offset base 0

theorem address_eq : address = do
    if ← sees .openBracket then
      openBracket
      let base ← addressRegister
      let inside ← inside
      closeBracket
      completed base inside
    else return .literal (← distance) := rfl

/-! ### Immediates -/

/-- Blanks before a byte that is none can be cut anywhere. -/
theorem blank_of_append_eq {rest : List Byte} {b : Byte} (hgap : Blank gap) (hgap₁ : Blank gap₁)
    (hb : b.isBlank = false) (h : gap ++ b :: text = gap₁ ++ rest) :
    ∃ gap₂, Blank gap₂ ∧ rest = gap₂ ++ b :: text := by
  rcases List.append_eq_append_iff.mp h with ⟨cut, rfl, htail⟩ | ⟨cut, rfl, htail⟩
  · -- the second gap ends no later than the first, or the byte would be a blank in it
    cases cut with
    | nil => exact ⟨[], blank_nil, htail.symm⟩
    | cons c cut =>
      obtain rfl : b = c := (List.cons.inj htail).1
      rw [hgap₁ b (by simp)] at hb
      cases hb
  · exact ⟨cut, fun c hc => hgap c (List.mem_append_right _ hc), htail⟩

theorem leaves_immediate (h : around.ReadsIntegers ends) (v : Int64) (hgap : Blank gap)
    (hgap₁ : Blank gap₁) (hends : ends behind) :
    immediate.LeavesBlanks around (gap ++ '#'.toUInt8 :: (gap₁ ++ (integer v ++ behind))) v.toInt
      behind := by
  obtain ⟨gap₂, rest, hgap₂, hrest, hvalue⟩ := h.value v hgap₁ hends
  exact ⟨gap₂, rest, hgap₂, hrest, (leaves_expect _ hgap).bind (hvalue.bind (leaves_pure _))⟩

theorem leaves_immediate_bracket (h : around.ReadsIntegers ends) (v : Int64) (text : List Byte)
    (hgap : Blank gap) (hgap₁ : Blank gap₁) (hgap₂ : Blank gap₂) :
    ∃ gap₃, Blank gap₃ ∧ immediate.Leaves around
      (gap ++ '#'.toUInt8 :: (gap₁ ++ (integer v ++ (gap₂ ++ ']'.toUInt8 :: text)))) v.toInt
      (gap₃ ++ ']'.toUInt8 :: text) := by
  obtain ⟨gap₃, rest, hgap₃, hrest, hleaves⟩ :=
    leaves_immediate h v hgap hgap₁ (h.bracket text hgap₂)
  obtain ⟨gap₄, hgap₄, rfl⟩ := blank_of_append_eq hgap₂ hgap₃ rfl hrest
  exact ⟨gap₄, hgap₄, hleaves⟩

/-! ### Brackets -/

theorem leaves_address {around : Surroundings σ Slot} {i : Inside} {operand : MemoryOperand}
    {tail : List Byte} (hbase : Role.address.Admits base) (hwide : base.isWide = true)
    (hgap : Blank gap) (hgap₁ : Blank gap₁) (hgap₂ : Blank gap₂)
    (htext : ∀ b ∈ text.head?, b.isDigit = false)
    (hinside : inside.Leaves around text i (gap₂ ++ ']'.toUInt8 :: tail))
    (hcompleted : (completed base i).Leaves around tail operand behind) :
    address.Leaves around (gap ++ '['.toUInt8 :: (gap₁ ++ (bytesOf base.name ++ text))) operand
      behind := by
  rw [address_eq]
  refine (leaves_sees_byte .openBracket hgap).bind ((leaves_expect _ blank_nil).bind ?_)
  refine (leaves_addressRegister hbase hwide hgap₁ htext).bind (hinside.bind ?_)
  exact (leaves_closeBracket hgap₂).bind hcompleted

theorem leaves_inside_nothing (hgap : Blank gap) :
    inside.Leaves around (gap ++ ']'.toUInt8 :: text) .nothing (']'.toUInt8 :: text) :=
  (leaves_accept_other hgap rfl rfl).bind (leaves_pure Inside.nothing)

theorem leaves_inside_offset (h : around.ReadsIntegers ends) (v : Int64) (text : List Byte)
    (hgap : Blank gap) (hgap₁ : Blank gap₁) (hgap₂ : Blank gap₂) (hgap₃ : Blank gap₃) :
    ∃ gap₄, Blank gap₄ ∧ inside.Leaves around (gap ++ ','.toUInt8 ::
      (gap₁ ++ '#'.toUInt8 :: (gap₂ ++ (integer v ++ (gap₃ ++ ']'.toUInt8 :: text)))))
      (.offset v.toInt) (gap₄ ++ ']'.toUInt8 :: text) := by
  obtain ⟨gap₄, hgap₄, himmediate⟩ :=
    leaves_immediate_bracket h v text blank_nil hgap₂ hgap₃
  refine ⟨gap₄, hgap₄, (leaves_accept .comma hgap).bind ?_⟩
  exact (leaves_sees_byte .hash hgap₁).bind (himmediate.bind (leaves_pure _))

/-- Behind a base register and a comma an index register starts an index. -/
theorem leaves_inside_register {i : Inside} (hindex : index.Valid) (hgap : Blank gap)
    (hgap₁ : Blank gap₁) (htext : ∀ b ∈ text.head?, b.isDigit = false)
    (hi : (accept .comma >>= fun more => if more = true then indexModifier index
      else pure (.index index none 0 false)).Leaves around text i behind) :
    inside.Leaves around
      (gap ++ ','.toUInt8 :: (gap₁ ++ (bytesOf index.name ++ text))) i behind := by
  refine (leaves_accept .comma hgap).bind ?_
  have hblank := forall_head?_name hindex (p := Byte.isBlank) (by decide) text
  -- no name starts like an immediate
  have hhash : (sees .hash).Leaves around (gap₁ ++ (bytesOf index.name ++ text)) false
      (bytesOf index.name ++ text) := by
    obtain ⟨b, hb, tail, hname⟩ := Register.exists_name_eq_cons hindex
    have hother : ∀ b ∈ bytesOf "XWS", Punctuation.hash.matchesByte b = false := by decide
    refine leaves_sees hgap₁ hblank ?_
    rw [hname]
    exact hother b hb
  have hregister : register.Leaves around (bytesOf index.name ++ text) index text :=
    leaves_register hindex blank_nil htext
  exact hhash.bind (hregister.bind hi)

theorem leaves_inside_index (hindex : index.Valid) (hgap : Blank gap) (hgap₁ : Blank gap₁)
    (hgap₂ : Blank gap₂) : inside.Leaves around
      (gap ++ ','.toUInt8 :: (gap₁ ++ (bytesOf index.name ++ (gap₂ ++ ']'.toUInt8 :: text))))
      (.index index none 0 false) (']'.toUInt8 :: text) := by
  refine leaves_inside_register hindex hgap hgap₁ (forall_head?_gap (by decide) hgap₂ rfl text) ?_
  exact (leaves_accept_other hgap₂ rfl rfl).bind (leaves_pure _)

/-- Behind an index register a comma leads to a modifier. -/
theorem leaves_inside_modifier {i : Inside} (hindex : index.Valid) (hgap : Blank gap)
    (hgap₁ : Blank gap₁) (hgap₂ : Blank gap₂)
    (hi : (indexModifier index).Leaves around text i behind) : inside.Leaves around
      (gap ++ ','.toUInt8 :: (gap₁ ++ (bytesOf index.name ++ (gap₂ ++ ','.toUInt8 :: text)))) i
      behind :=
  leaves_inside_register hindex hgap hgap₁ (forall_head?_gap (by decide) hgap₂ rfl text)
    ((leaves_accept .comma hgap₂).bind hi)

theorem leaves_keyword_name (modifier : IndexModifier) (hgap : Blank gap) :
    (keyword .indexModifiers).Leaves around (gap ++ (bytesOf modifier.name ++ text))
      (some modifier) text := by
  cases modifier <;> exact leaves_keyword hgap (by rintro b ⟨⟩; rfl) rfl

theorem leaves_indexModifier (modifier : IndexModifier) (hgap : Blank gap) (hgap₁ : Blank gap₁) :
    (indexModifier index).Leaves around
      (gap ++ (bytesOf modifier.name ++ (gap₁ ++ ']'.toUInt8 :: text)))
      (.index index modifier 0 false) (']'.toUInt8 :: text) :=
  (leaves_keyword_name modifier hgap).bind
    ((leaves_sees_other hgap₁ rfl rfl).bind (leaves_pure _))

theorem leaves_indexModifier_amount (index : Register) (h : around.ReadsIntegers ends)
    (modifier : IndexModifier) (v : Int64) (text : List Byte) (hgap : Blank gap)
    (hgap₁ : Blank gap₁) (hgap₂ : Blank gap₂) (hgap₃ : Blank gap₃) :
    ∃ gap₄, Blank gap₄ ∧ (indexModifier index).Leaves around (gap ++ (bytesOf modifier.name ++
      (gap₁ ++ '#'.toUInt8 :: (gap₂ ++ (integer v ++ (gap₃ ++ ']'.toUInt8 :: text))))))
      (.index index modifier v.toInt true) (gap₄ ++ ']'.toUInt8 :: text) := by
  obtain ⟨gap₄, hgap₄, himmediate⟩ :=
    leaves_immediate_bracket h v text blank_nil hgap₂ hgap₃
  refine ⟨gap₄, hgap₄, (leaves_keyword_name modifier hgap).bind ?_⟩
  exact (leaves_sees_byte .hash hgap₁).bind (himmediate.bind (leaves_pure _))

/-! ### Behind the bracket -/

/-- There is no bang behind the blanks. -/
theorem leaves_sees_bang (hends : MemoryOperand.EndsBefore text) :
    (sees .bang).Leaves around text false (text.dropWhile Byte.isBlank) := by
  have hbang : Punctuation.bang.matchesByte ((text.dropWhile Byte.isBlank).headD 0) = false := by
    refine Bool.eq_false_iff.mpr fun hmatches => ?_
    obtain ⟨tail, htail⟩ := exists_eq_cons_of_matchesByte (by decide) hmatches
    exact hends.not_bang tail htail
  have hsees : (sees .bang).Leaves around
      (text.takeWhile Byte.isBlank ++ text.dropWhile Byte.isBlank) false
      (text.dropWhile Byte.isBlank) :=
    leaves_sees (fun _ => List.mem_takeWhile_imp) (Cursor.isBlank_head?_dropWhile text) hbang
  rwa [List.takeWhile_append_dropWhile] at hsees

theorem leaves_completed_offset (offset : Int) (hends : MemoryOperand.EndsBefore text) :
    (completed base (.offset offset)).LeavesBlanks around text (.offset base offset) text :=
  ⟨text.takeWhile Byte.isBlank, text.dropWhile Byte.isBlank, fun _ => List.mem_takeWhile_imp,
    List.takeWhile_append_dropWhile.symm, (leaves_sees_bang hends).bind (leaves_pure _)⟩

theorem leaves_completed_nothing (hends : MemoryOperand.EndsBefore text) :
    (completed base .nothing).LeavesBlanks around text (.offset base 0) text := by
  refine ⟨text.takeWhile Byte.isBlank, text.dropWhile Byte.isBlank,
    fun _ => List.mem_takeWhile_imp, List.takeWhile_append_dropWhile.symm,
    (leaves_sees_bang hends).bind ?_⟩
  have hpost : (Punctuation.comma.matchesByte ((text.dropWhile Byte.isBlank).headD 0) &&
      Punctuation.hash.matchesByte
        (((text.dropWhile Byte.isBlank).tail.dropWhile Byte.isBlank).headD 0)) = false := by
    refine Bool.eq_false_iff.mpr fun hmatches => ?_
    -- a comma alone is left to the next operand
    obtain ⟨hcomma, hhash⟩ := Bool.and_eq_true_iff.mp hmatches
    obtain ⟨tail, htail⟩ := exists_eq_cons_of_matchesByte (by decide) hcomma
    rw [htail, List.tail_cons] at hhash
    obtain ⟨rest, hrest⟩ := exists_eq_cons_of_matchesByte (by decide) hhash
    refine hends.not_postIndex (tail.takeWhile Byte.isBlank) rest
      (fun _ => List.mem_takeWhile_imp) (htail.trans (congrArg _ ?_))
    exact (List.takeWhile_append_dropWhile (p := Byte.isBlank)).symm.trans (congrArg _ hrest)
  have hsees : (request .seesPostIndex).Leaves around (text.dropWhile Byte.isBlank) false
      (text.dropWhile Byte.isBlank) :=
    leaves_seesPostIndex blank_nil (Cursor.isBlank_head?_dropWhile text) hpost
  exact hsees.bind (leaves_pure _)

theorem leaves_completed_preIndexed (offset : Int) (hgap : Blank gap) :
    (completed base (.offset offset)).Leaves around (gap ++ '!'.toUInt8 :: text)
      (.preIndexed base offset) text :=
  (leaves_sees_byte .bang hgap).bind ((leaves_accept .bang blank_nil).bind (leaves_pure _))

theorem leaves_completed_postIndexed (base : Register) (h : around.ReadsIntegers ends) (v : Int64)
    (hgap : Blank gap) (hgap₁ : Blank gap₁) (hgap₂ : Blank gap₂) (hends : ends text) :
    (completed base .nothing).LeavesBlanks around
      (gap ++ ','.toUInt8 :: (gap₁ ++ '#'.toUInt8 :: (gap₂ ++ (integer v ++ text))))
      (.postIndexed base v.toInt) text := by
  obtain ⟨gap₃, rest, hgap₃, hrest, himmediate⟩ := leaves_immediate h v hgap₁ hgap₂ hends
  refine ⟨gap₃, rest, hgap₃, hrest, ?_⟩
  have hpost : (request .seesPostIndex).Leaves around
      (','.toUInt8 :: (gap₁ ++ '#'.toUInt8 :: (gap₂ ++ (integer v ++ text)))) true
      (','.toUInt8 :: (gap₁ ++ '#'.toUInt8 :: (gap₂ ++ (integer v ++ text)))) := by
    refine leaves_seesPostIndex blank_nil (by rintro b ⟨⟩; rfl) ?_
    rw [List.tail_cons, Expression.Formula.dropWhile_gap hgap₁ rfl]
    rfl
  refine (leaves_sees_other hgap rfl rfl).bind (hpost.bind ?_)
  exact (leaves_accept .comma blank_nil).bind (himmediate.bind (leaves_pure _))

/-! ### Whole operands -/

theorem leaves_address_prints (h : around.ReadsIntegers ends) {operand : MemoryOperand}
    {words : List (List Byte)} {rest : List Byte} (hvalid : operand.Valid)
    (hwide : ∀ base ∈ operand.base?, base.isWide = true) (hprints : operand.Prints words)
    (hspaced : MemoryOperand.Spaced words text) (hrest : MemoryOperand.EndsBefore rest)
    (hends : ends rest) : address.LeavesBlanks around (text ++ rest) operand rest := by
  have hopen : bytesOf "[" = ['['.toUInt8] := rfl
  have hclose : bytesOf "]" = [']'.toUInt8] := rfl
  have hcomma : bytesOf "," = [','.toUInt8] := rfl
  have hhash : bytesOf "#" = ['#'.toUInt8] := rfl
  have hbang : bytesOf "!" = ['!'.toUInt8] := rfl
  -- each form says what is read between the brackets, and what is looked for behind them
  cases hprints with
  | bare base =>
    obtain ⟨gap, _, hgap, rfl, gap₁, _, hgap₁, rfl, gap₂, _, hgap₂, rfl, rfl⟩ := hspaced
    obtain ⟨gap₃, behind, hgap₃, rfl, hcompleted⟩ := leaves_completed_nothing hrest
    simp only [hopen, hclose, List.append_assoc, List.cons_append, List.nil_append]
    refine ⟨gap₃, behind, hgap₃, rfl, ?_⟩
    exact leaves_address hvalid (hwide base rfl) hgap hgap₁ blank_nil
      (forall_head?_gap (by decide) hgap₂ rfl _) (leaves_inside_nothing hgap₂) hcompleted
  | offset base v =>
    obtain ⟨gap, _, hgap, rfl, gap₁, _, hgap₁, rfl, gap₂, _, hgap₂, rfl, gap₃, _, hgap₃, rfl, gap₄,
      _, hgap₄, rfl, gap₅, _, hgap₅, rfl, rfl⟩ := hspaced
    obtain ⟨gap₆, hgap₆, hinside⟩ :=
      leaves_inside_offset h v rest hgap₂ hgap₃ hgap₄ hgap₅
    obtain ⟨gap₇, behind, hgap₇, rfl, hcompleted⟩ := leaves_completed_offset v.toInt hrest
    simp only [hopen, hclose, hcomma, hhash, List.append_assoc, List.cons_append, List.nil_append]
    refine ⟨gap₇, behind, hgap₇, rfl, ?_⟩
    exact leaves_address hvalid (hwide base rfl) hgap hgap₁ hgap₆
      (forall_head?_gap (by decide) hgap₂ rfl _) hinside hcompleted
  | preIndexed base v =>
    obtain ⟨gap, _, hgap, rfl, gap₁, _, hgap₁, rfl, gap₂, _, hgap₂, rfl, gap₃, _, hgap₃, rfl, gap₄,
      _, hgap₄, rfl, gap₅, _, hgap₅, rfl, gap₆, _, hgap₆, rfl, rfl⟩ := hspaced
    obtain ⟨gap₇, hgap₇, hinside⟩ :=
      leaves_inside_offset h v (gap₆ ++ '!'.toUInt8 :: rest) hgap₂ hgap₃ hgap₄ hgap₅
    simp only [hopen, hclose, hcomma, hhash, hbang, List.append_assoc, List.cons_append,
      List.nil_append]
    refine ⟨[], rest, blank_nil, rfl, ?_⟩
    exact leaves_address hvalid (hwide base rfl) hgap hgap₁ hgap₇
      (forall_head?_gap (by decide) hgap₂ rfl _) hinside
      (leaves_completed_preIndexed v.toInt hgap₆)
  | postIndexed base v =>
    -- up to the bracket this is the bare form
    obtain ⟨gap, _, hgap, rfl, gap₁, _, hgap₁, rfl, gap₂, _, hgap₂, rfl, gap₃, _, hgap₃, rfl, gap₄,
      _, hgap₄, rfl, gap₅, _, hgap₅, rfl, rfl⟩ := hspaced
    obtain ⟨gap₆, behind, hgap₆, rfl, hcompleted⟩ :=
      leaves_completed_postIndexed base h v hgap₃ hgap₄ hgap₅ hends
    simp only [hopen, hclose, hcomma, hhash, List.append_assoc, List.cons_append, List.nil_append]
    refine ⟨gap₆, behind, hgap₆, rfl, ?_⟩
    exact leaves_address hvalid (hwide base rfl) hgap hgap₁ blank_nil
      (forall_head?_gap (by decide) hgap₂ rfl _) (leaves_inside_nothing hgap₂) hcompleted
  | indexed base index =>
    obtain ⟨gap, _, hgap, rfl, gap₁, _, hgap₁, rfl, gap₂, _, hgap₂, rfl, gap₃, _, hgap₃, rfl, gap₄,
      _, hgap₄, rfl, rfl⟩ := hspaced
    simp only [hopen, hclose, hcomma, List.append_assoc, List.cons_append, List.nil_append]
    refine ⟨[], rest, blank_nil, rfl, ?_⟩
    exact leaves_address hvalid.1 (hwide base rfl) hgap hgap₁ blank_nil
      (forall_head?_gap (by decide) hgap₂ rfl _)
      (leaves_inside_index hvalid.2 hgap₂ hgap₃ hgap₄) (leaves_pure _)
  | extended base index modifier =>
    obtain ⟨gap, _, hgap, rfl, gap₁, _, hgap₁, rfl, gap₂, _, hgap₂, rfl, gap₃, _, hgap₃, rfl, gap₄,
      _, hgap₄, rfl, gap₅, _, hgap₅, rfl, gap₆, _, hgap₆, rfl, rfl⟩ := hspaced
    simp only [hopen, hclose, hcomma, List.append_assoc, List.cons_append, List.nil_append]
    refine ⟨[], rest, blank_nil, rfl, ?_⟩
    exact leaves_address hvalid.1 (hwide base rfl) hgap hgap₁ blank_nil
      (forall_head?_gap (by decide) hgap₂ rfl _)
      (leaves_inside_modifier hvalid.2 hgap₂ hgap₃ hgap₄
        (leaves_indexModifier modifier hgap₅ hgap₆)) (leaves_pure _)
  | shifted base index modifier v =>
    obtain ⟨gap, _, hgap, rfl, gap₁, _, hgap₁, rfl, gap₂, _, hgap₂, rfl, gap₃, _, hgap₃, rfl, gap₄,
      _, hgap₄, rfl, gap₅, _, hgap₅, rfl, gap₆, _, hgap₆, rfl, gap₇, _, hgap₇, rfl, gap₈, _, hgap₈,
      rfl, rfl⟩ := hspaced
    obtain ⟨gap₉, hgap₉, hamount⟩ :=
      leaves_indexModifier_amount index h modifier v rest hgap₅ hgap₆ hgap₇ hgap₈
    simp only [hopen, hclose, hcomma, hhash, List.append_assoc, List.cons_append, List.nil_append]
    refine ⟨[], rest, blank_nil, rfl, ?_⟩
    exact leaves_address hvalid.1 (hwide base rfl) hgap hgap₁ hgap₉
      (forall_head?_gap (by decide) hgap₂ rfl _)
      (leaves_inside_modifier hvalid.2 hgap₂ hgap₃ hgap₄ hamount) (leaves_pure _)

/-! ### Base registers -/

theorem ensures_completed {taken : List Register} {P : List Register → MemoryOperand → Prop}
    (i : Inside) (h : ∀ operand : MemoryOperand, operand.base? = some base → P taken operand) :
    (completed base i).Ensures taken P := by
  have hpreIndexed (offset : Option Int) : (preIndexed base offset).Ensures taken P :=
    ensures_preIndexed fun offset => h (.preIndexed base offset) rfl
  cases i with
  | index index modifier amount written => exact h (.indexed base index modifier amount written) rfl
  | offset offset =>
    simp only [completed, ensures_bind, ensures_sees, ensures_ite, ensures_pure]
    exact fun _ => ⟨fun _ => hpreIndexed _, fun _ => h (.offset base offset) rfl⟩
  | nothing =>
    simp only [completed, ensures_bind, ensures_sees, ensures_ite, ensures_pure, ensures_request,
      Request.Allows, Request.registers, List.append_nil, true_implies]
    refine fun _ => ⟨fun _ => hpreIndexed _, fun _ _ => ⟨fun _ => ?_, fun _ => ?_⟩⟩
    · exact ensures_postIndexed fun offset => h (.postIndexed base offset) rfl
    · exact h (.offset base 0) rfl

/-- What is read from a bracket on has a base register, which is wide and no zero register. -/
theorem base_of_address {r r' : Reading σ} {operand : MemoryOperand}
    (hpeek : r.cursor.skipBlanks.peek = '['.toUInt8) (h : address.run around r = .ok operand r') :
    ∃ base, operand.base? = some base ∧ base.isWide = true ∧ base.zero = false := by
  have hsees : (sees .openBracket).run around r = .ok true
      { r with cursor := r.cursor.skipBlanks } := by
    have hlook : Cursor.look (fun s => Punctuation.openBracket.matchesByte s.peek) r.cursor =
        (true, r.cursor.skipBlanks) := by
      rw [Cursor.look, hpeek]
      rfl
    rw [sees, run_request]
    exact Reading.step_eq_ok.mpr ⟨_, hlook, rfl⟩
  rw [address_eq, run_bind, bind_of_ok hsees, if_pos rfl] at h
  -- the base register is read first, and every form keeps it
  have hensures : (openBracket >>= fun _ => addressRegister >>= fun base => inside >>= fun i =>
      closeBracket >>= fun _ => completed base i).Ensures [] fun _ operand =>
        ∃ base, operand.base? = some base ∧ base.isWide = true ∧ base.zero = false := by
    rw [ensures_bind, ensures_openBracket, ensures_bind, ensures_addressRegister]
    intro base hbase hwide
    rw [ensures_bind]
    refine ensures_inside fun i _ => ?_
    rw [ensures_bind, ensures_closeBracket]
    exact ensures_completed i fun operand hoperand => ⟨base, hoperand, hwide, hbase.2⟩
  exact hensures.run h

/-- An operand is read back from how it is printed, before anything that does not go on with it, by
every environment that reads integers, and so by a machine. A comma behind it that does not
introduce an immediate is left. What is read from a bracket on has a wide base register that is no
zero register. -/
theorem address_printed :
    (∀ {σ Slot : Type} {around : Surroundings σ Slot} {ends : List Byte → Prop},
      around.ReadsIntegers ends →
      ∀ {operand : MemoryOperand} {words : List (List Byte)} {text rest : List Byte},
        operand.Valid → (∀ base ∈ operand.base?, base.isWide = true) → operand.Prints words →
        MemoryOperand.Spaced words text → MemoryOperand.EndsBefore rest → ends rest →
        address.LeavesBlanks around (text ++ rest) operand rest) ∧
    (∀ (context : Context) (mnemonic : String),
      Surroundings.ReadsIntegers ⟨Machine.environment, context, mnemonic⟩
        Expression.EndsInteger) ∧
    ∀ {σ Slot : Type} {around : Surroundings σ Slot} {r r' : Reading σ} {operand : MemoryOperand},
      r.cursor.skipBlanks.peek = '['.toUInt8 → address.run around r = .ok operand r' →
        ∃ base, operand.base? = some base ∧ base.isWide = true ∧ base.zero = false :=
  ⟨fun h _ _ _ _ => leaves_address_prints h, Machine.readsIntegers, base_of_address⟩

/-- A base register alone, and another operand behind it. -/
theorem address_printed_bare :
    address.LeavesBlanks ⟨Machine.environment, ⟨0x8000, 0x8000, .standard⟩, "CASP"⟩
      (bytesOf "[ X1]" ++ bytesOf " , X2") (.offset (.x 1) 0) (bytesOf " , X2") := by
  have hspaced : MemoryOperand.Spaced [bytesOf "[", bytesOf (Register.x 1).name, bytesOf "]"]
      (bytesOf "[ X1]") :=
    ⟨[], bytesOf " X1]", blank_nil, rfl, bytesOf " ", bytesOf "]", Expression.Formula.blank_space,
      rfl, [], [], blank_nil, rfl, rfl⟩
  have hrest : MemoryOperand.EndsBefore (bytesOf " , X2") := by
    constructor
    · intro tail h
      have hhead : ((bytesOf " , X2").dropWhile Byte.isBlank).head? = some '!'.toUInt8 :=
        congrArg List.head? h
      exact absurd hhead (by decide)
    · intro gap tail _ h
      have hmem : '#'.toUInt8 ∈ (bytesOf " , X2").dropWhile Byte.isBlank := by
        rw [h]
        simp
      exact absurd hmem (by decide)
  have hends : Expression.EndsInteger (bytesOf " , X2") :=
    ⟨by rintro b ⟨⟩; rfl, by rintro b ⟨⟩; rfl,
      fun op => Expression.Formula.not_opens_cons (by cases op <;> decide) _⟩
  refine address_printed.1 (address_printed.2.1 _ _) ⟨⟨by decide, by decide⟩, rfl⟩ ?_ (.bare (.x 1))
    hspaced hrest hends
  rintro base ⟨⟩
  rfl

end Reader

end InlineA64
