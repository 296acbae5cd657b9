import InlineA64.Proofs.Embeds.Expression
import Mathlib.Data.List.GetD

/-!
# Literals

How numbers and strings are written, and that they are read back. An integer is written in decimal
with a sign if it is negative (`Literal.integer`), and a string in quotes with every quote in it
doubled (`Literal.quotation`). Read as an expression, behind a blank and with nothing or a colon
behind it, each has the value that it was written for (`Expression.read_integer`,
`Expression.read_quotation`).
-/

namespace InlineA64

/-! ## Cursors between two parts of a text -/

namespace Cursor

/-- The cursor between two parts of a text. -/
def between (before behind : List Byte) : Cursor :=
  ⟨(before ++ behind).toArray, before.length⟩

variable (before : List Byte) {behind word : List Byte} {p : Byte → Bool}

theorem between_append (word behind : List Byte) : between (before ++ word) behind =
    { between before (word ++ behind) with pos := before.length + word.length } := by
  rw [between, between, List.append_assoc, List.length_append]

theorem getElem?_between (i : Nat) :
    (between before behind).text[before.length + i]? = behind[i]? := by
  rw [between, List.getElem?_toArray, List.getElem?_append_right (Nat.le_add_right _ _),
    Nat.add_sub_cancel_left]

theorem byteAt_between (i : Nat) :
    (between before behind).byteAt (before.length + i) = behind.getD i 0 := by
  rw [byteAt, Array.getD_eq_getD_getElem?, getElem?_between, List.getD_eq_getElem?_getD]

theorem peek_between (behind : List Byte) : (between before behind).peek = behind.getD 0 0 :=
  byteAt_between before 0

theorem remaining_between : (between before behind).remaining = behind.length := by
  rw [remaining, between, List.size_toArray, List.length_append, Nat.add_sub_cancel_left]

theorem rest_between (behind : List Byte) : (between before behind).rest.toList = behind := by
  rw [rest, between, Array.toList_extract, List.extract_eq_take_drop, List.drop_left,
    List.size_toArray, List.length_append, Nat.add_sub_cancel_left, List.take_length]

theorem slice_between (word behind : List Byte) : (between before (word ++ behind)).slice
    before.length (between (before ++ word) behind).pos = word := by
  rw [slice, between, between, Array.toList_extract, List.extract_eq_take_drop, List.drop_left,
    List.length_append, Nat.add_sub_cancel_left, List.take_left]

theorem advance_between (word behind : List Byte) :
    (between before (word ++ behind)).advance word.length = between (before ++ word) behind := by
  have hle : before.length + word.length ≤ (before ++ (word ++ behind)).length := by
    simp only [List.length_append]
    omega
  rw [between_append, advance]
  exact congrArg _ (Nat.min_eq_left hle)

theorem advance_one_between (b : Byte) (behind : List Byte) :
    (between before (b :: behind)).advance 1 = between (before ++ [b]) behind :=
  advance_between before [b] behind

/-- Where two parts of a text meet further on, a cursor is moved there. -/
theorem advanceTo_between (word behind : List Byte) : (between before (word ++ behind)).advanceTo
    (between (before ++ word) behind).pos = between (before ++ word) behind := by
  have hsize : (between before (word ++ behind)).text.size =
      before.length + (word.length + behind.length) := by
    simp only [between, List.size_toArray, List.length_append]
  have hpos : min (max before.length (before.length + word.length))
      (before.length + (word.length + behind.length)) = before.length + word.length := by
    omega
  rw [between_append, advanceTo, seek, hsize]
  exact congrArg _ hpos

/-- Where a run ends does not hang on where the cursor is. -/
theorem endOfRun_with_pos (s : Cursor) (pos fuel i : Nat) :
    { s with pos }.endOfRun p fuel i = s.endOfRun p fuel i := by
  induction fuel generalizing i with
  | zero => rfl
  | succ fuel ih =>
    rw [endOfRun, endOfRun, ih]
    rfl

theorem endOfRun_between (hword : ∀ b ∈ word, p b = true)
    (hbehind : ∀ b ∈ behind.head?, p b = false) :
    (between before (word ++ behind)).endOfRun p (word ++ behind).length before.length =
      before.length + word.length := by
  -- the byte that is taken moves from the one side of the cursor to the other
  induction word generalizing before with
  | nil =>
    cases behind with
    | nil => rfl
    | cons b behind =>
      refine endOfRun_of_false ?_
      have hbyte : (between before (b :: behind)).byteAt before.length = b :=
        byteAt_between before 0
      rw [List.nil_append, hbyte]
      exact hbehind b rfl
  | cons b word ih =>
    have hbyte : (between before (b :: (word ++ behind))).byteAt before.length = b :=
      byteAt_between before 0
    have hnext := ih (before ++ [b]) fun c hc => hword c (List.mem_cons_of_mem b hc)
    have hsize : (before ++ [b]).length = before.length + 1 := List.length_append
    rw [between_append, endOfRun_with_pos, hsize] at hnext
    rw [List.cons_append, List.length_cons, endOfRun, hbyte, if_pos (hword b List.mem_cons_self)]
    refine hnext.trans ?_
    rw [List.length_cons]
    omega

/-- Skipping takes a word of bytes that are to be skipped if none follows it. -/
theorem skipWhile_between (hword : ∀ b ∈ word, p b = true)
    (hbehind : ∀ b ∈ behind.head?, p b = false) :
    (between before (word ++ behind)).skipWhile p = between (before ++ word) behind := by
  rw [between_append, skipWhile, remaining_between]
  exact congrArg _ (endOfRun_between before hword hbehind)

/-- There is nothing to skip where no byte that is to be skipped follows. -/
theorem skipWhile_between_of_head? (hbehind : ∀ b ∈ behind.head?, p b = false) :
    (between before behind).skipWhile p = between before behind := by
  have hskip := skipWhile_between before (List.forall_mem_nil (p · = true)) hbehind
  rwa [List.nil_append, List.append_nil] at hskip

end Cursor

/-! ## What is written -/

namespace Literal

/-- A natural number in decimal. -/
def natural (n : Nat) : List Byte :=
  (Nat.toDigits 10 n).map Char.toUInt8

/-- An integer in decimal, with a sign if it is negative. -/
def integer (n : Int64) : List Byte :=
  if n.toInt < 0 then '-'.toUInt8 :: natural n.toInt.natAbs else natural n.toInt.natAbs

/-- Bytes with every quote among them doubled. -/
def doubled (bytes : List Byte) : List Byte :=
  bytes.flatMap fun b => if b = '"'.toUInt8 then [b, b] else [b]

/-- A string in quotes. -/
def quotation (bytes : List Byte) : List Byte :=
  '"'.toUInt8 :: (doubled bytes ++ ['"'.toUInt8])

/-- Behind an operand nothing follows, or a colon does. -/
def Ends (behind : List Byte) : Prop :=
  ∀ b ∈ behind.head?, b = ':'.toUInt8

theorem natural_eq (n : Nat) : natural n =
    (if n < 10 then [] else natural (n / 10)) ++ [(Nat.digitChar (n % 10)).toUInt8] := by
  rw [natural, Nat.toDigits_eq_if (by decide)]
  split
  · next h => rw [Nat.mod_eq_of_lt h, List.map_singleton, List.nil_append]
  · rw [List.map_append, List.map_singleton, natural]

theorem natural_of_lt {n : Nat} (h : n < 10) : natural n = [(Nat.digitChar n).toUInt8] := by
  rw [natural_eq, if_pos h, Nat.mod_eq_of_lt h, List.nil_append]

theorem digit_spec : ∀ d < 10, Byte.isDigit (Nat.digitChar d).toUInt8 = true ∧
    Byte.digit? 10 (Nat.digitChar d).toUInt8 = some d := by
  decide

theorem isDigit_of_mem_natural {n : Nat} {b : Byte} (h : b ∈ natural n) : b.isDigit = true := by
  induction n using Nat.strongRecOn with
  | _ n ih =>
    rw [natural_eq, List.mem_append, List.mem_singleton] at h
    rcases h with h | rfl
    · split at h
      · cases h
      · exact ih (n / 10) (Nat.div_lt_self (by omega) (by decide)) h
    · exact (digit_spec _ (Nat.mod_lt n (by decide))).1

theorem exists_natural_eq_cons (n : Nat) :
    ∃ b digits, natural n = b :: digits ∧ b.isDigit = true := by
  have hne : natural n ≠ [] := by
    rw [natural_eq]
    exact List.append_ne_nil_of_right_ne_nil _ (List.cons_ne_nil _ _)
  obtain ⟨b, digits, hdigits⟩ := List.exists_cons_of_ne_nil hne
  exact ⟨b, digits, hdigits, isDigit_of_mem_natural (n := n) (hdigits ▸ List.mem_cons_self)⟩

end Literal

namespace Expression

open Cursor (between)
open Literal

variable {before behind : List Byte} {value? : Name → Option Value}

/-! ## Reading numbers -/

theorem numeral_append (base : Nat) (digits : List Byte) (b : Byte) :
    numeral base (digits ++ [b]) = numeral base digits * base + (b.digit? base).getD 0 := by
  rw [numeral, List.foldl_append]
  rfl

/-- A number in decimal is the number that its digits stand for. -/
theorem numeral_natural (n : Nat) : numeral 10 (natural n) = n := by
  induction n using Nat.strongRecOn with
  | _ n ih =>
    have hdigit := (digit_spec _ (Nat.mod_lt n (by decide : 0 < 10))).2
    rw [natural_eq, numeral_append, hdigit, Option.getD_some]
    split
    · next h =>
      rw [Nat.mod_eq_of_lt h]
      exact Nat.zero_add n
    · rw [ih (n / 10) (Nat.div_lt_self (by omega) (by decide))]
      exact Nat.div_add_mod' n 10

theorem takeWhile_between {p : Byte → Bool} {word : List Byte} (hword : ∀ b ∈ word, p b = true)
    (hbehind : ∀ b ∈ behind.head?, p b = false) :
    takeWhile p (between before (word ++ behind)) = .ok word (between (before ++ word) behind) := by
  have hskip := Cursor.skipWhile_between before hword hbehind
  change EStateM.Result.ok (Cursor.slice _ _ (Cursor.skipWhile _ p).pos) _ = _
  rw [hskip]
  exact congrArg (EStateM.Result.ok · _) (Cursor.slice_between before word behind)

/-- The byte where an operand ends, or the end of the text. -/
theorem peek_of_ends (before : List Byte) (h : Ends behind) :
    (between before behind).peek = 0 ∨ (between before behind).peek = ':'.toUInt8 := by
  rw [Cursor.peek_between]
  cases behind with
  | nil => exact .inl rfl
  | cons b behind => exact .inr (h b rfl)

theorem decimal_natural (n : Nat) (h : Ends behind) :
    decimal (between before (natural n ++ behind)) =
      .ok (.int (Int64.ofNat n)) (between (before ++ natural n) behind) := by
  have htake : takeWhile Byte.isDigit (between before (natural n ++ behind)) = _ :=
    takeWhile_between (fun b => isDigit_of_mem_natural) fun b hb => h b hb ▸ rfl
  have hpoint : ((between (before ++ natural n) behind).peek == '.'.toUInt8) = false := by
    rcases peek_of_ends (before ++ natural n) h with hpeek | hpeek <;> rw [hpeek] <;> rfl
  rw [decimal, bind_of_ok htake, get_bind, hpoint, numeral_natural]
  rfl

theorem peek_natural (n : Nat) : (between before (natural n ++ behind)).peek.isDigit = true := by
  obtain ⟨b, digits, hdigits, hb⟩ := exists_natural_eq_cons n
  rw [Cursor.peek_between, hdigits]
  exact hb

/-! ## Reading strings -/

/-- Bytes in which every quote is doubled are read up to the quote that is not. -/
theorem quoted_doubled {bytes : List Byte} (hplain : ∀ b ∈ bytes, b ≠ 0 ∧ b.isBreak = false)
    (h : Ends behind) : quoted (doubled bytes ++ '"'.toUInt8 :: behind) =
      (some bytes, (doubled bytes).length + 1) := by
  induction bytes with
  | nil =>
    -- the closing quote would be a doubled one before a further quote
    refine quoted_of_quote fun tail hquote => ?_
    subst hquote
    cases h _ rfl
  | cons b bytes ih =>
    have ih := ih fun c hc => hplain c (List.mem_cons_of_mem b hc)
    obtain ⟨hzero, hbreak⟩ := hplain b List.mem_cons_self
    rw [doubled, List.flatMap_cons, ← doubled]
    by_cases hb : b = '"'.toUInt8
    · subst hb
      rw [if_pos rfl]
      change quoted (0x22 :: 0x22 :: (doubled bytes ++ _)) = _
      rw [quoted, ih]
      rfl
    · rw [if_neg hb]
      change quoted (b :: (doubled bytes ++ _)) = _
      rw [quoted_of_ne hb, ih, hbreak, beq_eq_false_iff_ne.mpr hzero]
      rfl

theorem string_quotation {bytes : List Byte} (hplain : ∀ b ∈ bytes, b ≠ 0 ∧ b.isBreak = false)
    (h : Ends behind) : string (between before (quotation bytes ++ behind)) =
      .ok (.string bytes) (between (before ++ quotation bytes) behind) := by
  have hopen : (between before (quotation bytes ++ behind)).advance 1 =
      between (before ++ ['"'.toUInt8]) (doubled bytes ++ '"'.toUInt8 :: behind) := by
    rw [quotation, List.cons_append, Cursor.advance_one_between, List.append_assoc]
    rfl
  have hclose : (between (before ++ ['"'.toUInt8]) (doubled bytes ++ '"'.toUInt8 :: behind)).advance
      ((doubled bytes).length + 1) = between (before ++ quotation bytes) behind := by
    have hadvance := Cursor.advance_between (before ++ ['"'.toUInt8])
      (doubled bytes ++ ['"'.toUInt8]) behind
    rwa [List.length_append, List.append_assoc, List.append_assoc] at hadvance
  rw [string, get_bind, modify_bind, hopen, get_bind, Cursor.rest_between, quoted_doubled hplain h]
  dsimp only
  rw [modify_bind, hclose]
  rfl

/-! ## Whole expressions -/

/-- Where an operand ends there is no operator. -/
theorem operator?_of_ends (operators : List Operator) (h : Ends behind) :
    (operator? operators (between before behind)).1.isNone := by
  have hskip : (between before behind).skipBlanks = between before behind :=
    Cursor.skipWhile_between_of_head? before fun b hb => h b hb ▸ rfl
  -- the text is at its end or at a colon, and no operator starts with that
  have hlength (op : Operator) : op.length? (between before behind) = none := by
    have hbyte : (between before behind).text[(between before behind).pos]? = behind.head? :=
      (Cursor.getElem?_between before 0).trans List.head?_eq_getElem?.symm
    have htoken : (op.token? == some (between before behind).peek) = false := by
      rcases peek_of_ends before h with hpeek | hpeek <;> rw [hpeek] <;>
        cases op <;> rfl
    have hspelled : spelledAt (between before behind) op.spelling (between before behind).pos =
        false := by
      obtain ⟨b, word, hword, hb⟩ : ∃ b word, op.spelling = b :: word ∧ b ≠ ':'.toUInt8 := by
        cases op <;> exact ⟨_, _, rfl, by decide⟩
      rw [hword, spelledAt, hbyte, Bool.and_eq_false_iff, beq_eq_false_iff_ne]
      exact .inl fun hhead => hb (h b hhead)
    rw [Operator.length?, htoken, hspelled]
    rfl
  simp only [operator?, hskip]
  rw [List.findSome?_eq_none_iff.mpr fun op _ => by rw [hlength op, Option.map_none]]
  rfl

/-- An expression that is one operand and ends there has the value of that operand. -/
theorem readIn_of_operand {s : Cursor} {v : Value}
    (hoperand : operand value? (s.remaining + 1) s = .ok v (between before behind))
    (h : Ends behind) : readIn value? s = .ok v (between before behind) := by
  have hskip : (between before behind).skipBlanks = between before behind :=
    Cursor.skipWhile_between_of_head? before fun b hb => h b hb ▸ rfl
  rw [readIn, get_bind, joined_of_no_operator hoperand (operator?_of_ends _ h), hskip]

theorem operand_of_minus {s : Cursor} (h : s.skipBlanks.peek = '-'.toUInt8) (depth : Nat) :
    operand value? (depth + 1) s =
      (operand value? depth >>= negate s.pos) (s.skipBlanks.advance 1) := by
  rw [operand, get_bind, modify_bind, get_bind, h]
  rfl

theorem operand_natural (n : Nat) (h : Ends behind) (depth : Nat) :
    operand value? (depth + 1) (between before (natural n ++ behind)) =
      .ok (.int (Int64.ofNat n)) (between (before ++ natural n) behind) :=
  (operand_of_digit (peek_natural n) depth).trans (decimal_natural n h)

/-- One blank is skipped where none follows. -/
theorem skipBlanks_between (before : List Byte) (h : ∀ b ∈ behind.head?, b.isBlank = false) :
    (between before (' '.toUInt8 :: behind)).skipBlanks =
      between (before ++ [' '.toUInt8]) behind := by
  have hblank : ∀ b ∈ [' '.toUInt8], Byte.isBlank b = true := by decide
  exact Cursor.skipWhile_between before hblank h

/-- An integer is read as itself. The least one has too many digits without its sign, but then they
wrap around to it, and it is its own negative. -/
theorem readIn_integer (n : Int64) (h : Ends behind) :
    readIn value? (between before (' '.toUInt8 :: (integer n ++ behind))) =
      .ok (.int n) (between (before ++ ' '.toUInt8 :: integer n) behind) := by
  refine readIn_of_operand ?_ h
  rw [Cursor.remaining_between, List.append_cons before, integer]
  split
  · next hneg =>
    have hblank : ∀ b ∈ ('-'.toUInt8 :: (natural n.toInt.natAbs ++ behind)).head?,
        Byte.isBlank b = false := by
      rintro b ⟨⟩
      rfl
    have hskip := skipBlanks_between before hblank
    have hminus := hskip ▸ Cursor.peek_between (before ++ [' '.toUInt8])
      ('-'.toUInt8 :: (natural n.toInt.natAbs ++ behind))
    -- the least number is the negative of itself, which the digits wrap around to
    have hvalue : -Int64.ofNat n.toInt.natAbs = n := by
      rw [← Int64.ofInt_eq_ofNat, ← Int64.ofInt_neg, Int.ofNat_natAbs_of_nonpos (Int.le_of_lt hneg),
        Int.neg_neg, Int64.ofInt_toInt]
    rw [List.cons_append, operand_of_minus hminus, hskip, Cursor.advance_one_between,
      List.length_cons, bind_of_ok (operand_natural _ h _), negate, hvalue, List.append_assoc,
      List.singleton_append]
    rfl
  · next hnonneg =>
    have hblank : ∀ b ∈ (natural n.toInt.natAbs ++ behind).head?, b.isBlank = false := by
      obtain ⟨c, digits, hdigits, hc⟩ := exists_natural_eq_cons n.toInt.natAbs
      rw [hdigits]
      rintro b ⟨⟩
      rw [Byte.isBlank, beq_of_class hc rfl, beq_of_class hc rfl, Bool.or_self]
    have hskip := skipBlanks_between before hblank
    have hvalue : Int64.ofNat n.toInt.natAbs = n := by
      rw [← Int64.ofInt_eq_ofNat, Int.natAbs_of_nonneg (Int.not_lt.mp hnonneg), Int64.ofInt_toInt]
    rw [operand_skipBlanks_of_class (hskip.symm ▸ peek_natural _) rfl rfl rfl, hskip,
      item_of_digit (peek_natural _), decimal_natural _ h, hvalue]

/-- A string is read as the bytes of which it is the quotation. -/
theorem readIn_quotation {bytes : List Byte} (hplain : ∀ b ∈ bytes, b ≠ 0 ∧ b.isBreak = false)
    (h : Ends behind) :
    readIn value? (between before (' '.toUInt8 :: (quotation bytes ++ behind))) =
      .ok (.string bytes) (between (before ++ ' '.toUInt8 :: quotation bytes) behind) := by
  refine readIn_of_operand ?_ h
  have hblank : ∀ b ∈ (quotation bytes ++ behind).head?, Byte.isBlank b = false := by
    rintro b ⟨⟩
    rfl
  have hskip := skipBlanks_between before hblank
  have hpeek : (between (before ++ [' '.toUInt8]) (quotation bytes ++ behind)).peek =
      '"'.toUInt8 := Cursor.peek_between _ _
  rw [List.append_cons before, operand_skipBlanks_of_class (p := (· == '"'.toUInt8))
    (by rw [hskip, hpeek]; rfl) rfl rfl rfl, hskip, item, get_bind, hpeek]
  exact string_quotation hplain h

end Expression

end InlineA64
