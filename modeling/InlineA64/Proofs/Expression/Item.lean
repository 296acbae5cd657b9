import InlineA64.Proofs.Expression.Level
import Mathlib.Data.List.Induction

/-!
# Operands

How operands are read at a cursor, by what they start with: literals (`Numeral.item_text`), names
(`Identifier.item_name`), and operands with a sign or in parentheses.
-/

namespace InlineA64.Expression

open Cursor (Scan Onward between)
open Formula (Blank blank_nil signByte)

variable {before behind : List Byte} {value? : Name → Option Value}

/-! ## Items -/

theorem isAlphanumeric_of_digit? {base : ℕ} {b : Byte} (h : (b.digit? base).isSome = true) :
    b.isAlphanumeric = true := by
  rw [Byte.isAlphanumeric, Bool.or_comm]
  cases hdigit : b.isDigit
  · cases hletter : b.isLetter
    · simp [Byte.digit?, hdigit, hletter] at h
    · rfl
  · rfl

theorem isSome_digit?_ten (b : Byte) : (b.digit? 10).isSome = b.isDigit := by
  rw [Byte.digit?]
  cases hdigit : b.isDigit
  · -- the value of a letter is 10 at least
    cases b.isLetter <;> simp
  · have hlt : b.toNat - 0x30 < 10 := by
      simp only [Byte.isDigit, Bool.and_eq_true, decide_eq_true_eq, UInt8.le_iff_toNat_le,
        UInt8.reduceToNat] at hdigit
      omega
    simp [hlt]

/-- The number that digits stand for, by their places. -/
theorem numeral_eq_ofDigits (base : ℕ) (digits : List Byte) :
    numeral base digits =
      Nat.ofDigits base (digits.reverse.map fun b => (b.digit? base).getD 0) := by
  induction digits using List.reverseRecOn with
  | nil => rfl
  | append_singleton digits b ih =>
    rw [numeral_append, ih, List.reverse_append, List.reverse_singleton, List.singleton_append,
      List.map_cons, Nat.ofDigits_cons]
    exact Nat.add_comm _ _ |>.trans (congrArg _ (Nat.mul_comm _ _))

namespace Numeral

variable {n : Numeral}

/-- The bytes that literals start with. -/
def startsWith (b : Byte) : Bool :=
  b.isDigit || b == '&'.toUInt8 || b == '%'.toUInt8

theorem exists_text_eq_cons (n : Numeral) :
    ∃ b tail, n.text = b :: tail ∧ startsWith b = true := by
  obtain ⟨radix, digits, hne, hvalid⟩ := n
  obtain ⟨b, digits, rfl⟩ := List.exists_cons_of_ne_nil hne
  cases radix with
  | decimal =>
    have hb : b.isDigit = true := by
      rw [← isSome_digit?_ten]
      exact hvalid b List.mem_cons_self
    exact ⟨b, digits, rfl, by rw [startsWith, hb]; rfl⟩
  | hexadecimal => exact ⟨'&'.toUInt8, b :: digits, rfl, rfl⟩
  | binary => exact ⟨'%'.toUInt8, b :: digits, rfl, rfl⟩

/-- A literal in a base is read behind what announces it. -/
theorem based_digits (before : List Byte) (start : ℕ)
    (hbehind : ∀ b ∈ behind.head?, n.continuedBy b = false) :
    based n.radix.base start (between before (n.digits ++ behind)) =
      .ok (.int (.ofNat n.value)) (between (before ++ n.digits) behind) := by
  have htake : takeWhile (fun b => (b.digit? n.radix.base).isSome)
      (between before (n.digits ++ behind)) = _ :=
    takeWhile_between n.valid fun b hb => (Bool.or_eq_false_iff.mp (hbehind b hb)).1
  have hne : n.digits.isEmpty = false := by
    simpa using n.digits_ne_nil
  rw [based, bind_of_ok htake, hne, numeral_eq_ofDigits]
  rfl

/-- Where a byte announces a base the literal is read from behind it. -/
theorem item_of_announcement (before : List Byte)
    (hbehind : ∀ b ∈ behind.head?, n.continuedBy b = false) {c : Byte}
    (hannouncement : n.radix.announcement = [c])
    (hitem : ∀ s : Cursor, s.peek = c →
      item value? s = (modify (·.advance 1) >>= fun _ => based n.radix.base s.pos : Scan Value) s) :
    item value? (between before (n.text ++ behind)) =
      .ok (.int (.ofNat n.value)) (between (before ++ n.text) behind) := by
  have htext : n.text = c :: n.digits := by rw [text, hannouncement, List.singleton_append]
  have hpeek : (between before (n.text ++ behind)).peek = c := by
    rw [htext, Cursor.peek_between]
    rfl
  rw [hitem _ hpeek, htext, List.cons_append, modify_bind, Cursor.advance_one_between,
    based_digits _ _ hbehind, List.append_assoc, List.singleton_append]

/-- A decimal literal starts with a digit, and no point makes it a fraction. -/
theorem item_decimal (before : List Byte) (hbehind : ∀ b ∈ behind.head?, n.continuedBy b = false)
    (hradix : n.radix = .decimal) (value? : Name → Option Value) :
    item value? (between before (n.text ++ behind)) =
      .ok (.int (.ofNat n.value)) (between (before ++ n.text) behind) := by
  have htext : n.text = n.digits := by rw [text, hradix]; rfl
  have hbase : n.radix.base = 10 := by rw [hradix]; rfl
  have hdigits : ∀ b ∈ n.digits, b.isDigit = true := fun b hb => by
    rw [← isSome_digit?_ten, ← hbase]
    exact n.valid b hb
  have hdigit : (between before (n.text ++ behind)).peek.isDigit = true := by
    obtain ⟨b, tail, heq⟩ := List.exists_cons_of_ne_nil n.digits_ne_nil
    rw [Cursor.peek_between, htext, heq]
    exact hdigits b (heq ▸ List.mem_cons_self)
  have hstop : ∀ b ∈ behind.head?, b.isDigit = false ∧ b ≠ '.'.toUInt8 := fun b hb => by
    have hcontinued := hbehind b hb
    rw [continuedBy, hbase, hradix, isSome_digit?_ten] at hcontinued
    simpa using hcontinued
  have htake : takeWhile Byte.isDigit (between before (n.digits ++ behind)) = _ :=
    takeWhile_between hdigits fun b hb => (hstop b hb).1
  -- no point follows, so nothing is read as a fraction
  have hpoint : ((between (before ++ n.digits) behind).peek == '.'.toUInt8) = false := by
    rw [Cursor.peek_between]
    cases behind with
    | nil => rfl
    | cons b behind => exact beq_eq_false_iff_ne.mpr (hstop b rfl).2
  rw [item_of_digit hdigit, htext, decimal, bind_of_ok htake, get_bind, hpoint,
    numeral_eq_ofDigits, ← hbase]
  rfl

/-- A literal is read up to where its digits end. -/
theorem item_text (before : List Byte) (hbehind : ∀ b ∈ behind.head?, n.continuedBy b = false)
    (value? : Name → Option Value) :
    item value? (between before (n.text ++ behind)) =
      .ok (.int (.ofNat n.value)) (between (before ++ n.text) behind) := by
  cases hradix : n.radix with
  | decimal => exact item_decimal before hbehind hradix value?
  | hexadecimal =>
    refine item_of_announcement before hbehind (by rw [hradix]; rfl) fun s hs => ?_
    rw [item, get_bind, hs, hradix]
    rfl
  | binary =>
    refine item_of_announcement before hbehind (by rw [hradix]; rfl) fun s hs => ?_
    rw [item, get_bind, hs, hradix]
    rfl

end Numeral

namespace Identifier

variable {x : Identifier}

theorem exists_name_eq_cons (x : Identifier) :
    ∃ b tail, x.name = b :: tail ∧ b.startsName = true := by
  obtain ⟨b, hb, hstarts⟩ := x.starts
  obtain ⟨tail, htail⟩ := List.head?_eq_some_iff.mp hb
  exact ⟨b, tail ++ x.sign.toList, by rw [name, htail]; rfl, hstarts⟩

/-- A name is read up to where it ends. -/
theorem name_name (before : List Byte) (hbehind : ∀ b ∈ behind.head?, x.continuedBy b = false) :
    Expression.name (between before (x.name ++ behind)) =
      .ok x.name (between (before ++ x.name) behind) := by
  cases hsign : x.sign with
  | none =>
    -- what follows neither goes on with the stem nor is a sign
    have hname : x.name = x.stem := by simp [name, hsign]
    have hstop : ∀ b ∈ behind.head?, b.continuesName = false ∧
        (b == '%'.toUInt8 || b == '$'.toUInt8) = false := fun b hb => by
      have hcontinued := hbehind b hb
      rwa [continuedBy, hsign, Option.isNone_none, Bool.true_and, Bool.or_assoc,
        Bool.or_eq_false_iff] at hcontinued
    have htake : takeWhile Byte.continuesName (between before (x.stem ++ behind)) = _ :=
      takeWhile_between x.continues fun b hb => (hstop b hb).1
    have hpeek : ((between (before ++ x.stem) behind).peek == '%'.toUInt8 ||
        (between (before ++ x.stem) behind).peek == '$'.toUInt8) = false := by
      rw [Cursor.peek_between]
      cases behind with
      | nil => rfl
      | cons b behind => exact (hstop b rfl).2
    rw [hname, Expression.name, bind_of_ok htake, get_bind]
    simp only [hpeek, Bool.false_eq_true, if_false]
    rfl
  | some sign =>
    -- the sign ends the stem, and nothing that follows matters
    have hname : x.name = x.stem ++ [sign] := by simp [name, hsign]
    obtain ⟨hstop, hpeek⟩ : sign.continuesName = false ∧
        (sign == '%'.toUInt8 || sign == '$'.toUInt8) = true := by
      rcases x.sign_eq sign (by simp [hsign]) with rfl | rfl <;> decide
    have hhead : ∀ b ∈ ([sign] ++ behind).head?, b.continuesName = false := by
      rintro b ⟨⟩
      exact hstop
    have htake : takeWhile Byte.continuesName (between before (x.stem ++ ([sign] ++ behind))) = _ :=
      takeWhile_between x.continues hhead
    have hsignPeek : (between (before ++ x.stem) ([sign] ++ behind)).peek = sign :=
      Cursor.peek_between _ _
    rw [hname, List.append_assoc, Expression.name, bind_of_ok htake, get_bind]
    simp only [hsignPeek, hpeek, if_true]
    rw [modify_bind, List.singleton_append, Cursor.advance_one_between, List.append_assoc]
    rfl

/-- A name is read as what it stands for, or is unknown. -/
theorem item_name (before : List Byte) (hbehind : ∀ b ∈ behind.head?, x.continuedBy b = false)
    (value? : Name → Option Value) :
    item value? (between before (x.name ++ behind)) =
      (match value? x.name with
        | some value => pure value
        | none => Cursor.failAt before.length .noSuchVariable : Scan Value)
        (between (before ++ x.name) behind) := by
  have hstarts : (between before (x.name ++ behind)).peek.startsName = true := by
    obtain ⟨b, tail, hname, hb⟩ := exists_name_eq_cons x
    rw [Cursor.peek_between, hname]
    exact hb
  rw [item_of_startsName hstarts, bind_of_ok (name_name before hbehind)]
  rfl

end Identifier

/-! ## Operands -/

theorem skipBlanks_between_cons (before : List Byte) {blanks : List Byte} (hblanks : Blank blanks)
    {b : Byte} (hb : b.isBlank = false) (rest : List Byte) :
    (between before (blanks ++ b :: rest)).skipBlanks = between (before ++ blanks) (b :: rest) :=
  Cursor.skipWhile_between before hblanks (by rintro _ ⟨⟩; exact hb)

/-- An operand with a sign. -/
theorem operand_of_sign (value? : Name → Option Value) (before : List Byte) {blanks : List Byte}
    (hblanks : Blank blanks) (negative : Bool) (rest : List Byte) (depth : ℕ) :
    Expression.operand value? (depth + 1) (between before (blanks ++ signByte negative :: rest)) =
      (Expression.operand value? depth >>= fun v =>
        if negative then negate before.length v else pure v : Scan Value)
        (between (before ++ blanks ++ [signByte negative]) rest) := by
  have hblank : (signByte negative).isBlank = false := by cases negative <;> rfl
  rw [Expression.operand, get_bind, modify_bind, skipBlanks_between_cons before hblanks hblank,
    get_bind, Cursor.peek_between]
  cases negative with
  | false =>
    change (modify (·.advance 1) >>= fun _ => Expression.operand value? depth : Scan Value) _ = _
    rw [modify_bind, Cursor.advance_one_between]
    exact congrFun (bind_pure _).symm _
  | true =>
    change (modify (·.advance 1) >>= fun _ =>
      Expression.operand value? depth >>= negate before.length : Scan Value) _ = _
    rw [modify_bind, Cursor.advance_one_between]
    rfl

/-- An operand in parentheses. -/
theorem operand_of_open (value? : Name → Option Value) (before : List Byte) {blanks : List Byte}
    (hblanks : Blank blanks) (rest : List Byte) (depth : ℕ) :
    Expression.operand value? (depth + 1) (between before (blanks ++ '('.toUInt8 :: rest)) =
      (levels (Expression.operand value? depth) 4 >>= fun v =>
        Cursor.expect ')' (.malformed (.missing ')')) >>= fun _ => pure v : Scan Value)
        (between (before ++ blanks ++ ['('.toUInt8]) rest) := by
  rw [Expression.operand, get_bind, modify_bind, skipBlanks_between_cons before hblanks rfl,
    get_bind, Cursor.peek_between]
  change (modify (·.advance 1) >>= fun _ => (joined (Expression.operand value? depth) >>= fun v =>
    Cursor.expect ')' (.malformed (.missing ')')) >>= fun _ => pure v : Scan Value) :
      Scan Value) _ = _
  rw [modify_bind, Cursor.advance_one_between, joined_eq_levels]

/-- An operand that is an item. -/
theorem operand_of_item (value? : Name → Option Value) (before : List Byte) {blanks : List Byte}
    (hblanks : Blank blanks) {p : Byte → Bool} {b : Byte} (hb : p b = true)
    (hblank : b.isBlank = false)
    (hminus : p '-'.toUInt8 = false) (hplus : p '+'.toUInt8 = false) (hopen : p '('.toUInt8 = false)
    (rest : List Byte) (depth : ℕ) :
    Expression.operand value? (depth + 1) (between before (blanks ++ b :: rest)) =
      item value? (between (before ++ blanks) (b :: rest)) := by
  have hskip := skipBlanks_between_cons before hblanks hblank rest
  have hpeek : p (between before (blanks ++ b :: rest)).skipBlanks.peek = true := by
    rw [hskip, Cursor.peek_between]
    exact hb
  rw [operand_skipBlanks_of_class hpeek hminus hplus hopen, hskip]

theorem expect_close (before behind : List Byte) (fault : Fault) :
    Cursor.expect ')' fault (between before (')'.toUInt8 :: behind)) =
      .ok () (between (before ++ [')'.toUInt8]) behind) := by
  have haccept : (between before (')'.toUInt8 :: behind)).accept ')'.toUInt8 =
      (true, between (before ++ [')'.toUInt8]) behind) := by
    have hskip : (between before (')'.toUInt8 :: behind)).skipBlanks =
        between before (')'.toUInt8 :: behind) :=
      Cursor.skipWhile_between_of_head? before (by rintro _ ⟨⟩; rfl)
    rw [Cursor.accept, hskip, Cursor.peek_between, Cursor.between_append]
    rfl
  rw [Cursor.expect_eq, haccept]
  rfl

end InlineA64.Expression
