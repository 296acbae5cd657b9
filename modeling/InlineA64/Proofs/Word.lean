import Mathlib.Data.Nat.Bitwise
import InlineA64.Encoding

/-!
# Fields of instruction words

`slice shift width word` reads a field of a finished word. A word is the disjunction of its base and
its parts (`Encoding.testBit_word`), so a field reads what was placed in it wherever the other parts
leave its bits alone.
-/

namespace InlineA64

/-- The number in the `width` bits from `shift` up. -/
def slice (shift width : ℕ) (word : UInt32) : ℕ := word.toNat / 2 ^ shift % 2 ^ width

theorem testBit_slice (shift width : ℕ) (word : UInt32) (i : ℕ) :
    (slice shift width word).testBit i =
      (decide (i < width) && word.toNat.testBit (i + shift)) := by
  rw [slice, Nat.testBit_mod_two_pow, Nat.testBit_div_two_pow]

/-- A field holds a number if its bits are those of the number. -/
theorem slice_eq_of_testBit {shift width value : ℕ} {word : UInt32} (hv : value < 2 ^ width)
    (h : ∀ i < width, word.toNat.testBit (i + shift) = value.testBit i) :
    slice shift width word = value := by
  apply Nat.eq_of_testBit_eq
  intro i
  rw [testBit_slice]
  by_cases hi : i < width
  · rw [decide_eq_true hi, Bool.true_and, h i hi]
  · have hle : 2 ^ width ≤ 2 ^ i := Nat.pow_le_pow_right (by decide) (by omega)
    rw [decide_eq_false hi, Bool.false_and, Nat.testBit_lt_two_pow (lt_of_lt_of_le hv hle)]

/-! ## Bits of parts -/

theorem testBit_or_word (a b : UInt32) (i : ℕ) :
    (a ||| b).toNat.testBit i = (a.toNat.testBit i || b.toNat.testBit i) := by
  rw [UInt32.toNat_or, Nat.testBit_or]

theorem testBit_and_word (a b : UInt32) (i : ℕ) :
    (a &&& b).toNat.testBit i = (a.toNat.testBit i && b.toNat.testBit i) := by
  rw [UInt32.toNat_and, Nat.testBit_and]

namespace Part

/-- The bits of a placed value. -/
theorem testBit_place {shift width value i : ℕ} (hs : shift < 32) :
    (place shift width value).toNat.testBit i =
      (decide (i < 32) && (decide (shift ≤ i) && (decide (i - shift < width) &&
        value.testBit (i - shift)))) := by
  have hshift : (UInt32.ofNat shift).toNat % 32 = shift := by
    rw [UInt32.toNat_ofNat']
    omega
  have hvalue (j : ℕ) : (UInt32.ofNat (value % 2 ^ width)).toNat.testBit j =
      (decide (j < 32) && (decide (j < width) && value.testBit j)) := by
    rw [UInt32.toNat_ofNat', Nat.testBit_mod_two_pow, Nat.testBit_mod_two_pow]
  rw [place, Nat.one_shiftLeft, UInt32.toNat_shiftLeft, hshift, Nat.testBit_mod_two_pow,
    Nat.testBit_shiftLeft, hvalue]
  by_cases hi : i < 32
  · simp only [hi, decide_true, Bool.true_and, ge_iff_le]
    rw [decide_eq_true (by omega : i - shift < 32), Bool.true_and]
  · simp only [hi, decide_false, Bool.false_and]

/-- Inside its field a placed value shows its own bits. -/
theorem testBit_place_inside {shift width value i : ℕ} (hfits : shift + width ≤ 32)
    (hi : i < width) : (place shift width value).toNat.testBit (i + shift) = value.testBit i := by
  rw [testBit_place (by omega), Nat.add_sub_cancel, decide_eq_true (by omega : i + shift < 32),
    decide_eq_true (Nat.le_add_left shift i), decide_eq_true hi, Bool.true_and, Bool.true_and,
    Bool.true_and]

end Part

namespace Encoding

@[simp]
theorem word_add (e : Encoding) (part : Part) : (e.add part).word = e.word ||| part.word := by
  rw [word, add, List.foldl_append]
  rfl

end Encoding

end InlineA64
