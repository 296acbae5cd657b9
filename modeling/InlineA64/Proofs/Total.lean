import InlineA64.Proofs.Packing

/-!
# Words as sums

The word of a packed encoding is the sum of its opcode and its parts. `Encoding.total` is that sum
as a number, with one rule for each way of adding to an encoding, so that a field is read off a word
by arithmetic. What a register field means depends on its `Role`: `Role.register` is the register
that a processor finds there.
-/

namespace InlineA64

/-- What a part adds to the number of the word. -/
def Part.amount : Part → ℕ
  | register shift r => r.number * 2 ^ shift
  | field shift _ value => value * 2 ^ shift
  | option bits => bits.toNat

namespace Encoding

/-- The sum of the opcode and the parts. -/
def total (e : Encoding) : ℕ :=
  e.base.toNat + (e.parts.map Part.amount).sum

section

variable (e : Encoding) (r : Register)

@[simp]
theorem total_of (base : UInt32) : (of base).total = base.toNat := rfl

@[simp]
theorem total_add (part : Part) : (e.add part).total = e.total + part.amount := by
  simp [total, add, Nat.add_assoc]

@[simp]
theorem total_field (shift width value : ℕ) :
    (e.field shift width value).total = e.total + value * 2 ^ shift := by
  simp [field, Part.amount]

@[simp]
theorem total_option (bits : UInt32) : (e.option bits).total = e.total + bits.toNat := by
  simp [option, Part.amount]

@[simp]
theorem total_optionIf (condition : Bool) (bits : UInt32) :
    (e.optionIf condition bits).total = e.total + condition.toNat * bits.toNat := by
  cases condition <;> simp [optionIf]

@[simp]
theorem total_sfAndN : (e.sfAndN r).total = e.total + r.isWide.toNat * (2 ^ 31 + 2 ^ 22) := by
  simp [sfAndN]

@[simp]
theorem total_rd : (e.rd r).total = e.total + r.number := by
  simp [rd, Part.amount]

@[simp]
theorem total_rt : (e.rt r).total = e.total + r.number := total_rd e r

@[simp]
theorem total_rt2 : (e.rt2 r).total = e.total + r.number * 2 ^ 10 := by
  simp [rt2, Part.amount]

@[simp]
theorem total_rn : (e.rn r).total = e.total + r.number * 2 ^ 5 := by
  simp [rn, Part.amount]

@[simp]
theorem total_rm : (e.rm r).total = e.total + r.number * 2 ^ 16 := by
  simp [rm, Part.amount]

@[simp]
theorem total_immr (value : ℕ) : (e.immr value).total = e.total + value * 2 ^ 16 :=
  total_field e 16 6 value

@[simp]
theorem total_imms (value : ℕ) : (e.imms value).total = e.total + value * 2 ^ 10 :=
  total_field e 10 6 value

end

/-- The number of the word of a packed encoding. -/
theorem Packed.toNat_word_eq_total {e : Encoding} (h : e.Packed) : e.word.toNat = e.total := by
  rw [h.toNat_word, total]
  congr 2
  apply List.map_congr_left
  intro part hpart
  cases part with
  | register shift r => exact h.toNat_part hpart rfl
  | field shift width value => exact h.toNat_part hpart rfl
  | option bits => rfl

end Encoding

/-- The number of a word of a disjoint format. -/
theorem Format.Describes.toNat_word {f : Format} {e : Encoding} (h : f.Describes e)
    (hd : f.disjoint = true) : e.word.toNat = e.total :=
  (h.packed hd).toNat_word_eq_total

/-- The number of the word of an instruction that is accepted. -/
theorem Instruction.toNat_word {σ Slot : Type} {m : Mnemonic} {i : Instruction}
    {around : Surroundings σ Slot} {r r' : Reading σ} {e : Encoding} (hm : m ∈ Mnemonic.all)
    (hi : m.meaning = .instruction i) (h : i.encoder.run around r = .ok e r') :
    e.word.toNat = e.total := by
  -- the run has filled one of the formats, and that format has passed the checks
  obtain ⟨⟨f, hf, hdescribes⟩, -⟩ := i.encoder_ensures.run h
  obtain ⟨hdisjoint, -⟩ := Mnemonic.formats_checked hm hi hf
  exact hdescribes.toNat_word hdisjoint

/-! ## Reading registers -/

theorem Role.Admits.valid {role : Role} {r : Register} (h : role.Admits r) : r.Valid := by
  cases role with
  | plain => exact h.1
  | address => exact h.1

theorem Register.isWide_iff {r : Register} : r.isWide = true ↔ r.width = .x64 := beq_iff_eq

/-- The width that the size bit of data processing stands for. -/
def Width.ofBit (bit : ℕ) : Width :=
  if bit = 1 then .x64 else .w32

@[simp]
theorem Width.ofBit_isWide (r : Register) : ofBit r.isWide.toNat = r.width := by
  unfold Register.isWide ofBit
  cases r.width <;> rfl

/-- The register that a processor finds for a number in a field of this role. -/
def Role.register (role : Role) (width : Width) (number : ℕ) : Register :=
  ⟨number, width, role == plain && number == 31⟩

/-- A number tells the register that has been written for it, if that can be named in the field. -/
theorem Role.register_number {role : Role} {r : Register} {width : Width} (h : role.Admits r)
    (hwidth : r.width = width) : role.register width r.number = r := by
  subst hwidth
  obtain ⟨number, width, zero⟩ := r
  cases role with
  | address =>
    obtain ⟨-, rfl⟩ := h
    rfl
  | plain =>
    obtain ⟨hvalid, hsp⟩ := h
    unfold Register.isStackPointer at hsp
    -- the stack pointer is not admitted, so 31 is the zero register
    cases zero with
    | true =>
      obtain rfl : number = 31 := hvalid.number_of_zero rfl
      rfl
    | false =>
      rw [Bool.not_false, Bool.and_true] at hsp
      simp [register, hsp]

end InlineA64
