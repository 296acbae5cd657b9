import InlineA64.Proofs.Encoder

/-!
# Packing of instruction words

A part of an encoding owns bits of the word: the whole place of a number, or the bits of an option.
`Encoding.Packed` says that every number fits its place and that nothing is owned twice, neither by
two parts nor by a part and the opcode. In a packed encoding the disjunction that makes the word
loses nothing.

* `Encoding.Packed.toNat_word`: the word is the sum of the opcode and the parts;
* `Format.Describes.packed`: the encodings of a disjoint format are packed;
* `Instruction.word_lossless`: so is every encoding that a mnemonic of the table yields, and its
  operands read back from the word.
-/

namespace InlineA64

/-! ## Disjoint words -/

theorem and_eq_zero_iff_testBit {a b : UInt32} :
    a &&& b = 0 ↔ ∀ i, a.toNat.testBit i = true → b.toNat.testBit i = false := by
  constructor
  · intro h i ha
    have hbit := testBit_and_word a b i
    rwa [h, UInt32.toNat_zero, Nat.zero_testBit, ha, Bool.true_and, eq_comm] at hbit
  · intro h
    apply UInt32.toNat_inj.mp
    apply Nat.eq_of_testBit_eq
    intro i
    rw [testBit_and_word, UInt32.toNat_zero, Nat.zero_testBit]
    cases ha : a.toNat.testBit i with
    | false => rfl
    | true => rw [h i ha, Bool.and_false]

theorem and_eq_zero_mono {a b a' b' : UInt32} (h : a &&& b = 0)
    (ha : ∀ i, a'.toNat.testBit i = true → a.toNat.testBit i = true)
    (hb : ∀ i, b'.toNat.testBit i = true → b.toNat.testBit i = true) : a' &&& b' = 0 := by
  refine and_eq_zero_iff_testBit.mpr fun i ha' => Bool.eq_false_iff.mpr fun hb' => ?_
  have hfree := and_eq_zero_iff_testBit.mp h i (ha i ha')
  rw [hb i hb'] at hfree
  cases hfree

theorem toNat_or_of_and_eq_zero {a b : UInt32} (h : a &&& b = 0) :
    (a ||| b).toNat = a.toNat + b.toNat := by
  have hbits : a.toBitVec &&& b.toBitVec = 0 := by rw [← UInt32.toBitVec_and, h]; rfl
  calc (a ||| b).toNat = (a.toBitVec ||| b.toBitVec).toNat := rfl
    _ = (a.toBitVec + b.toBitVec).toNat := by rw [BitVec.add_eq_or_of_and_eq_zero _ _ hbits]
    _ = a.toNat + b.toNat := BitVec.toNat_add_of_and_eq_zero hbits

/-- Where no two of the words set the same bit, their disjunction is their sum. -/
theorem toNat_foldl_or {a : UInt32} {words : List UInt32}
    (h : (a :: words).Pairwise fun a b => a &&& b = 0) :
    (words.foldl (· ||| ·) a).toNat = a.toNat + (words.map UInt32.toNat).sum := by
  induction words generalizing a with
  | nil => rw [List.foldl_nil, List.map_nil, List.sum_nil, Nat.add_zero]
  | cons b words ih =>
    obtain ⟨ha, hb, hwords⟩ : (∀ c ∈ b :: words, a &&& c = 0) ∧ (∀ c ∈ words, b &&& c = 0) ∧
        words.Pairwise fun a b => a &&& b = 0 := by
      rwa [List.pairwise_cons, List.pairwise_cons] at h
    -- what sets no bit of the first two words sets none of their disjunction
    have hab : ((a ||| b) :: words).Pairwise fun a b => a &&& b = 0 := by
      refine List.pairwise_cons.mpr ⟨fun c hc => ?_, hwords⟩
      refine and_eq_zero_iff_testBit.mpr fun i hi => ?_
      rw [testBit_or_word, Bool.or_eq_true] at hi
      exact hi.elim (and_eq_zero_iff_testBit.mp (ha c (List.mem_cons_of_mem _ hc)) i)
        (and_eq_zero_iff_testBit.mp (hb c hc) i)
    rw [List.foldl_cons, ih hab, toNat_or_of_and_eq_zero (ha b List.mem_cons_self), List.map_cons,
      List.sum_cons, Nat.add_assoc]

/-! ## The bits of a part -/

namespace Part

/-- The bits that belong to a part, whether it sets them or not. -/
def claimed : Part → UInt32
  | register shift _ => place shift 5 31
  | field shift width _ => place shift width (2 ^ width - 1)
  | option bits => bits

/-- A number that fits its place is moved there and loses nothing. -/
theorem toNat_place {shift width value : ℕ} (hshift : shift < 32) (hplace : shift + width ≤ 32)
    (hvalue : value < 2 ^ width) : (place shift width value).toNat = value * 2 ^ shift := by
  have hword : value * 2 ^ shift < 2 ^ 32 :=
    calc value * 2 ^ shift < 2 ^ width * 2 ^ shift :=
          Nat.mul_lt_mul_of_pos_right hvalue (Nat.two_pow_pos shift)
      _ = 2 ^ (shift + width) := by rw [← Nat.pow_add, Nat.add_comm]
      _ ≤ 2 ^ 32 := Nat.pow_le_pow_right (by decide) hplace
  have hlow : value < 2 ^ 32 :=
    lt_of_le_of_lt (Nat.le_mul_of_pos_right value (Nat.two_pow_pos shift)) hword
  -- words are shifted modulo 32, and `shift` is below
  have hmoved : (UInt32.ofNat shift).toNat % 32 = shift := by
    rw [UInt32.toNat_ofNat']
    omega
  rw [place, Nat.one_shiftLeft, Nat.mod_eq_of_lt hvalue, UInt32.toNat_shiftLeft, hmoved,
    UInt32.toNat_ofNat', Nat.mod_eq_of_lt hlow, Nat.shiftLeft_eq, Nat.mod_eq_of_lt hword]

end Part

namespace Slot

variable {slot : Slot} {part : Part}

/-- A part owns no bit outside of its slot. -/
theorem testBit_claimed_of_owned (hfits : slot.Fits part) {i : ℕ}
    (h : part.claimed.toNat.testBit i = true) : slot.claimed.toNat.testBit i = true := by
  cases slot with
  | register shift role =>
    obtain ⟨r, rfl, -⟩ := hfits
    exact h
  | operand shift width =>
    obtain ⟨value, rfl, -⟩ := hfits
    exact h
  | constant | option =>
    obtain rfl := hfits
    exact h
  | choice mask =>
    obtain ⟨bits, rfl, hmask⟩ := hfits
    rw [Part.claimed, ← hmask, testBit_and_word, Bool.and_eq_true] at h
    exact h.2

/-- A slot takes no number that is too wide for it, and its place lies within the word. -/
theorem fits_of_number? (hb : slot.bounded = true) (hfits : slot.Fits part)
    {shift width value : ℕ} (h : part.number? = some (shift, width, value)) :
    shift < 32 ∧ shift + width ≤ 32 ∧ value < 2 ^ width := by
  -- a format that passes its checks leaves room for its numbers; options are none
  cases slot with
  | register shift role =>
    obtain ⟨r, rfl, hrole⟩ := hfits
    obtain ⟨rfl, rfl, rfl⟩ : _ ∧ _ ∧ _ := by simpa [Part.number?] using h
    have hvalid : r.Valid := by cases role <;> exact hrole.1
    rw [bounded, decide_eq_true_eq] at hb
    exact ⟨by omega, hb, Nat.lt_succ_of_le hvalid.number_le⟩
  | operand =>
    obtain ⟨value, rfl, hvalue⟩ := hfits
    obtain ⟨rfl, rfl, rfl⟩ : _ ∧ _ ∧ _ := by simpa [Part.number?] using h
    rw [bounded, Bool.and_eq_true, decide_eq_true_eq, decide_eq_true_eq] at hb
    exact ⟨hb.1, hb.2, hvalue⟩
  | constant =>
    obtain rfl := hfits
    obtain ⟨rfl, rfl, rfl⟩ : _ ∧ _ ∧ _ := by simpa [Part.number?] using h
    simp only [bounded, Bool.and_eq_true, decide_eq_true_eq] at hb
    exact ⟨hb.1.1, hb.1.2, hb.2⟩
  | option =>
    obtain rfl := hfits
    cases h
  | choice =>
    obtain ⟨bits, rfl, -⟩ := hfits
    cases h

end Slot

/-! ## Packed encodings -/

namespace Encoding

/-- The numbers fit their places, and no bit belongs to two parts or to a part and the opcode. -/
structure Packed (e : Encoding) : Prop where
  fits : ∀ part ∈ e.parts, ∀ shift width value, part.number? = some (shift, width, value) →
    shift < 32 ∧ shift + width ≤ 32 ∧ value < 2 ^ width
  disjoint : (e.base :: e.parts.map Part.claimed).Pairwise fun a b => a &&& b = 0

namespace Packed

variable {e : Encoding} (h : e.Packed)
include h

/-- The mask that keeps a number in its place takes nothing away from it. -/
theorem toNat_part {part : Part} (hpart : part ∈ e.parts) {shift width value : ℕ}
    (hnumber : part.number? = some (shift, width, value)) :
    part.word.toNat = value * 2 ^ shift := by
  obtain ⟨hshift, hplace, hvalue⟩ := h.fits part hpart shift width value hnumber
  rw [Part.word_of_number? hnumber, Part.toNat_place hshift hplace hvalue]

/-- A part sets no bit that does not belong to it. -/
theorem testBit_claimed_of_mem {part : Part} (hpart : part ∈ e.parts) {i : ℕ}
    (hi : part.word.toNat.testBit i = true) : part.claimed.toNat.testBit i = true := by
  have hfits := h.fits part hpart
  cases part with
  | register shift r =>
    have hfull : (Part.place shift 5 (2 ^ 5 - 1)).toNat.testBit i = true :=
      Slot.testBit_place_le (hfits _ _ _ rfl).1 hi
    exact hfull
  | field shift width value => exact Slot.testBit_place_le (hfits _ _ _ rfl).1 hi
  | option bits => exact hi

/-- The word is the sum of the opcode and the parts. -/
theorem toNat_word :
    e.word.toNat = e.base.toNat + (e.parts.map fun part => part.word.toNat).sum := by
  have hdisjoint : (e.base :: e.parts.map Part.word).Pairwise fun a b => a &&& b = 0 := by
    -- what a part sets is among what it owns, and no bit is owned twice
    have hclaimed := h.disjoint
    simp only [List.pairwise_cons, List.pairwise_map, List.mem_map, forall_exists_index, and_imp,
      forall_apply_eq_imp_iff₂] at hclaimed ⊢
    obtain ⟨hbase, hparts⟩ := hclaimed
    exact ⟨fun part hpart => and_eq_zero_mono (hbase part hpart) (fun _ hi => hi)
        fun _ => h.testBit_claimed_of_mem hpart,
      hparts.imp_of_mem fun ha hb hab => and_eq_zero_mono hab
        (fun _ => h.testBit_claimed_of_mem ha) fun _ => h.testBit_claimed_of_mem hb⟩
  have hsum := toNat_foldl_or hdisjoint
  rwa [List.foldl_map, List.map_map] at hsum

end Packed

end Encoding

namespace Format.Describes

variable {f : Format} {e : Encoding}

/-- The opcode and the parts own no bit beyond those of the format. -/
theorem testBit_claimed_of_mem (h : f.Describes e) {word : UInt32}
    (hword : word ∈ e.base :: e.parts.map Part.claimed) {i : ℕ}
    (hi : word.toNat.testBit i = true) : f.claimed.toNat.testBit i = true := by
  induction h with
  | of base =>
    obtain rfl : word = base := List.mem_singleton.mp hword
    exact hi
  | add _ hfits ih =>
    rw [Format.claimed_add, testBit_or_word, Bool.or_eq_true]
    rw [Encoding.add, List.map_append, ← List.cons_append, List.mem_append] at hword
    rcases hword with hold | hnew
    · exact Or.inl (ih hold)
    · rw [List.map_singleton, List.mem_singleton] at hnew
      rw [hnew] at hi
      exact Or.inr (Slot.testBit_claimed_of_owned hfits hi)
  | skip mask _ ih =>
    rw [Format.choice, Format.claimed_add, testBit_or_word, Bool.or_eq_true]
    exact Or.inl (ih hword)

/-- The encodings of a disjoint format are packed. -/
theorem packed (h : f.Describes e) (hd : f.disjoint = true) : e.Packed := by
  induction h with
  | of base => exact ⟨fun _ hpart => absurd hpart List.not_mem_nil, List.pairwise_singleton _ _⟩
  | @add f e slot part hf hfits ih =>
    obtain ⟨hd, hb, hdisjoint⟩ := (Format.disjoint_add _ _).mp hd
    refine ⟨fun other hother shift width value hnumber => ?_, ?_⟩
    · rcases List.mem_append.mp hother with hold | hnew
      · exact (ih hd).fits other hold shift width value hnumber
      · rw [List.mem_singleton.mp hnew] at hnumber
        exact Slot.fits_of_number? hb hfits hnumber
    -- the new part stays in its slot, and the others in the bits of the format so far
    · rw [Encoding.add, List.map_append, List.map_singleton, ← List.cons_append,
        List.pairwise_append]
      refine ⟨(ih hd).disjoint, List.pairwise_singleton _ _, fun word hword last hlast => ?_⟩
      rw [List.mem_singleton.mp hlast]
      exact and_eq_zero_mono hdisjoint (fun _ => hf.testBit_claimed_of_mem hword)
        fun _ => Slot.testBit_claimed_of_owned hfits
  | skip mask _ ih => exact ih ((Format.disjoint_add _ _).mp hd).1

/-- In a word of a disjoint format every number reads back from its place. -/
theorem slice_of_mem (h : f.Describes e) (hd : f.disjoint = true) {part : Part}
    (hpart : part ∈ e.parts) {shift width value : ℕ}
    (hnumber : part.number? = some (shift, width, value)) : slice shift width e.word = value :=
  slice_eq_of_testBit ((h.packed hd).fits part hpart shift width value hnumber).2.2
    fun _ hi => h.testBit_word_of_mem hd hpart hnumber hi

end Format.Describes

/-! ## Instructions -/

namespace Instruction

variable {σ Slot : Type} {m : Mnemonic} {i : Instruction} {around : Surroundings σ Slot}
  {r r' : Reading σ} {e : Encoding}

/-- The word of an instruction that is accepted loses nothing of what goes into it. Each register
number and each operand fits its place, so that it is moved there as it is, and reads back from
there; the opcode, these places and the option bits are pairwise disjoint; and the word is the sum
of the opcode and the parts. -/
theorem word_lossless (hm : m ∈ Mnemonic.all) (hi : m.meaning = .instruction i)
    (h : i.encoder.run around r = .ok e r') :
    (∀ part ∈ e.parts, ∀ shift width value, part.number? = some (shift, width, value) →
      shift + width ≤ 32 ∧ value < 2 ^ width ∧ part.word.toNat = value * 2 ^ shift ∧
        slice shift width e.word = value) ∧
    (e.base :: e.parts.map Part.claimed).Pairwise (fun a b => a &&& b = 0) ∧
    e.word.toNat = e.base.toNat + (e.parts.map fun part => part.word.toNat).sum := by
  -- the run has filled one of the formats, and that format has passed the checks
  obtain ⟨⟨f, hf, hdescribes⟩, -⟩ := i.encoder_ensures.run h
  obtain ⟨hdisjoint, -⟩ := Mnemonic.formats_checked hm hi hf
  have hpacked : e.Packed := hdescribes.packed hdisjoint
  refine ⟨fun part hpart shift width value hnumber => ?_, hpacked.disjoint, hpacked.toNat_word⟩
  obtain ⟨-, hplace, hvalue⟩ := hpacked.fits part hpart shift width value hnumber
  exact ⟨hplace, hvalue, hpacked.toNat_part hpart hnumber,
    hdescribes.slice_of_mem hdisjoint hpart hnumber⟩

/-- An authenticated load whose base is moved back by a doubleword: the sign of the offset goes into
bit 22 and the rest of it into bits 12 to 20, with the option of moving the base between them and
the registers. -/
theorem word_lossless_authenticated :
    ∃ (e : Encoding) (r' : Reading Machine),
      (authenticatedLoad 0xf8200400).encoder.run ⟨Machine.environment, ⟨0, 0, .standard⟩, "LDRAA"⟩
        ⟨.ofString " X1,[X2,#-8]!", .ofBase 0, []⟩ = .ok e r' ∧
      slice 22 1 e.word = 1 ∧ slice 12 9 e.word = 511 ∧ slice 5 5 e.word = 2 ∧
      slice 0 5 e.word = 1 ∧
      e.word.toNat = 0xf8200400 + 0x800 + 1 * 2 ^ 22 + 511 * 2 ^ 12 + 2 * 2 ^ 5 + 1 := by
  -- what the reader makes of the operands
  let e := Encoding.of 0xf8200400 |>.option 0x800 |>.field 22 1 1 |>.imm9 511
    |>.rn (.x 2) |>.rt (.x 1)
  obtain ⟨r', h⟩ : ∃ r', (authenticatedLoad 0xf8200400).encoder.run
      ⟨Machine.environment, ⟨0, 0, .standard⟩, "LDRAA"⟩
      ⟨.ofString " X1,[X2,#-8]!", .ofBase 0, []⟩ = .ok e r' := by
    apply run'_eq_some.mp
    decide +kernel
  have hentry : ⟨"LDRAA", .instruction (authenticatedLoad 0xf8200400)⟩ ∈ Mnemonic.all := by
    decide +kernel
  obtain ⟨hnumbers, -, hsum⟩ := word_lossless hentry rfl h
  have hslice (part : Part) (hpart : part ∈ e.parts) {shift width value : ℕ}
      (hnumber : part.number? = some (shift, width, value)) : slice shift width e.word = value :=
    (hnumbers part hpart shift width value hnumber).2.2.2
  exact ⟨e, r', h, hslice (.field 22 1 1) (by decide) rfl,
    hslice (.field 12 9 511) (by decide) rfl,
    hslice (.register 5 (.x 2)) (by decide) rfl,
    hslice (.register 0 (.x 1)) (by decide) rfl,
    hsum.trans (by decide +kernel)⟩

end Instruction

end InlineA64
