import InlineA64.Proofs.Word

/-!
# Formats of instruction words

A `Format` is what is known of an instruction word before its operands: the opcode, and the slots
that operands and options go into. `Format.Describes` relates a format to the encodings that fill
it, and `Format.disjoint` asks whether any two of its slots claim the same bit, which is a
computation on the format alone.

* `Format.Describes.slice_register`, `Format.Describes.slice_field`: in a word of a disjoint format
  every register and every operand reads back from its field;
* `Format.Describes.testBit_fixed`: the bits that no operand can change are those of the format.
-/

namespace InlineA64

/-- What the number 31 stands for in a register field. -/
inductive Role where
  /-- The zero register; the stack pointer cannot be named. -/
  | plain
  /-- The stack pointer; the zero register cannot be named. -/
  | address
deriving DecidableEq, Repr

/-- The registers that there are: the zero register is number 31 and no number is greater. -/
structure Register.Valid (r : Register) : Prop where
  number_le : r.number ≤ 31
  number_of_zero : r.zero = true → r.number = 31

/-- The register can be named in a field of this role. -/
def Role.Admits : Role → Register → Prop
  | plain, r => r.Valid ∧ r.isStackPointer = false
  | address, r => r.Valid ∧ r.zero = false

/-- A place in an instruction word. -/
inductive Slot where
  /-- A register number in five bits. -/
  | register (shift : ℕ) (role : Role)
  /-- A value of an operand. -/
  | operand (shift width : ℕ)
  /-- A value that the format fixes. -/
  | constant (shift width value : ℕ)
  /-- Option bits that are always set. -/
  | option (bits : UInt32)
  /-- Option bits that may be set or not. -/
  | choice (mask : UInt32)
deriving DecidableEq, Repr

namespace Slot

/-- The part fills the slot. -/
def Fits : Slot → Part → Prop
  | register shift role, part => ∃ r, part = .register shift r ∧ role.Admits r
  | operand shift width, part => ∃ value, part = .field shift width value ∧ value < 2 ^ width
  | constant shift width value, part => part = .field shift width value
  | option bits, part => part = .option bits
  | choice mask, part => ∃ bits, part = .option bits ∧ bits &&& mask = bits

/-- The slot lies within the word, and what it fixes within the slot. -/
def bounded : Slot → Bool
  | register shift _ => shift + 5 ≤ 32
  | operand shift width => shift < 32 && shift + width ≤ 32
  | constant shift width value => shift < 32 && shift + width ≤ 32 && value < 2 ^ width
  | option _ | choice _ => true

/-- The bits that belong to the slot. -/
def claimed : Slot → UInt32
  | register shift _ => Part.place shift 5 31
  | operand shift width | constant shift width _ => Part.place shift width (2 ^ width - 1)
  | option bits => bits
  | choice mask => mask

/-- The bits of the slot that the operands decide. -/
def free : Slot → UInt32
  | register shift _ => Part.place shift 5 31
  | operand shift width => Part.place shift width (2 ^ width - 1)
  | constant .. | option _ => 0
  | choice mask => mask

/-- The bits of the slot that are set whatever the operands are. -/
def fixed : Slot → UInt32
  | constant shift width value => Part.place shift width value
  | option bits => bits
  | register .. | operand .. | choice _ => 0

end Slot

/-- The opcode of an instruction word and the slots around it. -/
structure Format where
  /-- The opcode. -/
  base : UInt32
  /-- The slots, in the order in which they are filled. -/
  slots : List Slot
deriving DecidableEq, Repr

namespace Format

/-! ## Building formats -/

/-- The opcode alone. -/
def of (base : UInt32) : Format := ⟨base, []⟩

/-- Add a slot. -/
def add (f : Format) (slot : Slot) : Format :=
  { f with slots := f.slots ++ [slot] }

/-- Add a register number in the bits from `shift` up. -/
def register (f : Format) (shift : ℕ) (role : Role) : Format := f.add (.register shift role)

/-- Add a value of an operand in the `width` bits from `shift` up. -/
def operand (f : Format) (shift width : ℕ) : Format := f.add (.operand shift width)

/-- Add a fixed value in the `width` bits from `shift` up. -/
def constant (f : Format) (shift width value : ℕ) : Format := f.add (.constant shift width value)

/-- Add option bits that are always set. -/
def option (f : Format) (bits : UInt32) : Format := f.add (.option bits)

/-- Add option bits if the condition holds. -/
def optionIf (f : Format) (condition : Bool) (bits : UInt32) : Format :=
  if condition then f.option bits else f

/-- Add option bits that may be set or not. -/
def choice (f : Format) (mask : UInt32) : Format := f.add (.choice mask)

/-! ## Encodings of a format -/

/-- The encoding fills the slots of the format. A choice that sets nothing need not be made. -/
inductive Describes : Format → Encoding → Prop
  | of (base : UInt32) : Describes (.of base) (.of base)
  | add {f : Format} {e : Encoding} {slot : Slot} {part : Part} :
      Describes f e → slot.Fits part → Describes (f.add slot) (e.add part)
  | skip {f : Format} {e : Encoding} (mask : UInt32) :
      Describes f e → Describes (f.choice mask) e

/-! ## Checks on a format -/

/-- The slots lie within the word, and none claims a bit of another one or of `taken`. -/
def slotsDisjoint : UInt32 → List Slot → Bool
  | _, [] => true
  | taken, slot :: slots =>
    slot.bounded && taken &&& slot.claimed == 0 && slotsDisjoint (taken ||| slot.claimed) slots

/-- The slots lie within the word, and no two of them or of them and the opcode claim the same
bit. -/
def disjoint (f : Format) : Bool :=
  slotsDisjoint f.base f.slots

/-- The bits of the opcode and of all slots. -/
def claimed (f : Format) : UInt32 :=
  f.slots.foldl (fun word slot => word ||| slot.claimed) f.base

/-- The bits that the operands decide. -/
def free (f : Format) : UInt32 :=
  f.slots.foldl (fun word slot => word ||| slot.free) 0

/-- The bits that are set whatever the operands are. -/
def fixed (f : Format) : UInt32 :=
  f.slots.foldl (fun word slot => word ||| slot.fixed) f.base

section Add

variable (f : Format) (slot : Slot)

theorem claimed_add : (f.add slot).claimed = f.claimed ||| slot.claimed := by
  rw [claimed, add, List.foldl_append]
  rfl

theorem free_add : (f.add slot).free = f.free ||| slot.free := by
  rw [free, add, List.foldl_append]
  rfl

theorem fixed_add : (f.add slot).fixed = f.fixed ||| slot.fixed := by
  rw [fixed, add, List.foldl_append]
  rfl

theorem slotsDisjoint_append (taken : UInt32) (slots : List Slot) :
    slotsDisjoint taken (slots ++ [slot]) =
      (slotsDisjoint taken slots && (slot.bounded &&
        slots.foldl (fun word slot => word ||| slot.claimed) taken &&& slot.claimed == 0)) := by
  induction slots generalizing taken with
  | nil => simp only [List.nil_append, slotsDisjoint, Bool.and_true, Bool.true_and, List.foldl_nil]
  | cons head slots ih =>
    simp only [List.cons_append, slotsDisjoint, ih, List.foldl_cons, Bool.and_assoc]

/-- A format is disjoint if it is without its last slot and that slot lies within the word and
claims no bit of the others. -/
theorem disjoint_add :
    (f.add slot).disjoint = true ↔
      f.disjoint = true ∧ slot.bounded = true ∧ f.claimed &&& slot.claimed = 0 := by
  rw [disjoint, add, slotsDisjoint_append, Bool.and_eq_true, Bool.and_eq_true, beq_iff_eq]
  rfl

end Add

end Format

/-! ## Bits of slots and of the parts that fill them -/

namespace Slot

variable {slot : Slot} {part : Part}

/-- A slot of a place in the word claims the bits of the place. -/
theorem testBit_place_full {shift width i : ℕ} (hs : shift < 32) :
    (Part.place shift width (2 ^ width - 1)).toNat.testBit i =
      (decide (i < 32) && (decide (shift ≤ i) && decide (i - shift < width))) := by
  rw [Part.testBit_place hs, Nat.testBit_two_pow_sub_one, Bool.and_self]

theorem testBit_place_le {shift width value i : ℕ} (hs : shift < 32)
    (h : (Part.place shift width value).toNat.testBit i = true) :
    (Part.place shift width (2 ^ width - 1)).toNat.testBit i = true := by
  rw [Part.testBit_place hs] at h
  rw [testBit_place_full hs]
  simp only [Bool.and_eq_true] at h ⊢
  exact ⟨h.1, h.2.1, h.2.2.1⟩

/-- A part sets no bit outside of its slot. -/
theorem testBit_claimed_of_fits (hb : slot.bounded = true) (hfits : slot.Fits part) {i : ℕ}
    (h : part.word.toNat.testBit i = true) : slot.claimed.toNat.testBit i = true := by
  cases slot with
  | register shift role =>
    obtain ⟨r, rfl, -⟩ := hfits
    rw [bounded, decide_eq_true_eq] at hb
    have hfull : (Part.place shift 5 (2 ^ 5 - 1)).toNat.testBit i = true :=
      testBit_place_le (by omega) h
    exact hfull
  | operand shift width =>
    obtain ⟨value, rfl, -⟩ := hfits
    rw [bounded, Bool.and_eq_true, decide_eq_true_eq] at hb
    exact testBit_place_le hb.1 h
  | constant shift width value =>
    obtain rfl := hfits
    simp only [bounded, Bool.and_eq_true, decide_eq_true_eq] at hb
    exact testBit_place_le hb.1.1 h
  | option bits =>
    obtain rfl := hfits
    exact h
  | choice mask =>
    obtain ⟨bits, rfl, hmask⟩ := hfits
    -- the bits that are chosen are within the mask
    rw [Part.word, ← hmask, testBit_and_word, Bool.and_eq_true] at h
    exact h.2

/-- A slot that fixes nothing leaves nothing set where the operands decide nothing. -/
theorem testBit_of_fixed_eq_zero (hb : slot.bounded = true) (hfits : slot.Fits part)
    (hclaimed : slot.free = slot.claimed) (hfixed : slot.fixed = 0) {i : ℕ}
    (hfree : slot.free.toNat.testBit i = false) :
    part.word.toNat.testBit i = slot.fixed.toNat.testBit i := by
  rw [hfixed, UInt32.toNat_zero, Nat.zero_testBit, Bool.eq_false_iff]
  intro hpart
  -- all that such a slot claims is free, hence a bit that the part sets is free too
  rw [hclaimed, testBit_claimed_of_fits hb hfits hpart] at hfree
  cases hfree

/-- Where the operands decide nothing a part sets what its slot fixes. -/
theorem testBit_fixed_of_fits (hb : slot.bounded = true) (hfits : slot.Fits part) {i : ℕ}
    (hfree : slot.free.toNat.testBit i = false) :
    part.word.toNat.testBit i = slot.fixed.toNat.testBit i := by
  -- what a slot leaves open it does not fix, and the others have one part only
  cases slot with
  | register | operand | choice => exact testBit_of_fixed_eq_zero hb hfits rfl rfl hfree
  | constant | option =>
    obtain rfl := hfits
    rfl

end Slot

/-! ## Words of a format -/

/-- Where a part puts a number, and which one. -/
def Part.number? : Part → Option (ℕ × ℕ × ℕ)
  | .register shift r => some (shift, 5, r.number)
  | .field shift width value => some (shift, width, value)
  | .option _ => none

theorem Part.word_of_number? {part : Part} {shift width value : ℕ}
    (h : part.number? = some (shift, width, value)) : part.word = place shift width value := by
  cases part with
  | register | field =>
    obtain ⟨rfl, rfl, rfl⟩ : _ ∧ _ ∧ _ := by simpa [number?] using h
    rfl
  | option => cases h

namespace Slot

/-- A slot for a number lies within the word, and claims each bit of its place. -/
theorem claimed_of_number? {slot : Slot} {part : Part} (hb : slot.bounded = true)
    (hfits : slot.Fits part) {shift width value : ℕ}
    (h : part.number? = some (shift, width, value)) :
    shift + width ≤ 32 ∧ ∀ i < width, slot.claimed.toNat.testBit (i + shift) = true := by
  have hplace (hle : shift + width ≤ 32) (i : ℕ) (hi : i < width) :
      (Part.place shift width (2 ^ width - 1)).toNat.testBit (i + shift) = true := by
    rw [Part.testBit_place_inside hle hi, Nat.testBit_two_pow_sub_one, decide_eq_true hi]
  -- options and choices contribute bits, but no number
  cases slot with
  | register =>
    obtain ⟨r, rfl, -⟩ := hfits
    obtain ⟨rfl, rfl, rfl⟩ : _ ∧ _ ∧ _ := by simpa [Part.number?] using h
    rw [bounded, decide_eq_true_eq] at hb
    exact ⟨hb, hplace hb⟩
  | operand =>
    obtain ⟨value, rfl, -⟩ := hfits
    obtain ⟨rfl, rfl, rfl⟩ : _ ∧ _ ∧ _ := by simpa [Part.number?] using h
    rw [bounded, Bool.and_eq_true, decide_eq_true_eq, decide_eq_true_eq] at hb
    exact ⟨hb.2, hplace hb.2⟩
  | constant =>
    obtain rfl := hfits
    obtain ⟨rfl, rfl, rfl⟩ : _ ∧ _ ∧ _ := by simpa [Part.number?] using h
    simp only [bounded, Bool.and_eq_true, decide_eq_true_eq] at hb
    exact ⟨hb.1.2, hplace hb.1.2⟩
  | option =>
    obtain rfl := hfits
    cases h
  | choice =>
    obtain ⟨bits, rfl, -⟩ := hfits
    cases h

end Slot

namespace Format.Describes

variable {f : Format} {e : Encoding}

/-- Each part fills one of the slots. -/
theorem exists_slot (h : f.Describes e) {part : Part} (hpart : part ∈ e.parts) :
    ∃ slot ∈ f.slots, slot.Fits part := by
  induction h with
  | of base => exact absurd hpart List.not_mem_nil
  | add _ hfits ih =>
    rcases List.mem_append.mp hpart with hold | hnew
    · obtain ⟨slot, hmem, hslot⟩ := ih hold
      exact ⟨slot, List.mem_append_left _ hmem, hslot⟩
    · rw [List.mem_singleton.mp hnew]
      exact ⟨_, List.mem_append_right _ (List.mem_singleton_self _), hfits⟩
  | skip mask _ ih =>
    obtain ⟨slot, hmem, hslot⟩ := ih hpart
    exact ⟨slot, List.mem_append_left _ hmem, hslot⟩

/-- A word sets no bit beyond those of the opcode and the slots. -/
theorem testBit_claimed (h : f.Describes e) (hd : f.disjoint = true) {i : ℕ}
    (hi : e.word.toNat.testBit i = true) : f.claimed.toNat.testBit i = true := by
  induction h with
  | of base => exact hi
  | add _ hfits ih =>
    obtain ⟨hd, hb, -⟩ := (Format.disjoint_add _ _).mp hd
    rw [Format.claimed_add, testBit_or_word, Bool.or_eq_true]
    rw [Encoding.word_add, testBit_or_word, Bool.or_eq_true] at hi
    exact hi.imp (ih hd) (Slot.testBit_claimed_of_fits hb hfits)
  | skip mask _ ih =>
    obtain ⟨hd, -, -⟩ := (Format.disjoint_add _ _).mp hd
    rw [Format.choice, Format.claimed_add, testBit_or_word, Bool.or_eq_true]
    exact Or.inl (ih hd hi)

/-- Where the operands decide nothing the word is what the format fixes. -/
theorem testBit_fixed (h : f.Describes e) (hd : f.disjoint = true) {i : ℕ}
    (hfree : f.free.toNat.testBit i = false) :
    e.word.toNat.testBit i = f.fixed.toNat.testBit i := by
  -- a format grows by one slot at a time, and so do its free and its fixed bits
  induction h with
  | of base => rfl
  | add _ hfits ih =>
    obtain ⟨hd, hb, -⟩ := (Format.disjoint_add _ _).mp hd
    rw [Format.free_add, testBit_or_word, Bool.or_eq_false_iff] at hfree
    rw [Encoding.word_add, Format.fixed_add, testBit_or_word, testBit_or_word, ih hd hfree.1,
      Slot.testBit_fixed_of_fits hb hfits hfree.2]
  | skip mask _ ih =>
    obtain ⟨hd, -, -⟩ := (Format.disjoint_add _ _).mp hd
    rw [Format.choice, Format.free_add, testBit_or_word, Bool.or_eq_false_iff] at hfree
    rw [Format.choice, Format.fixed_add, testBit_or_word, ih hd hfree.1, Slot.fixed,
      UInt32.toNat_zero, Nat.zero_testBit, Bool.or_false]

/-- The place of a number is claimed by the format as a whole. -/
theorem claimed_of_mem (h : f.Describes e) (hd : f.disjoint = true) {part : Part}
    (hpart : part ∈ e.parts) {shift width value : ℕ}
    (hnumber : part.number? = some (shift, width, value)) :
    shift + width ≤ 32 ∧ ∀ i < width, f.claimed.toNat.testBit (i + shift) = true := by
  induction h with
  | of base => exact absurd hpart List.not_mem_nil
  | add _ hfits ih =>
    obtain ⟨hd, hb, -⟩ := (Format.disjoint_add _ _).mp hd
    simp only [Format.claimed_add, testBit_or_word, Bool.or_eq_true]
    rcases List.mem_append.mp hpart with hold | hnew
    · exact ⟨(ih hd hold).1, fun i hi => Or.inl ((ih hd hold).2 i hi)⟩
    · rw [List.mem_singleton.mp hnew] at hnumber
      have hslot := Slot.claimed_of_number? hb hfits hnumber
      exact ⟨hslot.1, fun i hi => Or.inr (hslot.2 i hi)⟩
  | skip mask _ ih =>
    obtain ⟨hd, -, -⟩ := (Format.disjoint_add _ _).mp hd
    simp only [Format.choice, Format.claimed_add, testBit_or_word, Bool.or_eq_true]
    exact ⟨(ih hd hpart).1, fun i hi => Or.inl ((ih hd hpart).2 i hi)⟩

/-- In a word of a disjoint format the place of a number shows its bits. -/
theorem testBit_word_of_mem (h : f.Describes e) (hd : f.disjoint = true) {part : Part}
    (hpart : part ∈ e.parts) {shift width value : ℕ}
    (hnumber : part.number? = some (shift, width, value)) {i : ℕ} (hi : i < width) :
    e.word.toNat.testBit (i + shift) = value.testBit i := by
  induction h with
  | of base => exact absurd hpart List.not_mem_nil
  | @add f e slot last hf hfits ih =>
    obtain ⟨hd, hb, hdisjoint⟩ := (Format.disjoint_add _ _).mp hd
    -- at no bit do both the earlier parts and the last one have a claim
    have hbit : ¬(f.claimed.toNat.testBit (i + shift) = true ∧
        slot.claimed.toNat.testBit (i + shift) = true) := by
      have h := testBit_and_word f.claimed slot.claimed (i + shift)
      rw [hdisjoint, UInt32.toNat_zero, Nat.zero_testBit, eq_comm, Bool.and_eq_false_iff] at h
      rintro ⟨hclaimed, hslot⟩
      simp only [hclaimed, hslot, Bool.true_eq_false, or_self] at h
    rw [Encoding.word_add, testBit_or_word]
    rcases List.mem_append.mp hpart with hold | hnew
    -- an earlier number still shows, since the last part sets nothing at its place
    · have hclaimed := (hf.claimed_of_mem hd hold hnumber).2 i hi
      have hlast : last.word.toNat.testBit (i + shift) = false := by
        rw [Bool.eq_false_iff]
        exact fun hlast => hbit ⟨hclaimed, Slot.testBit_claimed_of_fits hb hfits hlast⟩
      rw [ih hd hold, hlast, Bool.or_false]
    -- the last number shows, since nothing was set at its place before
    · rw [List.mem_singleton.mp hnew] at hnumber
      obtain ⟨hle, hclaimed⟩ := Slot.claimed_of_number? hb hfits hnumber
      have hearlier : e.word.toNat.testBit (i + shift) = false := by
        rw [Bool.eq_false_iff]
        exact fun hearlier => hbit ⟨hf.testBit_claimed hd hearlier, hclaimed i hi⟩
      rw [hearlier, Bool.false_or, Part.word_of_number? hnumber,
        Part.testBit_place_inside hle hi]
  | skip mask _ ih =>
    obtain ⟨hd, -, -⟩ := (Format.disjoint_add _ _).mp hd
    exact ih hd hpart

/-- In a word of a disjoint format a register number reads back from its field. -/
theorem slice_register (h : f.Describes e) (hd : f.disjoint = true) {shift : ℕ} {r : Register}
    (hpart : .register shift r ∈ e.parts) : slice shift 5 e.word = r.number := by
  obtain ⟨slot, -, hfits⟩ := h.exists_slot hpart
  -- only a register slot takes the part, and its role bounds the number
  have hle : r.number ≤ 31 := by
    cases slot with
    | register =>
      obtain ⟨r', hr, hrole⟩ := hfits
      obtain ⟨rfl, rfl⟩ := Part.register.inj hr
      cases ‹Role› <;> exact hrole.1.number_le
    | operand => exact absurd hfits.choose_spec.1 (by simp)
    | constant | option => cases hfits
    | choice => exact absurd hfits.choose_spec.1 (by simp)
  exact slice_eq_of_testBit (by omega) fun i hi => h.testBit_word_of_mem hd hpart rfl hi

/-- In a word of a disjoint format an operand reads back from its field. -/
theorem slice_field (h : f.Describes e) (hd : f.disjoint = true) {shift width value : ℕ}
    (hpart : .field shift width value ∈ e.parts) (hlt : value < 2 ^ width) :
    slice shift width e.word = value :=
  slice_eq_of_testBit hlt fun _ hi => h.testBit_word_of_mem hd hpart rfl hi

end Format.Describes

end InlineA64
