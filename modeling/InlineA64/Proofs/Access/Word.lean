import InlineA64.Proofs.Relative
import InlineA64.Proofs.Total

/-!
# Accesses in a word

`Access` is a load, a store or a prefetch of a single register as a processor finds it in a word:
the size of what is moved, the register and what happens to it, and where the bytes are. Its number
is the sum that the word has to be.

* `Access.ofWord?_of_toNat`: a processor finds an access in its number.
-/

namespace InlineA64

/-- What an access moves. -/
inductive AccessAction where
  /-- Memory takes what the register holds. -/
  | store (t : Register)
  /-- The register takes what is in memory, extended with zeros or with the sign. -/
  | load (signed : Bool) (t : Register)
  /-- Nothing is moved; the operation tells what the bytes will be needed for. -/
  | prefetch (operation : ℕ)
deriving DecidableEq, Repr

/-- Where an access finds its bytes, from its base register. -/
inductive AddressMode where
  /-- At an offset that counts in accesses. -/
  | scaled (offset : Int)
  /-- At an offset that counts in bytes. -/
  | unscaled (offset : Int)
  /-- At an offset, the base being moved there. -/
  | preIndexed (offset : Int)
  /-- At the base, which is moved by an offset afterwards. -/
  | postIndexed (offset : Int)
  /-- At an index register, with the number of its extension, shifted by the size or not. -/
  | indexed (m : Register) (option : ℕ) (shifted : Bool)
deriving DecidableEq, Repr

/-- A load, a store or a prefetch of `2 ^ scale` bytes. -/
structure Access where
  /-- The size, as a power of two. -/
  scale : ℕ
  /-- What is moved. -/
  action : AccessAction
  /-- The base register. -/
  n : Register
  /-- Where the bytes are from there. -/
  mode : AddressMode
deriving DecidableEq, Repr

/-! ## What the processor finds -/

namespace AccessAction

/-- The action is a prefetch. -/
def isPrefetch : AccessAction → Bool
  | prefetch _ => true
  | store _ | load .. => false

/-- The action in a word. The size tells the register of a plain load or store, and the lowest bit
of the opcode that of a load with the sign. -/
def ofWord? (word : UInt32) : Option AccessAction :=
  let size := slice 30 2 word
  let number := slice 0 5 word
  let sized := Role.plain.register (if size = 3 then .x64 else .w32) number
  match slice 22 2 word with
  | 0 => some (store sized)
  | 1 => some (load false sized)
  | 2 =>
    if size = 3 then some (prefetch number)
    else some (load true (Role.plain.register .x64 number))
  | _ => if size < 2 then some (load true (Role.plain.register .w32 number)) else none

end AccessAction

namespace AddressMode

/-- The base register is moved. -/
def movesBase : AddressMode → Bool
  | preIndexed _ | postIndexed _ => true
  | scaled _ | unscaled _ | indexed .. => false

/-- The mode in a word. An index has to be extended from a word or a doubleword, which the lowest
bit of the option tells. -/
def ofWord? (word : UInt32) : Option AddressMode :=
  let offset := RelativeForm.signExtended 9 (slice 12 9 word)
  if slice 24 2 word = 1 then some (scaled (slice 10 12 word * 2 ^ slice 30 2 word : ℕ))
  else if slice 24 2 word ≠ 0 then none
  else if slice 21 1 word = 0 then
    match slice 10 2 word with
    | 0 => some (unscaled offset)
    | 1 => some (postIndexed offset)
    | 3 => some (preIndexed offset)
    | _ => none
  else if slice 10 2 word = 2 ∧ slice 14 1 word = 1 then
    some (indexed (Role.plain.register (Width.ofBit (slice 13 1 word)) (slice 16 5 word))
      (slice 13 3 word) (slice 12 1 word == 1))
  else none

end AddressMode

/-- The access that a word stands for. A prefetch moves no base register. -/
def Access.ofWord? (word : UInt32) : Option Access :=
  if slice 27 3 word = 0b111 ∧ slice 26 1 word = 0 then do
    let action ← AccessAction.ofWord? word
    let mode ← AddressMode.ofWord? word
    if action.isPrefetch && mode.movesBase then none
    else return ⟨slice 30 2 word, action, Role.address.register .x64 (slice 5 5 word), mode⟩
  else none

/-! ## The number of an access -/

namespace AccessAction

/-- The bits from 22 up that an action is told by. -/
def opcode : AccessAction → ℕ
  | store _ => 0
  | load false _ => 1
  | load true t => if t.isWide then 2 else 3
  | prefetch _ => 2

/-- The lowest five bits. -/
def number : AccessAction → ℕ
  | store t | load _ t => t.number
  | prefetch operation => operation

/-- There is such an action at a size. -/
def Valid (scale : ℕ) : AccessAction → Prop
  | store t | load false t => Role.plain.Admits t ∧ t.width = if scale = 3 then .x64 else .w32
  | load true t => Role.plain.Admits t ∧ scale < 3 ∧ (scale = 2 → t.isWide = true)
  | prefetch operation => scale = 3 ∧ operation < 32

end AccessAction

namespace AddressMode

/-- What a mode adds to the word. -/
def number (scale : ℕ) : AddressMode → ℕ
  | scaled offset => 2 ^ 24 + (offset / 2 ^ scale).toNat * 2 ^ 10
  | unscaled offset => Displacement.unscaled.field offset * 2 ^ 12 + 0 * 2 ^ 10
  | postIndexed offset => Displacement.unscaled.field offset * 2 ^ 12 + 1 * 2 ^ 10
  | preIndexed offset => Displacement.unscaled.field offset * 2 ^ 12 + 3 * 2 ^ 10
  | indexed m option shifted =>
    2 ^ 21 + m.number * 2 ^ 16 + option * 2 ^ 13 + shifted.toNat * 2 ^ 12 + 2 * 2 ^ 10

/-- There is such a mode at a size. -/
def Valid (scale : ℕ) : AddressMode → Prop
  | scaled offset => 0 ≤ offset ∧ offset % 2 ^ scale = 0 ∧ offset / 2 ^ scale < 4096
  | unscaled offset | preIndexed offset | postIndexed offset => -256 ≤ offset ∧ offset ≤ 255
  | indexed m option _ =>
    Role.plain.Admits m ∧ option < 8 ∧ option / 2 % 2 = 1 ∧ m.width = Width.ofBit (option % 2)

end AddressMode

namespace Access

/-- The word of an access as a number. -/
def number (access : Access) : ℕ :=
  0x38000000 + access.scale * 2 ^ 30 + access.action.opcode * 2 ^ 22 +
    access.mode.number access.scale + access.n.number * 2 ^ 5 + access.action.number

/-- There is such an access. -/
structure Valid (access : Access) : Prop where
  scale : access.scale ≤ 3
  n : Role.address.Admits access.n
  wide : access.n.width = .x64
  action : access.action.Valid access.scale
  mode : access.mode.Valid access.scale
  moving : access.action.isPrefetch = true → access.mode.movesBase = false

end Access

/-! ## Finding an access in its number -/

theorem AccessAction.opcode_lt (action : AccessAction) : action.opcode < 4 := by
  rcases action with t | (_ | _) | operation
  case load.true t => cases hwide : t.isWide <;> simp [opcode, hwide]
  all_goals simp [opcode]

theorem AccessAction.number_lt {scale : ℕ} {action : AccessAction} (h : action.Valid scale) :
    action.number < 32 := by
  rcases action with t | (_ | _) | operation
  case prefetch => exact h.2
  all_goals exact Nat.lt_succ_of_le h.1.valid.number_le

theorem unscaled_field_lt (offset : Int) : Displacement.unscaled.field offset < 512 := by
  simp [Displacement.field, Displacement.unscaled]
  omega

theorem signExtended_unscaled {offset : Int} (h : -256 ≤ offset ∧ offset ≤ 255) :
    RelativeForm.signExtended 9 (Displacement.unscaled.field offset) = offset := by
  have hadmits : Displacement.unscaled.admits offset = true := by
    simp [Displacement.admits, Displacement.unscaled]
    omega
  have hmul := RelativeForm.unit_mul_signExtended (by decide) (by decide) hadmits
  simpa [Displacement.unscaled] using hmul

namespace AddressMode

variable {scale opcode n t : ℕ} {word : UInt32}

/-- What a mode adds is in the bits that are its own. -/
theorem number_eq {mode : AddressMode} (h : mode.Valid scale) :
    ∃ form < 2, ∃ field < 4096, mode.number scale = form * 2 ^ 24 + field * 2 ^ 10 := by
  -- bit 24 is that of the scaled form; the low two bits of the field tell the others apart
  cases mode with
  | scaled offset =>
    obtain ⟨-, -, hlt⟩ := h
    exact ⟨1, by decide, (offset / 2 ^ scale).toNat, by omega, by rw [number, Nat.one_mul]⟩
  | unscaled offset =>
    have hlt := unscaled_field_lt offset
    exact ⟨0, by decide, Displacement.unscaled.field offset * 4, by omega, by rw [number]; omega⟩
  | postIndexed offset =>
    have hlt := unscaled_field_lt offset
    exact ⟨0, by decide, Displacement.unscaled.field offset * 4 + 1, by omega,
      by rw [number]; omega⟩
  | preIndexed offset =>
    have hlt := unscaled_field_lt offset
    exact ⟨0, by decide, Displacement.unscaled.field offset * 4 + 3, by omega,
      by rw [number]; omega⟩
  | indexed m option shifted =>
    obtain ⟨hm, hoption, -, -⟩ := h
    have hmlt := hm.valid.number_le
    have hshifted := shifted.toNat_lt
    exact ⟨0, by decide, 2 ^ 11 + m.number * 2 ^ 6 + option * 2 ^ 3 + shifted.toNat * 2 ^ 2 + 2,
      by omega, by rw [number]; omega⟩

section Word

variable (hopcode : opcode < 4) (hn : n < 32) (ht : t < 32)
include hopcode hn ht

/-- The fields of a mode with a byte offset. -/
theorem fields_unscaled {offset : Int} (code : ℕ) (hcode : code < 4)
    (h : -256 ≤ offset ∧ offset ≤ 255)
    (hword : word.toNat = 0x38000000 + scale * 2 ^ 30 + opcode * 2 ^ 22 +
      (Displacement.unscaled.field offset * 2 ^ 12 + code * 2 ^ 10) + n * 2 ^ 5 + t) :
    slice 24 2 word = 0 ∧ slice 21 1 word = 0 ∧ slice 10 2 word = code ∧
      RelativeForm.signExtended 9 (slice 12 9 word) = offset := by
  have hlt := unscaled_field_lt offset
  have hfield : slice 12 9 word = Displacement.unscaled.field offset := by
    simp only [slice, hword]
    omega
  refine ⟨?_, ?_, ?_, by rw [hfield, signExtended_unscaled h]⟩ <;>
    simp only [slice, hword] <;> omega

/-- A processor finds the mode of an access. -/
theorem ofWord?_of_toNat {mode : AddressMode} (hscale : scale ≤ 3) (h : mode.Valid scale)
    (hword : word.toNat = 0x38000000 + scale * 2 ^ 30 + opcode * 2 ^ 22 + mode.number scale +
      n * 2 ^ 5 + t) :
    ofWord? word = some mode := by
  -- bit 24 tells the scaled form, bit 21 the index, and bits 10 and 11 the others
  cases mode with
  | scaled offset =>
    obtain ⟨hle, hdvd, hlt⟩ := h
    rw [number] at hword
    have hfields : slice 24 2 word = 1 ∧ slice 10 12 word = (offset / 2 ^ scale).toNat ∧
        slice 30 2 word = scale := by
      simp only [slice, hword]
      refine ⟨?_, ?_, ?_⟩ <;> omega
    have hunit : (0 : Int) < 2 ^ scale := Int.pow_pos (by decide)
    have hoffset : offset / 2 ^ scale * 2 ^ scale = offset :=
      Int.ediv_mul_cancel (Int.dvd_of_emod_eq_zero hdvd)
    simp [ofWord?, hfields, Int.max_eq_left (Int.ediv_nonneg hle hunit.le), hoffset]
  | unscaled offset =>
    have hfields := fields_unscaled hopcode hn ht 0 (by decide) h hword
    simp [ofWord?, hfields]
  | postIndexed offset =>
    have hfields := fields_unscaled hopcode hn ht 1 (by decide) h hword
    simp [ofWord?, hfields]
  | preIndexed offset =>
    have hfields := fields_unscaled hopcode hn ht 3 (by decide) h hword
    simp [ofWord?, hfields]
  | indexed m option shifted =>
    obtain ⟨hm, hoption, hextends, hwidth⟩ := h
    have hmlt := hm.valid.number_le
    have hshifted := shifted.toNat_lt
    rw [number] at hword
    have hfields : slice 24 2 word = 0 ∧ slice 21 1 word = 1 ∧ slice 10 2 word = 2 ∧
        slice 14 1 word = 1 ∧ slice 13 1 word = option % 2 ∧ slice 13 3 word = option ∧
        slice 16 5 word = m.number ∧ slice 12 1 word = shifted.toNat := by
      simp only [slice, hword]
      refine ⟨?_, ?_, ?_, ?_, ?_, ?_, ?_, ?_⟩ <;> omega
    have hm' := Role.register_number hm hwidth
    simp [ofWord?, hfields, hm']

end Word

end AddressMode

/-- A processor finds the action of an access. -/
theorem AccessAction.ofWord?_of_fields {action : AccessAction} {scale : ℕ} {word : UInt32}
    (h : action.Valid scale) (hopcode : slice 22 2 word = action.opcode)
    (hsize : slice 30 2 word = scale) (hnumber : slice 0 5 word = action.number) :
    ofWord? word = some action := by
  rcases action with t | (_ | _) | operation
  case store =>
    have ht := Role.register_number h.1 h.2
    simp [ofWord?, hopcode, hsize, hnumber, opcode, number, ht]
  case load.false =>
    have ht := Role.register_number h.1 h.2
    simp [ofWord?, hopcode, hsize, hnumber, opcode, number, ht]
  case load.true t =>
    obtain ⟨hadmits, hlt, hword⟩ := h
    have ht := Role.register_number hadmits rfl
    have hne : scale ≠ 3 := by omega
    cases hwidth : t.width with
    | x64 =>
      rw [hwidth] at ht
      simp [ofWord?, hopcode, hsize, hnumber, opcode, number, Register.isWide, hwidth, hne, ht]
    | w32 =>
      rw [hwidth] at ht
      -- a word that is extended has a wide destination
      have hlow : scale < 2 := by
        by_contra hge
        simpa [Register.isWide, hwidth] using hword (by omega)
      simp [ofWord?, hopcode, hsize, hnumber, opcode, number, Register.isWide, hwidth, hlow, ht]
  case prefetch =>
    simp [ofWord?, hopcode, hsize, hnumber, opcode, number, h.1]

/-- A processor finds an access in its number. -/
theorem Access.ofWord?_of_toNat {access : Access} {word : UInt32} (h : access.Valid)
    (hword : word.toNat = access.number) : ofWord? word = some access := by
  obtain ⟨scale, action, n, mode⟩ := access
  obtain ⟨hscale, hn, hwide, haction, hmode, hmoving⟩ := h
  simp only at hscale hn hwide haction hmode hmoving
  have hopcode := action.opcode_lt
  have hnumber := AccessAction.number_lt haction
  have hnlt : n.number < 32 := Nat.lt_succ_of_le hn.valid.number_le
  have hfound : AddressMode.ofWord? word = some mode :=
    AddressMode.ofWord?_of_toNat hopcode hnlt hnumber hscale hmode hword
  -- apart from the mode, the fields are found without knowing what the mode is
  obtain ⟨form, hform, field, hfield, heq⟩ := AddressMode.number_eq hmode
  rw [number, heq] at hword
  have hfields : slice 27 3 word = 0b111 ∧ slice 26 1 word = 0 ∧ slice 30 2 word = scale ∧
      slice 22 2 word = action.opcode ∧ slice 5 5 word = n.number ∧
      slice 0 5 word = action.number := by
    simp only [slice, hword]
    refine ⟨?_, ?_, ?_, ?_, ?_, ?_⟩ <;> omega
  obtain ⟨hclass, hvector, hsize, hopcode', hbase, htransfer⟩ := hfields
  have haction' := AccessAction.ofWord?_of_fields haction hopcode' hsize htransfer
  have hn' := Role.register_number hn hwide
  simpa [ofWord?, hclass, hvector, haction', hfound, hsize, hbase, hn'] using hmoving

end InlineA64
