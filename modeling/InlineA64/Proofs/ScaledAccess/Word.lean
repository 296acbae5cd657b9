import InlineA64.Proofs.Relative
import InlineA64.Proofs.Total

/-!
# Scaled accesses in a word

The loads and stores of a pair of registers, and the loads through an authenticated address, take an
offset that counts in units of the data. `ScaledAccess` is such an access as a processor finds it in
a word. The unit of a pair is told by its opcode, which tells the width of the registers as well;
the offset of an authenticated load has its sign apart from its other bits.

* `ScaledAction.admits_iff`: the offsets that the field of an access holds;
* `ScaledAccess.ofWord?_of_toNat`: a processor finds an access in its number.
-/

namespace InlineA64

/-- How a pair of registers is moved. -/
inductive PairKind where
  /-- Registers of either width are stored or loaded, with the hint or without it that the data will
  not be needed again soon. -/
  | plain (load nonTemporal : Bool)
  /-- Words are loaded with their sign. -/
  | signedWords
deriving DecidableEq, Repr

/-- What a scaled access moves. -/
inductive ScaledAction where
  /-- A pair of registers. -/
  | pair (kind : PairKind) (t t2 : Register)
  /-- A register takes what is at an address that is authenticated with one of two keys. -/
  | authenticated (second : Bool) (t : Register)
deriving DecidableEq, Repr

/-- What happens to the base register. -/
inductive BaseMode where
  /-- The access is at an offset from the base, which is kept. -/
  | kept
  /-- The access is at an offset from the base, which is moved there. -/
  | preIndexed
  /-- The access is at the base, which is moved by an offset afterwards. -/
  | postIndexed
deriving DecidableEq, Repr

/-- An access at an offset that counts in units of the data. -/
structure ScaledAccess where
  /-- What is moved. -/
  action : ScaledAction
  /-- The base register. -/
  n : Register
  /-- What happens to the base register. -/
  mode : BaseMode
  /-- The offset in bytes. -/
  offset : Int
deriving DecidableEq, Repr

/-! ## Which offsets there are -/

namespace ScaledAction

/-- The size of the data that the offset counts in. -/
def unit : ScaledAction → ℕ
  | pair (.plain ..) t _ => if t.isWide then 8 else 4
  | pair .signedWords .. => 4
  | authenticated .. => 8

/-- The offset is within the reach of the access. -/
def Reaches (action : ScaledAction) (offset : Int) : Prop :=
  match action with
  | pair .. => -64 * action.unit ≤ offset ∧ offset ≤ 63 * action.unit
  | authenticated .. => -4096 ≤ offset ∧ offset ≤ 4088

/-- What may happen to the base register. -/
def Takes : ScaledAction → BaseMode → Prop
  | pair (.plain _ nonTemporal) .., mode => nonTemporal = true → mode = .kept
  | pair .signedWords .., _ => True
  | authenticated .., mode => mode ≠ .postIndexed

/-- The registers have the widths of the access. -/
def Fits : ScaledAction → Prop
  | pair (.plain ..) t t2 => t2.width = t.width
  | pair .signedWords t t2 => t.width = .x64 ∧ t2.width = .x64
  | authenticated _ t => t.width = .x64

instance (action : ScaledAction) (offset : Int) : Decidable (action.Reaches offset) :=
  match action with
  | pair .. | authenticated .. => inferInstanceAs (Decidable (_ ∧ _))

instance (action : ScaledAction) (mode : BaseMode) : Decidable (action.Takes mode) :=
  match action with
  | pair (.plain ..) .. => inferInstanceAs (Decidable (_ → _))
  | pair .signedWords .. => inferInstanceAs (Decidable True)
  | authenticated .. => inferInstanceAs (Decidable (_ ≠ _))

instance (action : ScaledAction) : Decidable action.Fits :=
  match action with
  | pair (.plain ..) .. | authenticated .. => inferInstanceAs (Decidable (_ = _))
  | pair .signedWords .. => inferInstanceAs (Decidable (_ ∧ _))

/-- The registers that are moved. -/
def registers : ScaledAction → List Register
  | pair _ t t2 => [t, t2]
  | authenticated _ t => [t]

/-- The displacement that the offset field holds. -/
def displacement : ScaledAction → Displacement
  | pair (.plain ..) t _ => .pair t.isWide
  | pair .signedWords .. => .pair false
  | authenticated .. => .authenticated

theorem unit_displacement (action : ScaledAction) : action.displacement.unit = action.unit := by
  rcases action with ⟨_ | _, t, t2⟩ | _ <;> rfl

theorem unit_eq (action : ScaledAction) : action.unit = 4 ∨ action.unit = 8 := by
  rcases action with ⟨_ | _, t, t2⟩ | _
  case pair.plain => cases hwide : t.isWide <;> simp [unit, hwide]
  all_goals simp [unit]

/-- A field holds the whole numbers of units within its reach. -/
theorem admits_iff (action : ScaledAction) (offset : Int) :
    action.displacement.admits offset = true ↔
      offset % action.unit = 0 ∧ action.Reaches offset := by
  have hunit := action.unit_eq
  simp only [Displacement.admits, unit_displacement, Bool.and_eq_true, beq_iff_eq,
    decide_eq_true_eq, Nat.one_shiftLeft]
  -- the last multiple below the bound of the field is one unit away from it
  cases action with
  | pair kind t t2 =>
    have hbits : (pair kind t t2).displacement.bits = 7 := by cases kind <;> rfl
    simp only [hbits, Reaches]
    rcases hunit with hunit | hunit <;> rw [hunit] <;> omega
  | authenticated second t =>
    have hbits : (authenticated second t).displacement.bits = 10 := rfl
    simp only [hbits, Reaches, unit]
    omega

/-- The number that a field holds is the offset in units. -/
theorem unit_mul_signExtended {action : ScaledAction} {offset : Int}
    (h : action.displacement.admits offset = true) :
    action.unit * RelativeForm.signExtended action.displacement.bits
      (action.displacement.field offset) = offset := by
  have hunit := action.unit_eq
  have hbits : 0 < action.displacement.bits := by
    rcases action with ⟨_ | _, t, t2⟩ | _ <;> exact Nat.succ_pos _
  rw [← unit_displacement] at hunit ⊢
  exact RelativeForm.unit_mul_signExtended hbits (by omega) h

theorem field_lt (action : ScaledAction) (offset : Int) :
    action.displacement.field offset < 2 ^ action.displacement.bits := by
  have hmodulus : (0 : Int) < (2 ^ action.displacement.bits : ℕ) := by
    exact_mod_cast Nat.two_pow_pos _
  rw [Displacement.field, Nat.one_shiftLeft, Int.toNat_lt (Int.emod_nonneg _ hmodulus.ne')]
  exact Int.emod_lt_of_pos _ hmodulus

end ScaledAction

/-! ## What the processor finds -/

namespace PairKind

/-- How a pair is moved, and the width of its registers. The opcode of words that are loaded with
their sign stands for something else in a store and with the hint. -/
def ofWord? (word : UInt32) : Option (PairKind × Width) :=
  let load := slice 22 1 word == 1
  let nonTemporal := slice 23 3 word == 0
  match slice 30 2 word with
  | 0 => some (plain load nonTemporal, .w32)
  | 1 => if load && !nonTemporal then some (signedWords, .x64) else none
  | 2 => some (plain load nonTemporal, .x64)
  | _ => none

end PairKind

/-- What a pair does to its base register. -/
def BaseMode.ofWord? (word : UInt32) : Option BaseMode :=
  match slice 23 3 word with
  | 0 | 2 => some kept
  | 1 => some postIndexed
  | 3 => some preIndexed
  | _ => none

namespace ScaledAccess

/-- The base register in a word. -/
def baseOfWord (word : UInt32) : Register := Role.address.register .x64 (slice 5 5 word)

/-- The access of a pair in a word. -/
def pairOfWord? (word : UInt32) : Option ScaledAccess := do
  let (kind, width) ← PairKind.ofWord? word
  let mode ← BaseMode.ofWord? word
  let register := Role.plain.register width
  let action := ScaledAction.pair kind (register (slice 0 5 word)) (register (slice 10 5 word))
  return ⟨action, baseOfWord word, mode,
    action.unit * RelativeForm.signExtended 7 (slice 15 7 word)⟩

/-- The load through an authenticated address in a word. The sign of its offset is in bit 22. -/
def authenticatedOfWord (word : UInt32) : ScaledAccess :=
  ⟨.authenticated (slice 23 1 word == 1) (Role.plain.register .x64 (slice 0 5 word)),
    baseOfWord word, if slice 11 1 word = 1 then .preIndexed else .kept,
    8 * RelativeForm.signExtended 10 (slice 22 1 word * 2 ^ 9 + slice 12 9 word)⟩

/-- The access that a word stands for. -/
def ofWord? (word : UInt32) : Option ScaledAccess :=
  if slice 27 3 word = 0b101 ∧ slice 26 1 word = 0 then pairOfWord? word
  else if slice 24 8 word = 0xf8 ∧ slice 21 1 word = 1 ∧ slice 10 1 word = 1 then
    some (authenticatedOfWord word)
  else none

end ScaledAccess

/-! ## The number of an access -/

namespace PairKind

/-- The number of a kind in the opcode, for registers of one width or the other. -/
def size (wide : Bool) : PairKind → ℕ
  | plain .. => if wide then 2 else 0
  | signedWords => 1

/-- The pair is loaded. -/
def loads : PairKind → Bool
  | plain load _ => load
  | signedWords => true

/-- The pair is moved with a hint. -/
def hinted : PairKind → Bool
  | plain _ nonTemporal => nonTemporal
  | signedWords => false

end PairKind

/-- The number of what a pair does to its base register. -/
def BaseMode.number (hinted : Bool) : BaseMode → ℕ
  | kept => if hinted then 0 else 2
  | preIndexed => 3
  | postIndexed => 1

namespace ScaledAccess

/-- The word of an access as a number. -/
def number (access : ScaledAccess) : ℕ :=
  let field := access.action.displacement.field access.offset
  match access.action with
  | .pair kind t t2 =>
    0x28000000 + kind.size t.isWide * 2 ^ 30 + access.mode.number kind.hinted * 2 ^ 23 +
      kind.loads.toNat * 2 ^ 22 + field * 2 ^ 15 + t2.number * 2 ^ 10 + access.n.number * 2 ^ 5 +
      t.number
  | .authenticated second t =>
    0xf8200400 + second.toNat * 2 ^ 23 + field / 2 ^ 9 * 2 ^ 22 + field % 2 ^ 9 * 2 ^ 12 +
      (access.mode == .preIndexed).toNat * 2 ^ 11 + access.n.number * 2 ^ 5 + t.number

/-- There is such an access. -/
structure Valid (access : ScaledAccess) : Prop where
  registers : ∀ t ∈ access.action.registers, Role.plain.Admits t
  fits : access.action.Fits
  n : Role.address.Admits access.n
  wide : access.n.width = .x64
  takes : access.action.Takes access.mode
  offset : access.action.displacement.admits access.offset = true

end ScaledAccess

/-! ## Finding an access in its number -/

variable {word : UInt32}

theorem BaseMode.number_le (mode : BaseMode) (hinted : Bool) : mode.number hinted ≤ 3 := by
  cases mode <;> cases hinted <;> decide

theorem PairKind.size_le (kind : PairKind) (wide : Bool) : kind.size wide ≤ 2 := by
  unfold size
  cases kind <;> cases wide <;> simp

theorem BaseMode.ofWord?_of_number {mode : BaseMode} {hinted : Bool}
    (hmode : hinted = true → mode = .kept) (h : slice 23 3 word = mode.number hinted) :
    ofWord? word = some mode := by
  cases hinted with
  | true =>
    obtain rfl := hmode rfl
    simp [ofWord?, h, number]
  | false => cases mode <;> simp [ofWord?, h, number]

/-- The mode tells whether there is a hint. -/
theorem BaseMode.number_eq_zero {mode : BaseMode} {hinted : Bool}
    (hmode : hinted = true → mode = .kept) : (mode.number hinted == 0) = hinted := by
  cases hinted with
  | true =>
    obtain rfl := hmode rfl
    rfl
  | false => cases mode <;> rfl

/-- The opcode of a pair tells its kind and the width of its registers. -/
theorem PairKind.ofWord?_of_number {kind : PairKind} {mode : BaseMode} {t : Register}
    (hmode : kind.hinted = true → mode = .kept) (hwide : kind = signedWords → t.width = .x64)
    (hsize : slice 30 2 word = kind.size t.isWide)
    (hnumber : slice 23 3 word = mode.number kind.hinted)
    (hload : slice 22 1 word = kind.loads.toNat) :
    ofWord? word = some (kind, t.width) := by
  have hhint := BaseMode.number_eq_zero hmode
  have hloads : (kind.loads.toNat == 1) = kind.loads := by cases kind.loads <;> rfl
  rw [ofWord?, hsize, hnumber, hload, hhint, hloads]
  cases kind with
  | plain load nonTemporal =>
    unfold Register.isWide
    cases t.width <;> rfl
  | signedWords =>
    rw [hwide rfl]
    rfl

namespace ScaledAccess

/-- The fields of a pair are the parts of its number, each of which stays below the next one. -/
theorem fields_of_pair {kind : PairKind} {t t2 n : Register} {mode : BaseMode} {offset : Int}
    (h : Valid ⟨.pair kind t t2, n, mode, offset⟩)
    (hword : word.toNat = number ⟨.pair kind t t2, n, mode, offset⟩) :
    slice 27 3 word = 0b101 ∧ slice 26 1 word = 0 ∧
      slice 30 2 word = kind.size t.isWide ∧ slice 23 3 word = mode.number kind.hinted ∧
      slice 22 1 word = kind.loads.toNat ∧
      slice 15 7 word = (ScaledAction.pair kind t t2).displacement.field offset ∧
      slice 10 5 word = t2.number ∧ slice 5 5 word = n.number ∧ slice 0 5 word = t.number := by
  have hbits : (ScaledAction.pair kind t t2).displacement.bits = 7 := by cases kind <;> rfl
  have hfield := ScaledAction.field_lt (.pair kind t t2) offset
  have hsize := kind.size_le t.isWide
  have hnumber := mode.number_le kind.hinted
  have hloads := kind.loads.toNat_lt
  have htlt := (h.registers t (by simp [ScaledAction.registers])).valid.number_le
  have ht2lt := (h.registers t2 (by simp [ScaledAction.registers])).valid.number_le
  have hnlt := h.n.valid.number_le
  simp only at hnlt
  rw [hbits] at hfield
  rw [number] at hword
  simp only [slice, hword]
  refine ⟨?_, ?_, ?_, ?_, ?_, ?_, ?_, ?_, ?_⟩ <;> omega

/-- A processor finds a pair in its number. -/
theorem ofWord?_of_pair {kind : PairKind} {t t2 n : Register} {mode : BaseMode} {offset : Int}
    (h : Valid ⟨.pair kind t t2, n, mode, offset⟩)
    (hword : word.toNat = number ⟨.pair kind t t2, n, mode, offset⟩) :
    ofWord? word = some ⟨.pair kind t t2, n, mode, offset⟩ := by
  obtain ⟨hclass, hvector, hopcode, hmode, hload, himm, hsecond, hbase, hfirst⟩ :=
    fields_of_pair h hword
  obtain ⟨hregisters, hfits, hn, hwide, htakes, hoffset⟩ := h
  have ht : Role.plain.Admits t := hregisters t (by simp [ScaledAction.registers])
  have ht2 : Role.plain.Admits t2 := hregisters t2 (by simp [ScaledAction.registers])
  have hwidth : t2.width = t.width := by
    cases kind with
    | plain => exact hfits
    | signedWords => exact hfits.2.trans hfits.1.symm
  have hhint : kind.hinted = true → mode = .kept := by
    cases kind with
    | plain => exact htakes
    | signedWords => exact fun h => absurd h (by decide)
  have hsigned : kind = .signedWords → t.width = .x64 := by
    rintro rfl
    exact hfits.1
  -- the opcode tells the kind and the mode, and the offset is what its field stands for
  have hbits : (ScaledAction.pair kind t t2).displacement.bits = 7 := by cases kind <;> rfl
  have hkind := PairKind.ofWord?_of_number hhint hsigned hopcode hmode hload
  have hfound := BaseMode.ofWord?_of_number hhint hmode
  have hmul := ScaledAction.unit_mul_signExtended hoffset
  rw [hbits] at hmul
  rw [ofWord?, if_pos ⟨hclass, hvector⟩, pairOfWord?, hkind, hfound]
  simp only [Option.bind_eq_bind, Option.bind_some, baseOfWord, hfirst, hsecond, hbase, himm,
    Role.register_number ht rfl, Role.register_number ht2 hwidth, Role.register_number hn hwide]
  exact congrArg (fun v => some (ScaledAccess.mk _ n mode v)) hmul

/-- The fields of a load through an authenticated address. The sign of the offset is apart from its
other bits. -/
theorem fields_of_authenticated {second : Bool} {t n : Register} {mode : BaseMode} {offset : Int}
    (h : Valid ⟨.authenticated second t, n, mode, offset⟩)
    (hword : word.toNat = number ⟨.authenticated second t, n, mode, offset⟩) :
    slice 27 3 word = 0b111 ∧ slice 24 8 word = 0xf8 ∧ slice 21 1 word = 1 ∧
      slice 10 1 word = 1 ∧ slice 23 1 word = second.toNat ∧
      slice 22 1 word * 2 ^ 9 + slice 12 9 word =
        (ScaledAction.authenticated second t).displacement.field offset ∧
      slice 11 1 word = (mode == .preIndexed).toNat ∧ slice 5 5 word = n.number ∧
      slice 0 5 word = t.number := by
  have hbits : (ScaledAction.authenticated second t).displacement.bits = 10 := rfl
  have hfield := ScaledAction.field_lt (.authenticated second t) offset
  have hsecond := second.toNat_lt
  have hmoved := (mode == .preIndexed).toNat_lt
  have htlt := (h.registers t (by simp [ScaledAction.registers])).valid.number_le
  have hnlt := h.n.valid.number_le
  simp only at hnlt
  rw [hbits] at hfield
  simp only [number] at hword
  simp only [slice, hword]
  refine ⟨?_, ?_, ?_, ?_, ?_, ?_, ?_, ?_, ?_⟩ <;> omega

/-- A processor finds a load through an authenticated address in its number. -/
theorem ofWord?_of_authenticated {second : Bool} {t n : Register} {mode : BaseMode} {offset : Int}
    (h : Valid ⟨.authenticated second t, n, mode, offset⟩)
    (hword : word.toNat = number ⟨.authenticated second t, n, mode, offset⟩) :
    ofWord? word = some ⟨.authenticated second t, n, mode, offset⟩ := by
  obtain ⟨hclass, hopcode, hhigh, hlow, hkey, himm, hmode, hbase, hfirst⟩ :=
    fields_of_authenticated h hword
  obtain ⟨hregisters, hfits, hn, hwide, htakes, hoffset⟩ := h
  have ht : Role.plain.Admits t := hregisters t (by simp [ScaledAction.registers])
  have hbits : (ScaledAction.authenticated second t).displacement.bits = 10 := rfl
  have hunit : ((ScaledAction.authenticated second t).unit : Int) = 8 := rfl
  have hmul := ScaledAction.unit_mul_signExtended hoffset
  -- pairs are looked for first, in the bits of their class
  have hnot : ¬(slice 27 3 word = 0b101 ∧ slice 26 1 word = 0) := by omega
  have hsecond' : (second.toNat == 1) = second := by cases second <;> rfl
  have hmode' : (if (mode == .preIndexed).toNat = 1 then BaseMode.preIndexed else .kept) =
      mode := by
    cases mode with
    | kept | preIndexed => rfl
    | postIndexed => exact absurd rfl htakes
  rw [ofWord?, if_neg hnot, if_pos ⟨hopcode, hhigh, hlow⟩]
  rw [hbits, hunit] at hmul
  simp only [authenticatedOfWord, baseOfWord, hkey, hsecond', hfirst, hmode, hmode', himm, hmul,
    hbase, Role.register_number ht hfits, Role.register_number hn hwide]

/-- A processor finds an access in its number. -/
theorem ofWord?_of_toNat {access : ScaledAccess} (h : access.Valid)
    (hword : word.toNat = access.number) : ofWord? word = some access := by
  obtain ⟨_ | _, n, mode, offset⟩ := access
  case pair => exact ofWord?_of_pair h hword
  case authenticated => exact ofWord?_of_authenticated h hword

end ScaledAccess

end InlineA64
