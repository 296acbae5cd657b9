import InlineA64.Proofs.Format.Basic

/-!
# Filling formats

Each way of adding to an encoding has a slot that it fills, so a format is written down the way its
encoding is built and `Format.Describes` follows step by step. `Fills` adds that no register is
lost: each one taken from the text is in a field of the encoding.
-/

namespace InlineA64

namespace Format

/-! ## Named slots -/

/-- The destination or transfer register. -/
def rd (f : Format) (role : Role) : Format := f.register 0 role

/-- The first source or the base register. -/
def rn (f : Format) (role : Role) : Format := f.register 5 role

/-- The second transfer register or the addend. -/
def rt2 (f : Format) : Format := f.register 10 .plain

/-- The second source, the index or the status register. -/
def rm (f : Format) (role : Role) : Format := f.register 16 role

/-- The size bit of data processing. -/
def sf (f : Format) : Format := f.choice 0x80000000

/-- The size bit of loads and stores. -/
def sizeBit (f : Format) : Format := f.choice 0x40000000

/-- The two size bits of bitfield moves. -/
def sfAndN (f : Format) : Format := f.choice 0x80400000

/-! ## Adding to a described encoding -/

namespace Describes

variable {f : Format} {e : Encoding}

theorem register (h : f.Describes e) {role : Role} {r : Register} (hr : role.Admits r)
    (shift : ℕ) : (f.register shift role).Describes (e.add (.register shift r)) :=
  h.add ⟨r, rfl, hr⟩

theorem rd (h : f.Describes e) {role : Role} {r : Register} (hr : role.Admits r) :
    (f.rd role).Describes (e.rd r) := h.register hr 0

theorem rt (h : f.Describes e) {role : Role} {r : Register} (hr : role.Admits r) :
    (f.rd role).Describes (e.rt r) := h.register hr 0

theorem rn (h : f.Describes e) {role : Role} {r : Register} (hr : role.Admits r) :
    (f.rn role).Describes (e.rn r) := h.register hr 5

theorem rt2 (h : f.Describes e) {r : Register} (hr : Role.plain.Admits r) :
    f.rt2.Describes (e.rt2 r) := h.register hr 10

theorem rm (h : f.Describes e) {role : Role} {r : Register} (hr : role.Admits r) :
    (f.rm role).Describes (e.rm r) := h.register hr 16

theorem rs (h : f.Describes e) {role : Role} {r : Register} (hr : role.Admits r) :
    (f.rm role).Describes (e.rs r) := h.register hr 16

theorem operand (h : f.Describes e) {width value : ℕ} (hlt : value < 2 ^ width) (shift : ℕ) :
    (f.operand shift width).Describes (e.field shift width value) :=
  h.add ⟨value, rfl, hlt⟩

theorem constant (h : f.Describes e) (shift width value : ℕ) :
    (f.constant shift width value).Describes (e.field shift width value) :=
  h.add rfl

theorem option (h : f.Describes e) (bits : UInt32) : (f.option bits).Describes (e.option bits) :=
  h.add rfl

theorem optionIf (h : f.Describes e) (condition : Bool) (bits : UInt32) :
    (f.optionIf condition bits).Describes (e.optionIf condition bits) := by
  cases condition
  · exact h
  · exact h.option bits

/-- Option bits within the mask of a choice. -/
theorem choose (h : f.Describes e) {bits mask : UInt32} (hmask : bits &&& mask = bits) :
    (f.choice mask).Describes (e.option bits) :=
  h.add ⟨bits, rfl, hmask⟩

/-- Option bits that are set on a condition. -/
theorem choice (h : f.Describes e) (condition : Bool) (mask : UInt32) :
    (f.choice mask).Describes (e.optionIf condition mask) := by
  cases condition
  · exact h.skip mask
  · exact h.choose (UInt32.and_self)

theorem sf (h : f.Describes e) (r : Register) : f.sf.Describes (e.sf r) := h.choice r.isWide _

theorem sizeBit (h : f.Describes e) (r : Register) : f.sizeBit.Describes (e.sizeBit r) :=
  h.choice r.isWide _

theorem sfAndN (h : f.Describes e) (r : Register) : f.sfAndN.Describes (e.sfAndN r) :=
  h.choice r.isWide _

end Describes

end Format

/-! ## Registers of an encoding -/

namespace Encoding

/-- The registers in the fields of an encoding. -/
def registers (e : Encoding) : List Register :=
  e.parts.filterMap fun
    | .register _ r => some r
    | .field .. | .option _ => none

theorem mem_registers {e : Encoding} {r : Register} :
    r ∈ e.registers ↔ ∃ shift, .register shift r ∈ e.parts := by
  rw [registers, List.mem_filterMap]
  constructor
  · rintro ⟨part, hpart, h⟩
    cases part with
    | register shift s => exact ⟨shift, Option.some.inj h ▸ hpart⟩
    | field | option => cases h
  · rintro ⟨shift, h⟩
    exact ⟨_, h, rfl⟩

section

variable (e : Encoding)

@[simp]
theorem registers_of (base : UInt32) : (of base).registers = [] := rfl

@[simp]
theorem registers_register (shift : ℕ) (r : Register) :
    (e.add (.register shift r)).registers = e.registers ++ [r] := by
  rw [registers, add, List.filterMap_append]
  rfl

@[simp]
theorem registers_field (shift width value : ℕ) :
    (e.field shift width value).registers = e.registers := by
  rw [registers, field, add, List.filterMap_append]
  exact List.append_nil _

@[simp]
theorem registers_option (bits : UInt32) : (e.option bits).registers = e.registers := by
  rw [registers, option, add, List.filterMap_append]
  exact List.append_nil _

@[simp]
theorem registers_optionIf (condition : Bool) (bits : UInt32) :
    (e.optionIf condition bits).registers = e.registers := by
  cases condition
  · rfl
  · exact e.registers_option bits

@[simp]
theorem registers_rd (r : Register) : (e.rd r).registers = e.registers ++ [r] :=
  e.registers_register 0 r

@[simp]
theorem registers_rt (r : Register) : (e.rt r).registers = e.registers ++ [r] :=
  e.registers_register 0 r

@[simp]
theorem registers_rn (r : Register) : (e.rn r).registers = e.registers ++ [r] :=
  e.registers_register 5 r

@[simp]
theorem registers_rt2 (r : Register) : (e.rt2 r).registers = e.registers ++ [r] :=
  e.registers_register 10 r

@[simp]
theorem registers_ra (r : Register) : (e.ra r).registers = e.registers ++ [r] :=
  e.registers_register 10 r

@[simp]
theorem registers_rm (r : Register) : (e.rm r).registers = e.registers ++ [r] :=
  e.registers_register 16 r

@[simp]
theorem registers_rs (r : Register) : (e.rs r).registers = e.registers ++ [r] :=
  e.registers_register 16 r

@[simp]
theorem registers_sf (r : Register) : (e.sf r).registers = e.registers :=
  e.registers_optionIf _ _

@[simp]
theorem registers_sizeBit (r : Register) : (e.sizeBit r).registers = e.registers :=
  e.registers_optionIf _ _

@[simp]
theorem registers_sfAndN (r : Register) : (e.sfAndN r).registers = e.registers :=
  e.registers_optionIf _ _

end

end Encoding

/-! ## Filling one of several formats -/

/-- The encoding fills one of the formats, and each of the registers is in one of its fields. -/
structure Fills (formats : List Format) (taken : List Register) (e : Encoding) : Prop where
  describes : ∃ f ∈ formats, f.Describes e
  registers : taken ⊆ e.registers

namespace Fills

variable {f : Format} {formats formats' : List Format} {taken : List Register} {e : Encoding}

theorem single (h : f.Describes e) (htaken : taken ⊆ e.registers) : Fills [f] taken e :=
  ⟨⟨f, List.mem_singleton_self f, h⟩, htaken⟩

theorem of_mem (hmem : f ∈ formats) (h : f.Describes e) (htaken : taken ⊆ e.registers) :
    Fills formats taken e :=
  ⟨⟨f, hmem, h⟩, htaken⟩

theorem subset (h : Fills formats taken e) (hsub : formats ⊆ formats') :
    Fills formats' taken e := by
  obtain ⟨f, hf, hdescribes⟩ := h.describes
  exact ⟨⟨f, hsub hf, hdescribes⟩, h.registers⟩

/-- What is added to an encoding is added to its formats. -/
theorem map {taken' : List Register} {e' : Encoding} (h : Fills formats taken e)
    (g : Format → Format) (hg : ∀ f : Format, f.Describes e → (g f).Describes e')
    (htaken : taken ⊆ e.registers → taken' ⊆ e'.registers) :
    Fills (formats.map g) taken' e' := by
  obtain ⟨f, hf, hdescribes⟩ := h.describes
  exact of_mem (List.mem_map_of_mem hf) (hg f hdescribes) (htaken h.registers)

end Fills

end InlineA64
