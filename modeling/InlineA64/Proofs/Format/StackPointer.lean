import InlineA64.Proofs.Format.Basic

/-!
# Register fields that read 31 as the stack pointer

Whether number 31 in a register field is the stack pointer or the zero register depends on the
instruction alone, so it can be told from the word: `readsStackPointer` decodes the classes of
instructions for which a field reads 31 as the stack pointer. A format settles the question if the
bits that tell the classes apart are not among those that the operands decide
(`Format.readsStackPointer?`).
-/

namespace InlineA64

/-- A class of instruction words, told by some of the bits. -/
structure WordClass where
  /-- The bits that tell the class. -/
  mask : UInt32
  /-- What they are. -/
  bits : UInt32

namespace WordClass

/-- The word is of the class. -/
def includes (c : WordClass) (word : UInt32) : Bool :=
  (word ^^^ c.bits) &&& c.mask == 0

/-- Loads and stores. -/
def loadStore : WordClass := ⟨0x0a000000, 0x08000000⟩

/-- Additions and subtractions of an immediate. -/
def additionImmediate : WordClass := ⟨0x1f800000, 0x11000000⟩

/-- Additions and subtractions of an extended register. -/
def additionExtended : WordClass := ⟨0x1fe00000, 0x0b200000⟩

/-- Additions and subtractions of an immediate that leave the flags alone. -/
def flaglessImmediate : WordClass := ⟨0x3f800000, 0x11000000⟩

/-- Additions and subtractions of an extended register that leave the flags alone. -/
def flaglessExtended : WordClass := ⟨0x3fe00000, 0x0b200000⟩

/-- Conjunctions with an immediate that leave the flags alone. -/
def andImmediate : WordClass := ⟨0x7f800000, 0x12000000⟩

/-- Disjunctions with an immediate. -/
def orImmediate : WordClass := ⟨0x7f800000, 0x32000000⟩

/-- Exclusive disjunctions with an immediate. -/
def xorImmediate : WordClass := ⟨0x7f800000, 0x52000000⟩

/-- Signing and authentication of a pointer with a modifier register. -/
def authentication : WordClass := ⟨0xffffe000, 0xdac10000⟩

/-- Branches to an authenticated pointer with a modifier register. -/
def authenticatedBranch : WordClass := ⟨0xffdff800, 0xd71f0800⟩

/-- The generic authentication code. -/
def genericAuthentication : WordClass := ⟨0xffe0fc00, 0x9ac03000⟩

end WordClass

/-- The classes of instructions that read number 31 in the register field from `shift` up as the
stack pointer: as the base of a memory operand or the first source of an addition at 5, as a
destination that is written without setting flags at 0, and as the modifier of an
authentication. -/
def stackPointerClasses : ℕ → List WordClass
  | 0 => [.flaglessImmediate, .flaglessExtended, .andImmediate, .orImmediate, .xorImmediate,
      .authenticatedBranch]
  | 5 => [.loadStore, .additionImmediate, .additionExtended, .authentication]
  | 16 => [.genericAuthentication]
  | _ => []

/-- Number 31 in the register field from `shift` up of this word is the stack pointer; in any other
register field it is the zero register. -/
def readsStackPointer (word : UInt32) (shift : ℕ) : Bool :=
  (stackPointerClasses shift).any (·.includes word)

namespace Format

/-- The bits that tell a class apart from what the format fixes. -/
def conflict (f : Format) (c : WordClass) : UInt32 :=
  (f.fixed ^^^ c.bits) &&& c.mask

/-- Whether the words of a format are of a class, if the format alone tells. -/
def within? (f : Format) (c : WordClass) : Option Bool :=
  if f.conflict c ||| f.free != f.free then some false
  else if c.mask &&& f.free == 0 then some true
  else none

/-- Whether the words of a format are of one of several classes, if the format alone tells. -/
def withinAny? (f : Format) : List WordClass → Option Bool
  | [] => some false
  | c :: classes =>
    match f.within? c with
    | some false => f.withinAny? classes
    | some true => some true
    | none => none

/-- Whether number 31 is the stack pointer in a register field of a format, if the format alone
tells. -/
def readsStackPointer? (f : Format) (shift : ℕ) : Option Bool :=
  f.withinAny? (stackPointerClasses shift)

/-- Every register slot of the format takes the register that number 31 is there. -/
def rolesAgree (f : Format) : Bool :=
  f.slots.all fun
    | .register shift role => f.readsStackPointer? shift == some (role == .address)
    | _ => true

namespace Describes

variable {f : Format} {e : Encoding}

/-- The bits in which a word differs from those that a class has. -/
theorem testBit_differing (word bits mask : UInt32) (i : ℕ) :
    ((word ^^^ bits) &&& mask).toNat.testBit i =
      ((word.toNat.testBit i ^^ bits.toNat.testBit i) && mask.toNat.testBit i) := by
  rw [testBit_and_word, UInt32.toNat_xor, Nat.testBit_xor]

/-- Where some bit of a class is fixed by the format, and not to what the class has, no word of the
format is of the class. -/
theorem not_includes_of_conflict (h : f.Describes e) (hd : f.disjoint = true) {c : WordClass}
    (hconflict : f.conflict c ||| f.free ≠ f.free) : c.includes e.word = false := by
  obtain ⟨i, hi⟩ : ∃ i, (f.conflict c ||| f.free).toNat.testBit i ≠ f.free.toNat.testBit i := by
    by_contra hall
    rw [not_exists] at hall
    simp only [not_not] at hall
    exact hconflict (UInt32.toNat_inj.mp (Nat.eq_of_testBit_eq hall))
  rw [testBit_or_word] at hi
  cases hfree : f.free.toNat.testBit i with
  | true =>
    rw [hfree, Bool.or_true] at hi
    exact absurd rfl hi
  | false =>
    rw [hfree, Bool.or_false, conflict, testBit_differing, ← h.testBit_fixed hd hfree,
      ← testBit_differing] at hi
    rw [WordClass.includes, beq_eq_false_iff_ne]
    intro hzero
    rw [hzero, UInt32.toNat_zero, Nat.zero_testBit] at hi
    exact hi rfl

/-- Where all bits of a class are fixed by the format, and to what the class has, each word of the
format is of the class. -/
theorem includes_of_fixed (h : f.Describes e) (hd : f.disjoint = true) {c : WordClass}
    (hconflict : f.conflict c ||| f.free = f.free) (hmask : c.mask &&& f.free = 0) :
    c.includes e.word = true := by
  rw [WordClass.includes, beq_iff_eq]
  apply UInt32.toNat_inj.mp
  apply Nat.eq_of_testBit_eq
  intro i
  rw [testBit_differing, UInt32.toNat_zero, Nat.zero_testBit]
  cases hi : c.mask.toNat.testBit i with
  | false => exact Bool.and_false _
  | true =>
    have hfree : f.free.toNat.testBit i = false := by
      have hand := testBit_and_word c.mask f.free i
      rw [hmask, UInt32.toNat_zero, Nat.zero_testBit, hi, Bool.true_and] at hand
      exact hand.symm
    have hagree := testBit_or_word (f.conflict c) f.free i
    rw [hconflict, hfree, Bool.or_false, conflict, testBit_differing, hi] at hagree
    rw [h.testBit_fixed hd hfree, ← hagree]

/-- What a format tells of a class holds of its words. -/
theorem includes_of_within? (h : f.Describes e) (hd : f.disjoint = true) {c : WordClass} {b : Bool}
    (hwithin : f.within? c = some b) : c.includes e.word = b := by
  rw [within?] at hwithin
  split at hwithin
  next hne =>
    cases hwithin
    exact h.not_includes_of_conflict hd (bne_iff_ne.mp hne)
  next heq =>
    rw [bne_iff_ne, ne_eq, not_not] at heq
    split at hwithin
    next hmask =>
      cases hwithin
      exact h.includes_of_fixed hd heq (beq_iff_eq.mp hmask)
    next => cases hwithin

theorem any_includes_of_withinAny? (h : f.Describes e) (hd : f.disjoint = true)
    {classes : List WordClass} {b : Bool} (hwithin : f.withinAny? classes = some b) :
    classes.any (·.includes e.word) = b := by
  induction classes with
  | nil => exact Option.some.inj hwithin
  | cons c classes ih =>
    rw [withinAny?] at hwithin
    rw [List.any_cons]
    split at hwithin
    next hc => rw [h.includes_of_within? hd hc, Bool.false_or, ih hwithin]
    -- one class that includes the word is enough, whatever the format leaves open of the others
    next hc => rw [h.includes_of_within? hd hc, Bool.true_or, Option.some.inj hwithin]
    next => cases hwithin

/-- In a word of a format whose roles agree, number 31 denotes the register that fills the
field. -/
theorem readsStackPointer_of_mem (h : f.Describes e) (hd : f.disjoint = true)
    (hroles : f.rolesAgree = true) {shift : ℕ} {r : Register}
    (hpart : .register shift r ∈ e.parts) :
    r.Valid ∧ (r.isStackPointer = true → readsStackPointer e.word shift = true) ∧
      (r.zero = true → readsStackPointer e.word shift = false) := by
  obtain ⟨slot, hmem, hfits⟩ := h.exists_slot hpart
  cases slot with
  | register shift' role =>
    obtain ⟨r', hr, hrole⟩ := hfits
    obtain ⟨rfl, rfl⟩ := Part.register.inj hr
    -- what the format says of its slot it says of all its words, so of this one
    have hagree := List.all_eq_true.mp hroles _ hmem
    have hreads : readsStackPointer e.word shift = (role == .address) :=
      h.any_includes_of_withinAny? hd (beq_iff_eq.mp hagree)
    rw [hreads]
    cases role with
    | plain => exact ⟨hrole.1, fun hsp => absurd hsp (by simp [hrole.2]), fun _ => rfl⟩
    | address => exact ⟨hrole.1, fun _ => rfl, fun hzero => absurd hzero (by simp [hrole.2])⟩
  | operand => exact absurd hfits.choose_spec.1 (by simp)
  | constant | option => cases hfits
  | choice => exact absurd hfits.choose_spec.1 (by simp)

end Describes

end Format

end InlineA64
