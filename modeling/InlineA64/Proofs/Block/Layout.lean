import InlineA64.Proofs.Block.Effect

/-!
# Where items write

An item that lays something out writes one chunk behind the other from where it is placed
(`Effect.write_of_mem`, `Failing.write_of_mem`). That is where the block stands before the item, or
up to three bytes behind (`Placement.align`), and no item writes beyond 256 bytes from there
(`Item.Emits.length_le`).
-/

namespace InlineA64

variable {Slot : Type}

/-! ## Alignment -/

namespace Placement

/-- Up to the next multiple of a unit it is as far as the remainder of the negated address tells, if
a whole number of units fits into the address space. -/
theorem natCast_padTo {unit : UInt64} (hdvd : unit.toNat ∣ UInt64.size)
    (address : UInt64) :
    ((padTo unit address).toNat : Int) = -(address.toNat : Int) % unit.toNat := by
  change unit.toNat ∣ 2 ^ 64 at hdvd
  have hlt := address.toNat_lt
  have hneg : (0 - address).toNat % unit.toNat = (2 ^ 64 - address.toNat) % unit.toNat := by
    rw [UInt64.toNat_sub, Nat.mod_mod_of_dvd _ hdvd]
    rfl
  -- negation wraps around, by a number of whole units
  have hwrap : ((2 ^ 64 : Nat) : Int) % unit.toNat = 0 :=
    Int.emod_eq_zero_of_dvd (Int.natCast_dvd_natCast.mpr hdvd)
  rw [padTo, UInt64.toNat_mod, hneg, Int.natCast_emod, Int.ofNat_sub (Nat.le_of_lt hlt),
    Int.sub_emod, hwrap, ← Int.zero_emod unit.toNat, ← Int.sub_emod, Int.zero_sub]

theorem toNat_padTo_four (address : UInt64) :
    (padTo 4 address).toNat = (4 - address.toNat % 4) % 4 := by
  have hpad : ((padTo 4 address).toNat : Int) = -(address.toNat : Int) % 4 :=
    natCast_padTo (by decide) address
  omega

theorem toNat_padTo_four_lt (address : UInt64) : (padTo 4 address).toNat < 4 := by
  rw [toNat_padTo_four]
  omega

/-- An address that is aligned is a multiple of four. -/
theorem align_logical_mod (s : Placement) : s.align.logical.toNat % 4 = 0 := by
  have hlt := s.logical.toNat_lt
  have hpad := toNat_padTo_four s.logical
  change (s.logical + padTo 4 s.logical).toNat % 4 = 0
  rw [UInt64.toNat_add]
  omega

/-- A multiple of four is aligned already. -/
theorem align_of_mod {s : Placement} (h : s.logical.toNat % 4 = 0) : s.align = s := by
  have hpad : padTo 4 s.logical = 0 := by
    apply UInt64.toNat_inj.mp
    rw [toNat_padTo_four]
    change _ = 0
    omega
  rw [align, hpad, advance]
  simp only [UInt64.add_zero]

end Placement

/-! ## Chunks -/

namespace Call

theorem mem_writes {address start : UInt64} {bytes : List Byte} {chunks : List (List Byte)}
    (h : (.write address bytes : Call Slot) ∈ writes start chunks) :
    ∃ done rest, chunks = done ++ bytes :: rest ∧
      address = start + UInt64.ofNat done.flatten.length := by
  induction chunks generalizing start with
  | nil => exact absurd h List.not_mem_nil
  | cons chunk chunks ih =>
    rcases List.mem_cons.mp h with h | h
    · cases h
      exact ⟨[], chunks, rfl, (UInt64.add_zero address).symm⟩
    · obtain ⟨done, rest, rfl, rfl⟩ := ih h
      refine ⟨chunk :: done, rest, rfl, ?_⟩
      rw [List.flatten_cons, List.length_append, UInt64.ofNat_add, UInt64.add_assoc]

theorem flush_not_mem_writes {first stop start : UInt64} {chunks : List (List Byte)} :
    (.flush first stop : Call Slot) ∉ writes start chunks := by
  induction chunks generalizing start with
  | nil => exact List.not_mem_nil
  | cons chunk chunks ih =>
    intro h
    rcases List.mem_cons.mp h with h | h
    · cases h
    · exact ih h

end Call

namespace Item

variable {item : Item}

/-- An item lays out 256 bytes at most, with the alignment before it if there is any. -/
theorem Emits.length_le {chunks : List (List Byte)} (h : item.Emits chunks) :
    chunks.flatten.length + (if item.aligns then 3 else 0) ≤ 256 := by
  cases item with
  | close | separator | comment | label => exact h.elim
  | statement meaning? =>
    rcases meaning? with _ | (d | i | _)
    · exact h.elim
    · cases d with
      | align =>
        -- 31 words and three bytes of padding
        obtain ⟨count, hcount, rfl⟩ := h
        rw [Block.length_flatten_noOperations]
        change count * 4 + 3 ≤ 256
        omega
      | data | string =>
        obtain ⟨bytes, hbytes, rfl⟩ := h
        rw [List.flatten_singleton]
        exact hbytes
      | byte | half | word | quad =>
        obtain ⟨n, rfl⟩ := h
        rw [List.flatten_singleton, Block.length_bytesOfNat]
        decide
      | options => exact h.elim
    · obtain ⟨word, rfl⟩ := h
      rw [List.flatten_singleton, Block.bytesOfWord, Block.length_bytesOfNat]
      change 4 + 3 ≤ 256
      decide
    · exact h.elim

theorem placed_placement (p : Position) : (item.placed p.settled).placement =
    if item.aligns then p.placement.align else p.placement := by
  rw [placed]
  split <;> rfl

/-- An item is placed where the block stands, or up to three bytes behind if it is aligned. -/
theorem placed_eq_advance (item : Item) (p : Position) :
    ∃ pad ≤ if item.aligns then 3 else 0,
      (item.placed p.settled).placement = p.placement.advance (UInt64.ofNat pad) := by
  rw [placed_placement]
  split
  · have hpad := Placement.toNat_padTo_four_lt p.placement.logical
    refine ⟨(Placement.padTo 4 p.placement.logical).toNat, by omega, ?_⟩
    rw [Placement.align, UInt64.ofNat_toNat]
  · exact ⟨0, Nat.le_refl 0, (congrArg Position.placement p.moved_zero).symm⟩

end Item

/-! ## Writes of items -/

/-- What is written from where an item is placed. -/
theorem Lays.write_of_mem {emits : List (List Byte) → Prop} {seen placed p : Position}
    {calls : List (Call Slot)} (h : Lays emits seen placed calls p) {address : UInt64}
    {bytes : List Byte} (hwrite : .write address bytes ∈ calls) :
    ∃ done rest, emits (done ++ bytes :: rest) ∧
      address = placed.placement.writeAddress + UInt64.ofNat done.flatten.length ∧
      p = placed.moved (done ++ bytes :: rest).flatten.length := by
  -- the operands come first, and they write nothing
  obtain ⟨n, hemits⟩ := h
  rcases List.mem_append.mp hwrite with hevaluate | hwrite
  · cases List.eq_of_mem_replicate hevaluate
  · obtain ⟨done, rest, rfl, rfl⟩ := Call.mem_writes hwrite
    exact ⟨done, rest, hemits, rfl, rfl⟩

theorem Breaks.write_of_mem {emits : List (List Byte) → Prop} {seen placed p : Position}
    {calls : List (Call Slot)} (h : Breaks emits seen placed calls p) {address : UInt64}
    {bytes : List Byte} (hwrite : .write address bytes ∈ calls) :
    ∃ done rest, emits (done ++ bytes :: rest) ∧
      address = placed.placement.writeAddress + UInt64.ofNat done.flatten.length := by
  cases h with
  | operand n => cases List.eq_of_mem_replicate hwrite
  | @refused n done rest last hemits =>
    -- the chunk that is refused is the last one that the environment is asked to write
    rcases List.mem_append.mp hwrite with hevaluate | hwrite
    · cases List.eq_of_mem_replicate hevaluate
    · obtain ⟨before, behind, heq, rfl⟩ := Call.mem_writes hwrite
      refine ⟨before, behind ++ rest, ?_, rfl⟩
      rw [List.append_cons, heq] at hemits
      rwa [List.append_assoc, List.cons_append] at hemits

theorem Position.write_not_mem_flushes {p : Position} {address : UInt64} {bytes : List Byte} :
    (.write address bytes : Call Slot) ∉ p.flushes := by
  rw [flushes]
  split
  · intro h
    cases List.mem_singleton.mp h
  · exact List.not_mem_nil

variable {item : Item} {p p' : Position} {calls : List (Call Slot)} {address : UInt64}
  {bytes : List Byte}

/-- An item that succeeds and writes has been placed and has moved on by all that it lays out. -/
theorem Effect.write_of_mem (h : Effect item p calls p') (hwrite : .write address bytes ∈ calls) :
    ∃ done rest, item.Emits (done ++ bytes :: rest) ∧
      address = (item.placed p.settled).placement.writeAddress +
        UInt64.ofNat done.flatten.length ∧
      p' = (item.placed p.settled).moved (done ++ bytes :: rest).flatten.length := by
  cases h with
  | close | separator => exact absurd hwrite Position.write_not_mem_flushes
  | comment => exact absurd hwrite List.not_mem_nil
  | label | options => simp at hwrite
  | lay h => exact h.write_of_mem hwrite

/-- An item that fails writes from where it is placed. -/
theorem Failing.write_of_mem (h : Failing item p calls p')
    (hwrite : .write address bytes ∈ calls) :
    ∃ done rest, item.Emits (done ++ bytes :: rest) ∧
      address = (item.placed p.settled).placement.writeAddress +
        UInt64.ofNat done.flatten.length := by
  cases h with
  | label | unknown => exact absurd hwrite List.not_mem_nil
  | store | options => simp at hwrite
  | lay _ h => exact h.write_of_mem hwrite

end InlineA64
