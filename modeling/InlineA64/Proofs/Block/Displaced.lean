import InlineA64.Proofs.Block.Beside
import InlineA64.Proofs.Block.Layout
import InlineA64.Proofs.Image
import Mathlib.Algebra.Group.Nat.Defs

/-!
# Blocks at a distance

Two blocks do the same at a distance `δ`: the code of the second is placed so much further on, and
every number that a variable holds is greater by as much, while the bytes of each are written at the
same distance from the base of its own image (`Block.Displaced`). All that a block does keeps it so
(`Block.simulation_displaced`), provided that `δ` is a multiple of all that code can be aligned to,
and that the images do not reach around the end of memory, where the order of addresses would tell
them apart (`Image.Low`).
-/

namespace InlineA64

open Cursor (Embeds)
open Machine (environment)

namespace Image

/-- An image at this base has its greatest size, and as much again, below the end of memory. -/
def Low (base : UInt64) : Prop :=
  base.toNat ≤ 2 ^ 64 - 2 ^ 25

/-- What can be written to an image that ends below the end of memory depends on the distance from
its base alone. -/
theorem write_eq_ok_iff {image image' : Image} {address : UInt64} {bytes : List Byte}
    (hlow : Low image.base) : image.write address bytes = .ok image' ↔
      (address - image.base).toNat + bytes.length ≤ capacity ∧
        image' = image.patched (address - image.base).toNat bytes := by
  have hdistance : (address - image.base).toNat =
      (2 ^ 64 - image.base.toNat + address.toNat) % 2 ^ 64 := UInt64.toNat_sub address image.base
  have hlt := address.toNat_lt
  rw [Low] at hlow
  rw [write, offset?]
  by_cases hle : image.base ≤ address
  · have hsub : address.toNat - image.base.toNat = (address - image.base).toNat := by
      rw [UInt64.le_iff_toNat_le] at hle
      omega
    rw [if_pos hle, hsub]
    by_cases hfits : (address - image.base).toNat + bytes.length ≤ capacity
    · rw [if_pos hfits]
      rw [and_iff_right hfits, Except.ok.injEq, eq_comm]
      rfl
    · rw [if_neg hfits]
      exact iff_of_false (fun h => by cases h) fun h => hfits h.1
  · -- an address below the base is farther from it, around the end of memory, than images reach
    have hfar : ¬(address - image.base).toNat + bytes.length ≤ capacity := by
      rw [UInt64.le_iff_toNat_le] at hle
      rw [capacity]
      omega
    rw [if_neg hle]
    exact iff_of_false (fun h => by cases h) fun h => hfar h.1

end Image

/-- A value at a distance: integers are addresses. -/
def Value.displaced (δ : UInt64) : Value → Value
  | int n => int (n + δ.toInt64)
  | v => v

/-- What a variable holds at a distance: numbers are addresses. -/
def Variable.displaced (δ : UInt64) : Variable → Variable
  | numeric n => numeric (n + δ.toInt64)
  | string bytes => string bytes

theorem Value.map_displaced_zero (v? : Option Value) : v?.map (displaced 0) = v? := by
  rcases v? with _ | n | f | bytes
  · rfl
  · exact congrArg (fun n => some (int n)) (Int64.add_zero n)
  · rfl
  · rfl

theorem Variable.map_displaced_zero (v? : Option Variable) : v?.map (displaced 0) = v? := by
  rcases v? with _ | n | bytes
  · rfl
  · exact congrArg (fun n => some (numeric n)) (Int64.add_zero n)
  · rfl

theorem Variable.displaced_neg (δ : UInt64) (v : Variable) :
    (v.displaced δ).displaced (-δ) = v := by
  cases v with
  | numeric n =>
    rw [displaced, displaced, UInt64.toInt64_neg]
    congr 1
    grind
  | string bytes => rfl

namespace Placement

/-- The distance to a multiple is the same from an address that is further on by a multiple. -/
theorem padTo_add {unit address δ : UInt64} (hunit : unit ∈ [4, 8, 16, 32, 64, 128])
    (hδ : δ % 128 = 0) : padTo unit (address + δ) = padTo unit address := by
  have hlt := address.toNat_lt
  have hlt' := δ.toNat_lt
  replace hδ : δ.toNat % 128 = 0 := by
    have hzero := congrArg UInt64.toNat hδ
    rwa [UInt64.toNat_mod] at hzero
  -- both distances are remainders modulo the unit, which divides the modulus of addresses
  apply UInt64.toNat_inj.mp
  rw [padTo, padTo, UInt64.toNat_mod, UInt64.toNat_mod, UInt64.toNat_sub, UInt64.toNat_sub,
    UInt64.toNat_add]
  change (2 ^ 64 - (address.toNat + δ.toNat) % 2 ^ 64 + 0) % 2 ^ 64 % unit.toNat =
    (2 ^ 64 - address.toNat + 0) % 2 ^ 64 % unit.toNat
  simp only [List.mem_cons, List.not_mem_nil, or_false] at hunit
  rcases hunit with rfl | rfl | rfl | rfl | rfl | rfl <;>
    simp only [UInt64.reduceToNat] <;> omega

theorem mem_of_alignments {n : Int64} (h : Block.alignments.contains n = true) :
    n.toUInt64 ∈ [4, 8, 16, 32, 64, 128] := by
  rw [Block.alignments, List.contains_iff_mem] at h
  simp only [List.mem_cons, List.not_mem_nil, or_false] at h
  rcases h with rfl | rfl | rfl | rfl | rfl | rfl <;> decide

end Placement

namespace Block

/-- What the second of two blocks comes to is what the first does, at a distance. The options of
both are fixed. -/
structure Displaced (δ : UInt64) (o o' : Options) (k k' : Standing) : Prop where
  logical : k'.position.placement.logical = k.position.placement.logical + δ
  place : k'.position.placement.writeAddress - k'.machine.image.base =
    k.position.placement.writeAddress - k.machine.image.base
  options : k.position.placement.options = o
  options' : k'.position.placement.options = o'
  fresh : k'.position.fresh = k.position.fresh
  labels : k'.labels = k.labels
  low : Image.Low k.machine.image.base
  low' : Image.Low k'.machine.image.base
  bytes : k'.machine.image.bytes = k.machine.image.bytes
  vars (name : Name) : k'.machine.vars.get? name =
    (k.machine.vars.get? name).map (Variable.displaced δ)
  symbols : k'.machine.symbols = k.machine.symbols
  systemCalls : k'.machine.systemCalls = k.machine.systemCalls
  -- while labels may not have been bound before, no other variable tells the two apart
  others : o.rangeCheck = true ∨ δ = 0 ∨
    ∀ name, (k.machine.vars.get? name).isSome → name ∈ k.labels

variable {δ : UInt64} {o o' : Options} {k k' : Standing}

namespace Displaced

/-- Of two blocks at a distance, each is at a distance from the other. -/
theorem symm (h : Displaced δ o o' k k') (hcheck : o.rangeCheck = o'.rangeCheck) :
    Displaced (-δ) o' o k' k where
  logical := by rw [h.logical]; grind
  place := h.place.symm
  options := h.options'
  options' := h.options
  fresh := h.fresh.symm
  labels := h.labels.symm
  low := h.low'
  low' := h.low
  bytes := h.bytes.symm
  vars name := by
    rw [h.vars, Option.map_map]
    have hid : (Variable.displaced (-δ) ∘ Variable.displaced δ) = id :=
      funext (Variable.displaced_neg δ)
    rw [hid, Option.map_id_fun, id_eq]
  symbols := h.symbols.symm
  systemCalls := h.systemCalls.symm
  -- a variable that has a value on one side has one on the other
  others := by
    rcases h.others with hcheck' | rfl | hbound
    · exact .inl (hcheck.symm.trans hcheck')
    · exact .inr (.inl rfl)
    · refine .inr (.inr fun name hname => ?_)
      rw [h.vars, Option.isSome_map] at hname
      exact h.labels ▸ hbound name hname

variable (hδ : δ % 128 = 0)
include hδ

theorem aligned (h : Displaced δ o o' k k') :
    Displaced δ o o' (k.onPosition .aligned) (k'.onPosition .aligned) := by
  -- aligning moves both by the same padding
  have hpad : Placement.padTo 4 k'.position.placement.logical =
      Placement.padTo 4 k.position.placement.logical := by
    rw [h.logical, Placement.padTo_add (by decide) hδ]
  have hplace := h.place
  refine { h with logical := ?_, place := ?_ }
  · change k'.position.placement.logical + Placement.padTo 4 k'.position.placement.logical =
      k.position.placement.logical + Placement.padTo 4 k.position.placement.logical + δ
    rw [hpad, h.logical]
    grind
  · change k'.position.placement.align.writeAddress - _ =
      k.position.placement.align.writeAddress - _
    rw [Placement.align, Placement.align, Placement.writeAddress_advance,
      Placement.writeAddress_advance, hpad]
    change _ - k'.machine.image.base = _ - k.machine.image.base
    grind

omit hδ

theorem wrote (h : Displaced δ o o' k k') {bytes : List Byte} {image : Image}
    (hwrite : k.machine.image.write k.position.placement.writeAddress bytes = .ok image) :
    ∃ image', k'.machine.image.write k'.position.placement.writeAddress bytes = .ok image' ∧
      Displaced δ o o' (k.wrote bytes.length image) (k'.wrote bytes.length image') := by
  obtain ⟨hfits, rfl⟩ := (Image.write_eq_ok_iff h.low).mp hwrite
  rw [← h.place] at hfits
  refine ⟨_, (Image.write_eq_ok_iff h.low').mpr ⟨hfits, rfl⟩, ?_⟩
  have hplace := h.place
  refine { h with logical := ?_, place := ?_, bytes := ?_ }
  · change k'.position.placement.logical + _ = k.position.placement.logical + _ + δ
    rw [h.logical]
    grind
  · change (k'.position.placement.advance _).writeAddress - k'.machine.image.base =
      (k.position.placement.advance _).writeAddress - k.machine.image.base
    rw [Placement.writeAddress_advance, Placement.writeAddress_advance]
    grind
  · change Image.put bytes _ (Image.grow _ k'.machine.image.bytes) =
      Image.put bytes _ (Image.grow _ k.machine.image.bytes)
    rw [h.place, h.bytes]

/-- The number that a variable holds is greater by the distance. -/
theorem number?_eq (h : Displaced δ o o' k k') (name : Name) :
    k'.machine.number? name = (k.machine.number? name).map (· + δ.toInt64) := by
  rw [Machine.number?, Machine.number?, h.vars]
  rcases k.machine.vars.get? name with _ | _ | _ <;> rfl

theorem free (h : Displaced δ o o' k k') (hcheck : o.rangeCheck = o'.rangeCheck) {name : Name}
    (hfree : k.Free name) : k'.Free name := by
  refine ⟨h.labels ▸ hfree.1, ?_⟩
  rw [h.options', ← hcheck, ← h.options, h.number?_eq]
  -- while range checks are off, a variable that holds something cannot be bound
  rcases hfree.2 with hchecked | hzero
  · exact .inl hchecked
  rcases h.others with hchecked | rfl | hbound
  · exact .inl (h.options ▸ hchecked)
  · right
    rcases hnumber : k.machine.number? name with _ | n
    · rfl
    · rw [hnumber] at hzero
      obtain rfl : n = 0 := hzero
      rfl
  · have hnone : k.machine.vars.get? name = none := by
      rw [← Option.not_isSome_iff_eq_none]
      exact fun hname => hfree.1 (hbound name hname)
    rw [Machine.number?, hnone]
    exact .inr rfl

theorem bind (h : Displaced δ o o' k k') (name : Name) :
    Displaced δ o o' (k.bind name) (k'.bind name) := by
  rw [Standing.bind, Standing.bind, Machine.bindLabel_eq k.machine, Machine.bindLabel_eq k'.machine]
  refine { h with labels := congrArg (name :: ·) h.labels, vars := fun other => ?_, others := ?_ }
  · dsimp only
    rw [Machine.get?_bindLabel, Machine.get?_bindLabel, h.logical]
    split
    · rw [Option.map_some, Variable.displaced, UInt64.toInt64_add]
    · exact h.vars other
  · refine h.others.imp_right (Or.imp_right fun hbound other hother => ?_)
    dsimp only at hother
    rw [Machine.get?_bindLabel] at hother
    split at hother
    · next heq => exact heq ▸ List.mem_cons_self
    · exact List.mem_cons_of_mem name (hbound other hother)

end Displaced

/-- All that a block does keeps another at a distance from it. -/
theorem simulation_displaced (hδ : δ % 128 = 0) (hcheck : o.rangeCheck = o'.rangeCheck)
    (hlimit' : o'.limitCheck = false) :
    Simulation (fun _ => True) (Displaced δ o o') where
  data := {
    aligned := fun ⟨h, hfresh⟩ => ⟨h.aligned hδ, hfresh⟩
    wrote := fun ⟨h, hfresh⟩ hwrite => by
      obtain ⟨image', hwrite', hwrote⟩ := h.wrote hwrite
      exact ⟨image', hwrite', hwrote, hfresh⟩
    rangeCheck := fun ⟨h, _⟩ => by rw [h.options, h.options', hcheck]; exact id
    padding := fun ⟨h, _⟩ hn => by
      rw [h.logical, Placement.padTo_add (Placement.mem_of_alignments hn) hδ]
    symbols := fun ⟨h, _⟩ => h.symbols.symm
    systemCalls := fun ⟨h, _⟩ => h.systemCalls.symm }
  settled h := { h with fresh := rfl }
  labelled h := by
    rw [Standing.onPosition_labelled, Standing.onPosition_labelled, h.fresh]
    split
    · exact h.aligned hδ
    · exact h
  opened h := { h with }
  flushed h := { h with }
  bound h _ hfree := ⟨h.free hcheck hfree, h.bind _⟩
  atLimit h _ := by rw [Placement.atLimit, h.options', hlimit', Bool.false_and]

theorem Displaced.toInt64_logical (h : Displaced δ o o' k k') :
    k'.scope.context.logical.toInt64 = k.scope.context.logical.toInt64 + δ.toInt64 := by
  rw [← UInt64.toInt64_add]
  exact congrArg UInt64.toInt64 h.logical

/-- A name other than `O%` stands for a value at the distance, which is no more than the logical
addresses differ by. -/
theorem Displaced.value?_eq (h : Displaced δ o o' k k') (hcheck : o.rangeCheck = o'.rangeCheck)
    {name : Name} (hname : name ≠ bytesOf "O%") :
    k'.scope.value? name = (k.scope.value? name).map (Value.displaced δ) := by
  have hcheck' : k'.scope.context.options.rangeCheck = k.scope.context.options.rangeCheck := by
    change k'.position.placement.options.rangeCheck = k.position.placement.options.rangeCheck
    rw [h.options, h.options', hcheck]
  have hvars : k'.scope.vars.get? name = (k.scope.vars.get? name).map (Variable.displaced δ) :=
    h.vars name
  rw [Expression.Scope.value?, Expression.Scope.value?, if_neg hname, if_neg hname,
    h.toInt64_logical, hvars, hcheck']
  by_cases hlabel : name = bytesOf "P%"
  · rw [if_pos hlabel, if_pos hlabel]
    rfl
  rw [if_neg hlabel, if_neg hlabel]
  -- an unknown name stands for the address if it may, and so it moves with it
  rcases k.scope.vars.get? name with _ | (n | bytes)
  · dsimp only [Option.map_none]
    split <;> rfl
  · rfl
  · rfl

/-- A block that succeeds does so at a distance, and what it comes to is at the distance then. -/
theorem Displaced.assemble {placement placement' : Placement} {w w' : Machine} {s : Cursor}
    (hδ : δ % 128 = 0) (hcheck : o.rangeCheck = o'.rangeCheck) (hlimit' : o'.limitCheck = false)
    (h : Displaced δ o o' (opened placement w s).standing (opened placement' w' s).standing)
    (hs : s.pos ≤ s.text.size)
    (hplain : ∀ b ∈ stages environment (opened placement w s), b.Plain #[] #[] (Displaced δ o o'))
    (hok : (Block.assemble environment placement w s).failure = none) :
    (Block.assemble environment placement' w' s).cursor =
        (Block.assemble environment placement w s).cursor ∧
      ∃ k k', Displaced δ o o' k k' ∧ (Block.assemble environment placement w s).Closes k ∧
        (Block.assemble environment placement' w' s).Closes k' := by
  have hbeside : Beside #[] #[] (Displaced δ o o') (opened placement w s)
      (opened placement' w' s) := ⟨(Cursor.embeds_self hs).skipBlanks, h⟩
  obtain ⟨k, k', hk, hclosed, hclosed', hcursor⟩ :=
    hbeside.assemble (simulation_displaced hδ hcheck hlimit') hplain (fun _ _ _ _ => trivial) hok
  exact ⟨hcursor.eq, k, k', hk, hclosed, hclosed'⟩

end Block

end InlineA64
