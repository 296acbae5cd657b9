import InlineA64.Proofs.Block.Displaced

/-!
# Code assembled where it does not run

A block can be written to a physical address that is not the one that its code is placed at. It
comes to the same as if it were written in place (`Block.offset_matches_in_place`): whether it
succeeds, the bytes, the variables and where code is placed afterwards depend on the logical address
alone, unless a program asks for the physical one or changes the options.
-/

namespace InlineA64

open Machine (environment)

/-- What names stand for where `O%` stands for nothing. -/
def Expression.Scope.unlocated? (scope : Expression.Scope) (name : Name) : Option Value :=
  if name = bytesOf "O%" then none else scope.value? name

/-- The machine with an empty image at a base address. -/
def Machine.emptyAt (w : Machine) (base : UInt64) : Machine :=
  { w with image := .empty base }

namespace Placement

/-- Code that is placed at an address and written there, with range checks and no listing. -/
def inPlace (origin : UInt64) : Placement :=
  (ofOrigin origin).withOptions (.ofInt 2)

/-- Code that is placed at an address and written to another, with range checks and no listing. -/
def apart (origin physical : UInt64) : Placement :=
  ((ofOrigin origin).withPhysical physical).withOptions (.ofInt 6)

end Placement

namespace Block

/-- The next item of a block does not set the options, and no expression that it has evaluated asks
for `O%`. -/
def unlocated (b : Block Machine Name) : Bool :=
  b.upcoming != .statement (some (.directive .options)) &&
    b.evaluations.all fun e => e.readsIn e.scope.unlocated?

variable {o o' : Options} {b : Block Machine Name}

theorem plain_of_unlocated (hcheck : o.rangeCheck = o'.rangeCheck) (h : b.unlocated = true) :
    b.Plain #[] #[] (Displaced 0 o o') := by
  rw [unlocated, Bool.and_eq_true, bne_iff_ne] at h
  refine ⟨fun heq => absurd heq h.1, fun e he k k' hk hscope => ?_, nofun⟩
  -- only the physical address tells the two scopes apart, and without it nothing does
  have hsame (name : Name) (v : Value) (hv : e.scope.unlocated? name = some v) :
      k'.scope.value? name = e.scope.value? name := by
    have hname : name ≠ bytesOf "O%" := by
      rintro rfl
      rw [Expression.Scope.unlocated?, if_pos rfl] at hv
      cases hv
    rw [hk.value?_eq hcheck hname, Value.map_displaced_zero, hscope]
  have hvalue (name : Name) (v : Value) (hv : e.scope.unlocated? name = some v) :
      e.scope.value? name = some v := by
    rw [Expression.Scope.unlocated?] at hv
    split at hv
    · cases hv
    · exact hv
  refine Evaluation.carries_of_readsIn (List.all_eq_true.mp h.2 e he) (fun v => ?_) hvalue
    fun name v hv => (hsame name v hv).trans (hvalue name v hv)
  refine e.purpose.agrees_self ?_ v
  rw [hscope]
  exact (hk.logical.trans (UInt64.add_zero _)).symm

theorem base_of_assemble {placement : Placement} {w : Machine} {s : Cursor}
    (h : (assemble environment placement w s).failure = none) :
    (assemble environment placement w s).state.image.base = w.image.base := by
  obtain ⟨c, hc⟩ := complete_of_assemble h
  rw [assemble_of_ok hc]
  exact congrArg Prod.fst (fixed_of_steps _ hc)

theorem displaced_apart (origin physical : UInt64) (horigin : origin.toNat ≤ 2 ^ 64 - 2 ^ 25)
    (hphysical : physical.toNat ≤ 2 ^ 64 - 2 ^ 25) (w : Machine) (s : Cursor) :
    Displaced 0 (.ofInt 2) (.ofInt 6)
      (opened (.inPlace origin) (w.emptyAt origin) s).standing
      (opened (.apart origin physical) (w.emptyAt physical) s).standing where
  logical := (UInt64.add_zero origin).symm
  place := by
    change physical - physical = origin - origin
    rw [UInt64.sub_self, UInt64.sub_self]
  options := rfl
  options' := rfl
  fresh := rfl
  labels := rfl
  low := horigin
  low' := hphysical
  bytes := rfl
  vars name := (Variable.map_displaced_zero _).symm
  symbols := rfl
  systemCalls := rfl
  others := .inl rfl

/-- A block that is written apart comes to the same as one that is written in place, whatever the
physical address is: even if the two differ modulo the size of a word. -/
theorem offset_matches_in_place (origin physical : UInt64)
    (horigin : origin.toNat ≤ 2 ^ 64 - 2 ^ 25)
    (hphysical : physical.toNat ≤ 2 ^ 64 - 2 ^ 25) (w : Machine) {s : Cursor}
    (hs : s.pos ≤ s.text.size)
    (hhere : ∀ b ∈ stages environment (opened (.inPlace origin) (w.emptyAt origin) s),
      b.unlocated = true)
    (hthere : ∀ b ∈ stages environment (opened (.apart origin physical) (w.emptyAt physical) s),
      b.unlocated = true) :
    let here := assemble environment (.inPlace origin) (w.emptyAt origin) s
    let there := assemble environment (.apart origin physical) (w.emptyAt physical) s
    (here.failure = none ↔ there.failure = none) ∧
      (here.failure = none →
        (∃ bytes, here.state.image = ⟨origin, bytes⟩ ∧ there.state.image = ⟨physical, bytes⟩) ∧
          (∀ name, there.state.vars.get? name = here.state.vars.get? name) ∧
          there.placement.logical = here.placement.logical ∧ there.cursor = here.cursor ∧
          there.placement.physical = physical + (here.placement.logical - origin)) := by
  intro here there
  have hdisplaced := displaced_apart origin physical horigin hphysical w s
  have hcheck : (Options.ofInt 2).rangeCheck = (Options.ofInt 6).rangeCheck := rfl
  have hforward (hok : here.failure = none) := hdisplaced.assemble rfl hcheck rfl hs
    (fun b hb => plain_of_unlocated hcheck (hhere b hb)) hok
  have hbackward (hok : there.failure = none) := (hdisplaced.symm hcheck).assemble rfl hcheck.symm
    rfl hs (fun b hb => plain_of_unlocated hcheck.symm (hthere b hb)) hok
  -- distance is symmetric, so a block that succeeds on either side does so on the other
  refine ⟨⟨fun hok => ?_, fun hok => ?_⟩, fun hok => ?_⟩
  · obtain ⟨-, k, k', -, -, hthere⟩ := hforward hok
    exact hthere.failure
  · obtain ⟨-, k, k', -, -, hhere⟩ := hbackward hok
    exact hhere.failure
  obtain ⟨hcursor, k, k', hk, hhere, hthere⟩ := hforward hok
  have hbase : here.state.image.base = origin := base_of_assemble hok
  have hbase' : there.state.image.base = physical := base_of_assemble hthere.failure
  have himage : here.state.image = k.machine.image := hhere.image
  have himage' : there.state.image = k'.machine.image := hthere.image
  refine ⟨⟨k.machine.image.bytes, ?_, ?_⟩, fun name => ?_, ?_, hcursor, ?_⟩
  · rw [← himage, ← hbase]
  · rw [← hk.bytes, ← himage', ← hbase']
  · rw [hhere.vars, hthere.vars, hk.vars, Variable.map_displaced_zero]
  · rw [hhere.logical, hthere.logical, hk.logical, UInt64.add_zero]
  · -- both write addresses are equally far from where their images start
    have hplace := hk.place
    rw [Placement.writeAddress, Placement.writeAddress, hk.options, hk.options', ← himage,
      ← himage', hbase, hbase'] at hplace
    change k'.position.placement.physical - physical = k.position.placement.logical - origin
      at hplace
    rw [hhere.logical, hthere.physical, ← hplace]
    grind

/-- A program with a label, data that is not aligned, and a physical address that is odd. -/
theorem offset_matches_in_place_odd :
    let here := assemble environment (.inPlace 0x8000) ((Machine.ofBase 0).emptyAt 0x8000)
      (.ofString ".on EQUB 1:ADR X0,on:ALIGN 8:B on:EQUQ P%")
    let there := assemble environment (.apart 0x8000 0x20001)
      ((Machine.ofBase 0).emptyAt 0x20001)
      (.ofString ".on EQUB 1:ADR X0,on:ALIGN 8:B on:EQUQ P%")
    there.failure = none ∧
      (∃ bytes, here.state.image = ⟨0x8000, bytes⟩ ∧ there.state.image = ⟨0x20001, bytes⟩) ∧
      there.placement.logical = here.placement.logical ∧
      there.placement.physical = 0x20001 + (here.placement.logical - 0x8000) := by
  obtain ⟨hiff, hsame⟩ := offset_matches_in_place 0x8000 0x20001 (by decide) (by decide) (.ofBase 0)
    (s := .ofString ".on EQUB 1:ADR X0,on:ALIGN 8:B on:EQUQ P%") (by decide +kernel)
    (List.all_eq_true.mp (by decide +kernel)) (List.all_eq_true.mp (by decide +kernel))
  have hok : (assemble environment (.inPlace 0x8000) ((Machine.ofBase 0).emptyAt 0x8000)
      (.ofString ".on EQUB 1:ADR X0,on:ALIGN 8:B on:EQUQ P%")).failure = none := by decide +kernel
  obtain ⟨hbytes, -, hlogical, -, hphysical⟩ := hsame hok
  exact ⟨hiff.mp hok, hbytes, hlogical, hphysical⟩

end Block

end InlineA64
