import InlineA64.Program
import InlineA64.Proofs.Block.Alike
import InlineA64.Proofs.Block.Lockstep

/-!
# Two passes are enough

The first pass over a program evaluates forward references without knowing the labels, and the
second with the addresses that the first gave them. That leads to the right words only if the second
pass gives every label the address that the first did. It does, since the two passes stay parallel
(`Block.parallel_of_step`): so when the second binds a label, the variable holds the address
already. A third pass would then start from the variables that the second started from, and do the
same (`Program.two_passes_enough`).

The one directive that can lay out the rest of a program depending on a value is `ALIGN`, so the
operands of those that are executed have to be plain.
-/

namespace InlineA64

namespace Block

open Machine (environment)

/-- The operands of the `ALIGN` directives that a run executes. -/
def alignOperands (env : Environment Machine Name) :
    (fuel : Nat) → Block Machine Name → List Cursor
  | 0, _ => []
  | fuel + 1, b =>
    (alignOperand? b.cursor).toList ++
      match step env b with
      | .ok .more b' => alignOperands env fuel b'
      | _ => []

variable {b b' b₁ b₁' c c' : Block Machine Name}

/-! ## The second pass over labels -/

/-- A step beside one that binds what the variables hold already changes no variable. -/
theorem vars_of_step (hb : Parallel b b')
    (hplain : ∀ s, alignOperand? b.cursor = some s → plainOperand s) {next next' : Next}
    (h : step environment b = .ok next b₁) (h' : step environment b' = .ok next' b₁')
    (hvars : ∀ name ∈ b₁.labels, b'.state.vars.get? name = b₁.state.vars.get? name) :
    b₁'.state.vars = b'.state.vars := by
  have hb₁ : Parallel b₁ b₁' := (parallel_of_step hb hplain h h').2
  -- the blocks stay parallel, so both steps bind a label or none does
  obtain ⟨-, ⟨hlabels, -⟩ | ⟨name, hname, hlabels, hbound⟩⟩ := step_labels h
  · obtain ⟨-, ⟨-, hvars'⟩ | ⟨name', -, hlabels', -⟩⟩ := step_labels h'
    · exact hvars'
    · rw [← hb₁.labels, hlabels, hb.labels] at hlabels'
      exact absurd hlabels' (List.cons_ne_self _ _).symm
  · obtain ⟨-, ⟨hlabels', -⟩ | ⟨name', -, hlabels', hbound'⟩⟩ := step_labels h'
    · rw [← hb₁.labels, hlabels, hb.labels] at hlabels'
      exact absurd hlabels' (List.cons_ne_self _ _)
    · rw [← hb₁.labels, hlabels] at hlabels'
      obtain ⟨rfl, -⟩ := List.cons_eq_cons.mp hlabels'
      rw [hbound']
      -- they bind it to one address, which is the one that the variable holds
      refine Machine.vars_bindLabel_of_get? ?_
      have hmem : name ∈ b₁.labels := hlabels ▸ List.mem_cons_self
      rw [hvars name hmem, hbound, Machine.get?_bindLabel, if_pos rfl, hb₁.logical]

/-- A run beside one that ends with the variables it starts from ends with them too. -/
theorem vars_of_steps (fuel : Nat) (hb : Parallel b b')
    (hplain : ∀ s ∈ alignOperands environment fuel b, plainOperand s) {last last' : Next}
    (h : steps environment fuel b = .ok last c) (h' : steps environment fuel b' = .ok last' c')
    (hvars : b'.state.vars = c.state.vars) : c'.state.vars = c.state.vars := by
  -- what carries the induction: beside the first run, the second has its final variables throughout
  induction fuel generalizing b b' with
  | zero => rw [(pure_eq_ok.mp h').2, hvars]
  | succ fuel ih =>
    have hplain₁ : ∀ s, alignOperand? b.cursor = some s → plainOperand s := by
      intro s hs
      refine hplain s (List.mem_append_left _ ?_)
      rw [hs]
      exact List.mem_singleton_self s
    rcases steps_succ_eq_ok h with ⟨b₁, hstep, h⟩ | ⟨hstep, -⟩
    · rcases steps_succ_eq_ok h' with ⟨b₁', hstep', h'⟩ | ⟨hstep', -⟩
      · have hb₁ : Parallel b₁ b₁' := (parallel_of_step hb hplain₁ hstep hstep').2
        -- a label bound here keeps its address to the end, where the second run has it from
        have hvars₁ : b₁'.state.vars = b'.state.vars := by
          refine vars_of_step hb hplain₁ hstep hstep' fun name hname => ?_
          rw [hvars, get?_of_steps fuel h hname]
        refine ih hb₁ (fun s hs => hplain s (List.mem_append_right _ ?_)) h h' (hvars₁.trans hvars)
        rw [hstep]
        exact hs
      · cases (parallel_of_step hb hplain₁ hstep hstep').1
    · rcases steps_succ_eq_ok h' with ⟨b₁', hstep', h'⟩ | ⟨hstep', -⟩
      · cases (parallel_of_step hb hplain₁ hstep hstep').1
      · refine (vars_of_step hb hplain₁ hstep hstep' fun name _ => ?_).trans hvars
        rw [hvars]

end Block

namespace Program

open Machine (environment)

/-- The block of a pass when its first statement starts. -/
def start (base : UInt64) (options : Options) (machine : Machine) (cursor : Cursor) :
    Block Machine Name :=
  .ofPlacement ((Placement.ofOrigin base).withOptions options) machine.withEmptyImage
    cursor.skipBlanks

/-- The operands of the `ALIGN` directives that the first pass executes. -/
def alignOperands (base : UInt64) (cursor : Cursor) : List Cursor :=
  Block.alignOperands environment (cursor.skipBlanks.remaining + 1)
    (start base (.ofInt 0) (.ofBase base) cursor)

variable {base : UInt64} {options : Options} {machine w : Machine} {cursor : Cursor}

theorem run_eq_steps (base : UInt64) (options : Options) (machine : Machine) (cursor : Cursor) :
    Block.run environment (.ofPlacement ((Placement.ofOrigin base).withOptions options)
      machine.withEmptyImage cursor) =
    Block.steps environment (cursor.skipBlanks.remaining + 1)
      (start base options machine cursor) :=
  rfl

/-- A pass that succeeds is a run to the end of the text. -/
theorem steps_of_pass (h : pass base options machine cursor = .ok w) :
    ∃ last b, Block.steps environment (cursor.skipBlanks.remaining + 1)
      (start base options machine cursor) = .ok last b ∧ b.state = w := by
  rcases hsteps : Block.steps environment (cursor.skipBlanks.remaining + 1)
    (start base options machine cursor) with ⟨last, b⟩ | ⟨e, b⟩
  · have hassemble : Block.assemble environment ((Placement.ofOrigin base).withOptions options)
        machine.withEmptyImage cursor = ⟨none, b.placement, b.state, b.cursor⟩ := by
      rw [Block.assemble, run_eq_steps, hsteps]
    refine ⟨last, b, rfl, ?_⟩
    rw [pass, hassemble] at h
    dsimp only at h
    split at h
    · exact Except.ok.inj h
    · cases h
  · have hassemble : Block.assemble environment ((Placement.ofOrigin base).withOptions options)
        machine.withEmptyImage cursor = ⟨some e, b.placement, b.state, b.cursor⟩ := by
      rw [Block.assemble, run_eq_steps, hsteps]
    rw [pass, hassemble] at h
    cases h

theorem fixed_of_pass (h : pass base options machine cursor = .ok w) : w.fixed = machine.fixed := by
  obtain ⟨last, b, hsteps, rfl⟩ := steps_of_pass h
  exact Block.fixed_of_steps _ hsteps

/-- A pass that starts with the same variables does the same, whatever was listed before. -/
theorem pass_congr {machine' : Machine} (hvars : machine.vars = machine'.vars)
    (hfixed : machine.fixed = machine'.fixed) (h : pass base options machine cursor = .ok w) :
    ∃ w', pass base options machine' cursor = .ok w' ∧ w.SameCode w' := by
  simp only [Machine.fixed, Prod.mk.injEq] at hfixed
  have hstart : machine.withEmptyImage.SameCode machine'.withEmptyImage := {
    image := congrArg Image.empty hfixed.1
    vars := hvars
    symbols := hfixed.2.1
    systemCalls := hfixed.2.2 }
  -- what was listed and flushed may differ, but nothing depends on it
  obtain ⟨hfailure, -, hstate, hcursor⟩ :=
    Block.assemble_matches Machine.environment_respects
      (rfl : ((Placement.ofOrigin base).withOptions options).unlisted = _) hstart cursor
  simp only [pass] at h ⊢
  rw [← hfailure, ← hcursor]
  split at h
  · cases h
  · split at h
    · next hend =>
      rw [if_pos hend]
      exact ⟨_, rfl, Except.ok.inj h ▸ hstate⟩
    · cases h

/-- The labels have the same addresses after the second pass as after the first. -/
theorem vars_of_second_pass {first second : Machine}
    (hfirst : pass base (.ofInt 0) (.ofBase base) cursor = .ok first)
    (hplain : ∀ s ∈ alignOperands base cursor, Block.plainOperand s)
    (hsecond : pass base (.ofInt 2) first cursor = .ok second) : second.vars = first.vars := by
  obtain ⟨last, b, hb, rfl⟩ := steps_of_pass hfirst
  obtain ⟨last', b', hb', rfl⟩ := steps_of_pass hsecond
  have hnumeric : b.state.Numeric :=
    Block.numeric_of_steps _ hb (Machine.numeric_ofBase base)
  have hparallel : (start base (.ofInt 0) (.ofBase base) cursor).Parallel
      (start base (.ofInt 2) b.state cursor) :=
    ⟨rfl, rfl, rfl, rfl, Machine.numeric_ofBase base, hnumeric⟩
  exact Block.vars_of_steps _ hparallel hplain hb hb' rfl

/-- Two passes over a program are enough. The second gives every variable, and so every label, the
value that it has after the first; and a third would succeed, with the same memory image and the
same variables. No reference in the image was encoded against an address that is out of date. -/
theorem two_passes_enough {bytes : Array Byte} (h : assemble cursor base = .ok bytes)
    (hplain : ∀ s ∈ alignOperands base cursor, Block.plainOperand s) :
    ∃ first second third, pass base (.ofInt 0) (.ofBase base) cursor = .ok first ∧
      pass base (.ofInt 2) first cursor = .ok second ∧
      pass base (.ofInt 2) second cursor = .ok third ∧
      second.image.bytes = bytes ∧ second.vars = first.vars ∧
      third.image = second.image ∧ third.vars = second.vars := by
  obtain ⟨first, hfirst, h⟩ := except_bind_eq_ok.mp h
  obtain ⟨second, hsecond, h⟩ := except_bind_eq_ok.mp h
  have hvars : second.vars = first.vars := vars_of_second_pass hfirst hplain hsecond
  -- the third pass starts from the variables of the second, up to what was listed
  obtain ⟨third, hthird, hsame⟩ :=
    pass_congr hvars.symm (fixed_of_pass hsecond).symm hsecond
  exact ⟨first, second, third, hfirst, hsecond, hthird, Except.ok.inj h, hvars,
    hsame.image.symm, hsame.vars.symm⟩

/-- A branch to a label behind it, between an alignment to a doubleword and one to a word. -/
theorem two_passes_enough_forward :
    ∃ first second third,
      pass 0x8000 (.ofInt 0) (.ofBase 0x8000) (.ofString "EQUB 1:ALIGN 8:B on:ALIGN:.on RET") =
        .ok first ∧
      pass 0x8000 (.ofInt 2) first (.ofString "EQUB 1:ALIGN 8:B on:ALIGN:.on RET") = .ok second ∧
      pass 0x8000 (.ofInt 2) second (.ofString "EQUB 1:ALIGN 8:B on:ALIGN:.on RET") = .ok third ∧
      second.image.bytes =
        #[0x01, 0, 0, 0, 0x1f, 0x20, 0x03, 0xd5, 0x01, 0, 0, 0x14, 0xc0, 0x03, 0x5f, 0xd6] ∧
      second.vars = first.vars ∧ third.image = second.image ∧ third.vars = second.vars :=
  two_passes_enough (except_toOption_eq_some.mp (by decide +kernel)) (by decide +kernel)

end Program

end InlineA64
