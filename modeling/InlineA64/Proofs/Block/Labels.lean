import InlineA64.Proofs.Block.Frame
import InlineA64.Proofs.Machine

/-!
# The variables of a machine during a run

A step of a block binds one label that was not bound before, or none (`Block.step_labels`). A label
that is bound keeps its address to the end of the run (`Block.get?_of_steps`), since there is
nothing else that changes a variable.
-/

namespace InlineA64

namespace Machine

/-- What no run changes of a machine. -/
def fixed (w : Machine) : UInt64 × Bindings String UInt64 × Bindings SystemCall UInt64 :=
  (w.image.base, w.symbols, w.systemCalls)

theorem fixed_bindLabel (w : Machine) (name : Name) (address : UInt64) :
    (w.bindLabel name address).fixed = w.fixed := by
  rw [bindLabel, declare]
  split <;> rfl

theorem base_of_write {image image' : Image} {address : UInt64} {bytes : List Byte}
    (h : image.write address bytes = .ok image') : image'.base = image.base := by
  rw [Image.write] at h
  split at h
  · cases h
    rfl
  · cases h

theorem environment_keeps : environment.Keeps fun w => (w.vars, w.fixed) where
  evaluate context := by
    rintro ⟨s, w⟩ v ⟨s', w'⟩ h
    obtain ⟨_, rfl⟩ := evaluate_eq_ok.mp h
    rfl
  write address bytes := by
    intro w u w' h
    obtain ⟨image, himage, rfl⟩ := write_eq_ok h
    simp only [fixed, base_of_write himage]
  flush _ _ _ := rfl
  listing _ _ := rfl

end Machine

namespace Block

open Machine (environment)

variable {b b' : Block Machine Name}

/-- A label that is bound was not bound in the block before. -/
theorem label_machine {u : Unit} (h : label environment b = .ok u b') :
    ∃ name s, Expression.name b.atLabel.cursor = .ok name s ∧ name ∉ b.labels ∧
      b' = { b.atLabel with
        cursor := b.atLabel.cursor.advanceTo s.pos
        state := b.state.bindLabel name b.atLabel.placement.logical
        labels := name :: b.labels } := by
  obtain ⟨name, kind, b₁, state, hslot, -, hbound, hstore, hb'⟩ := label_eq_ok h
  obtain ⟨s, w, hslot, hb₁⟩ := consult_eq_ok.mp hslot
  obtain ⟨hname, -, hw⟩ := Machine.slot_eq_ok hslot
  obtain rfl : b₁.state.setVariable name (.numeric b₁.placement.logical.toInt64) = state :=
    (EStateM.Result.ok.inj hstore).2
  rw [isBound, Bool.or_eq_false_iff] at hbound
  refine ⟨name, s, hname, ?_, ?_⟩
  · simpa [hb₁] using hbound.1
  · rw [hb', hb₁, hw, atLabel_labels, atLabel_state, Machine.bindLabel]

/-- What a step does to the labels of a block and to the variables: it binds a new label to the
address of the code, or does nothing. -/
theorem step_labels {next : Next} (h : step environment b = .ok next b') :
    b'.state.fixed = b.state.fixed ∧
      ((b'.labels = b.labels ∧ b'.state.vars = b.state.vars) ∨
        ∃ name, name ∉ b.labels ∧ b'.labels = name :: b.labels ∧
          b'.state.vars = (b.state.bindLabel name b'.placement.logical).vars) := by
  rw [step, get_bind] at h
  -- at the limit of the memory no step succeeds
  split at h
  · cases h
  rcases item_cases Machine.environment_keeps h with hheld | hlabel
  · simp only [held, Prod.mk.injEq] at hheld
    exact ⟨hheld.2.2, .inl ⟨hheld.1, hheld.2.1⟩⟩
  · obtain ⟨name, s, -, hname, rfl⟩ := label_machine hlabel
    exact ⟨Machine.fixed_bindLabel _ _ _, .inr ⟨name, hname, rfl, rfl⟩⟩

theorem numeric_of_step {next : Next} (h : step environment b = .ok next b')
    (hb : b.state.Numeric) : b'.state.Numeric := by
  unfold Machine.Numeric
  obtain ⟨-, ⟨-, hvars⟩ | ⟨name, -, -, hvars⟩⟩ := step_labels h
  · rw [hvars]
    exact hb
  · rw [hvars]
    exact hb.bindLabel _ _

/-- A label that is bound keeps its address in a step. -/
theorem get?_of_step {next : Next} (h : step environment b = .ok next b') {name : Name}
    (hname : name ∈ b.labels) :
    name ∈ b'.labels ∧ b'.state.vars.get? name = b.state.vars.get? name := by
  obtain ⟨-, ⟨hlabels, hvars⟩ | ⟨new, hnew, hlabels, hvars⟩⟩ := step_labels h
  · rw [hlabels, hvars]
    exact ⟨hname, rfl⟩
  -- a label can be bound only once, so the new one is another
  · have hne : new ≠ name := fun heq => hnew (heq ▸ hname)
    rw [hlabels, hvars, Machine.get?_bindLabel, if_neg hne]
    exact ⟨List.mem_cons_of_mem new hname, rfl⟩

/-! ## Runs -/

/-- Items in sequence: there are more of them behind the first, or it was the last. -/
theorem steps_succ_eq_ok {fuel : Nat} {last : Next}
    (h : steps environment (fuel + 1) b = .ok last b') :
    (∃ b₁, step environment b = .ok .more b₁ ∧ steps environment fuel b₁ = .ok last b') ∨
      (step environment b = .ok .stop b' ∧ last = .stop) := by
  rw [steps] at h
  obtain ⟨next, b₁, hstep, h⟩ := bind_eq_ok.mp h
  cases next with
  | more => exact .inl ⟨b₁, hstep, h⟩
  | stop =>
    obtain ⟨rfl, rfl⟩ := pure_eq_ok.mp h
    exact .inr ⟨hstep, rfl⟩

theorem fixed_of_steps (fuel : Nat) {last : Next} (h : steps environment fuel b = .ok last b') :
    b'.state.fixed = b.state.fixed := by
  induction fuel generalizing b with
  | zero => rw [(pure_eq_ok.mp h).2]
  | succ fuel ih =>
    rcases steps_succ_eq_ok h with ⟨b₁, hstep, h⟩ | ⟨hstep, -⟩
    · rw [ih h, (step_labels hstep).1]
    · exact (step_labels hstep).1

theorem numeric_of_steps (fuel : Nat) {last : Next} (h : steps environment fuel b = .ok last b')
    (hb : b.state.Numeric) : b'.state.Numeric := by
  induction fuel generalizing b with
  | zero => rwa [(pure_eq_ok.mp h).2]
  | succ fuel ih =>
    rcases steps_succ_eq_ok h with ⟨b₁, hstep, h⟩ | ⟨hstep, -⟩
    · exact ih h (numeric_of_step hstep hb)
    · exact numeric_of_step hstep hb

/-- A label that is bound keeps its address to the end of a run. -/
theorem get?_of_steps (fuel : Nat) {last : Next} (h : steps environment fuel b = .ok last b')
    {name : Name} (hname : name ∈ b.labels) :
    b'.state.vars.get? name = b.state.vars.get? name := by
  induction fuel generalizing b with
  | zero => rw [(pure_eq_ok.mp h).2]
  | succ fuel ih =>
    rcases steps_succ_eq_ok h with ⟨b₁, hstep, h⟩ | ⟨hstep, -⟩
    · obtain ⟨hname₁, hget⟩ := get?_of_step hstep hname
      rw [ih h hname₁, hget]
    · exact (get?_of_step hstep hname).2

end Block

end InlineA64
