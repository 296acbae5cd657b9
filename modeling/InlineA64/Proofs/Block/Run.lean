import InlineA64.Proofs.Block.Onward
import Mathlib.Logic.Relation

/-!
# Whole runs

`Block.complete` deals with all items that are left of a block. It needs no fuel to be told, since
what remains of the text is enough, and it does the same from each block that it comes through
(`Block.complete_of_proceeds`). `Block.stages` lists the blocks from which the items of a run start
that succeed.
-/

namespace InlineA64.Block

variable {σ Slot : Type} [DecidableEq Slot] {env : Environment σ Slot} {b b' c : Block σ Slot}

/-- Some items of a block have been dealt with, and the block is not at its end. -/
abbrev Proceeds (env : Environment σ Slot) : Block σ Slot → Block σ Slot → Prop :=
  Relation.ReflTransGen fun b b' => step env b = .ok .more b'

/-- Deal with all items that are left. -/
def complete (env : Environment σ Slot) : Assembling σ Slot Next := fun b =>
  steps env (b.cursor.remaining + 1) b

/-- More fuel than there are bytes makes no difference. -/
theorem steps_eq_steps {fuel fuel' : Nat} (h : b.cursor.remaining < fuel)
    (h' : b.cursor.remaining < fuel') : steps env fuel b = steps env fuel' b := by
  induction fuel generalizing fuel' b with
  | zero => omega
  | succ fuel ih =>
    obtain ⟨fuel', rfl⟩ : ∃ n, fuel' = n + 1 := ⟨fuel' - 1, by omega⟩
    rw [steps, steps]
    rcases hstep : step env b with ⟨next, b₁⟩ | ⟨failure, b₁⟩
    · rw [bind_of_ok hstep, bind_of_ok hstep]
      cases next with
      | more =>
        have hless := remaining_lt_of_step hstep
        exact ih (by omega) (by omega)
      | stop => rfl
    · rw [bind_of_error hstep, bind_of_error hstep]

theorem complete_of_more (h : step env b = .ok .more b') :
    complete env b = complete env b' := by
  have hless := remaining_lt_of_step h
  rw [complete, steps, bind_of_ok h]
  exact steps_eq_steps hless (Nat.lt_succ_self _)

theorem complete_of_stop (h : step env b = .ok .stop b') : complete env b = .ok .stop b' := by
  rw [complete, steps, bind_of_ok h]
  rfl

theorem complete_of_error {failure : Failure} (h : step env b = .error failure b') :
    complete env b = .error failure b' := by
  rw [complete, steps, bind_of_error h]

theorem complete_of_proceeds (h : Proceeds env b c) : complete env b = complete env c := by
  induction h with
  | refl => rfl
  | tail _ hstep ih => rw [ih, complete_of_more hstep]

theorem onward_of_proceeds (h : Proceeds env b c) : b.Onward c := by
  induction h with
  | refl => exact .refl b.cursor
  | tail _ hstep ih => exact ih.trans ((leads_step_onward _).of_eq_ok hstep).1

/-- A run ends as the last of its items does, and all items before it succeed. -/
theorem exists_last (env : Environment σ Slot) (b : Block σ Slot) :
    ∃ c, Proceeds env b c ∧ complete env b = step env c ∧ ∀ c', step env c ≠ .ok .more c' := by
  -- the induction is on what is left of the text
  obtain ⟨n, hn⟩ : ∃ n, b.cursor.remaining < n := ⟨_, Nat.lt_succ_self _⟩
  induction n generalizing b with
  | zero => omega
  | succ n ih =>
    rcases hstep : step env b with ⟨_ | _, b₁⟩ | ⟨failure, b₁⟩
    · have hless := remaining_lt_of_step hstep
      obtain ⟨c, hc, hlast, hmore⟩ := ih b₁ (by omega)
      exact ⟨c, .head hstep hc, (complete_of_more hstep).trans hlast, hmore⟩
    · exact ⟨b, .refl, by rw [complete_of_stop hstep, hstep], fun c' h => by
        rw [hstep] at h
        cases h⟩
    · exact ⟨b, .refl, by rw [complete_of_error hstep, hstep], fun c' h => by
        rw [hstep] at h
        cases h⟩

/-- The blocks from which up to `fuel` items start that succeed. -/
def stagesOfSteps (env : Environment σ Slot) : (fuel : Nat) → Block σ Slot → List (Block σ Slot)
  | 0, _ => []
  | fuel + 1, b =>
    match step env b with
    | .ok .more b' => b :: stagesOfSteps env fuel b'
    | .ok .stop _ => [b]
    | .error _ _ => []

/-- The blocks from which the items of a run start that succeed. -/
def stages (env : Environment σ Slot) (b : Block σ Slot) : List (Block σ Slot) :=
  stagesOfSteps env (b.cursor.remaining + 1) b

theorem mem_stagesOfSteps {fuel : Nat} {next : Next} (h : Proceeds env b c)
    (hc : step env c = .ok next b') (hfuel : b.cursor.remaining < fuel) :
    c ∈ stagesOfSteps env fuel b := by
  induction h using Relation.ReflTransGen.head_induction_on generalizing fuel with
  | refl =>
    obtain ⟨fuel, rfl⟩ : ∃ n, fuel = n + 1 := ⟨fuel - 1, by omega⟩
    rw [stagesOfSteps, hc]
    cases next with
    | more => exact List.mem_cons_self
    | stop => exact List.mem_singleton_self c
  | head hstep _ ih =>
    obtain ⟨fuel, rfl⟩ : ∃ n, fuel = n + 1 := ⟨fuel - 1, by omega⟩
    have hless := remaining_lt_of_step hstep
    rw [stagesOfSteps, hstep]
    exact List.mem_cons_of_mem _ (ih (by omega))

/-- An item of a run that succeeds starts from one of its stages. -/
theorem mem_stages {next : Next} (h : Proceeds env b c) (hc : step env c = .ok next b') :
    c ∈ stages env b :=
  mem_stagesOfSteps h hc (Nat.lt_succ_self _)

theorem of_mem_stagesOfSteps {fuel : Nat} (h : c ∈ stagesOfSteps env fuel b) :
    Proceeds env b c ∧ ∃ next b', step env c = .ok next b' := by
  induction fuel generalizing b with
  | zero => cases h
  | succ fuel ih =>
    rw [stagesOfSteps] at h
    rcases hstep : step env b with ⟨_ | _, b₁⟩ | ⟨failure, b₁⟩ <;> rw [hstep] at h
    · rcases List.mem_cons.mp h with rfl | h
      · exact ⟨.refl, _, _, hstep⟩
      · exact ⟨.head hstep (ih h).1, (ih h).2⟩
    · obtain rfl := List.mem_singleton.mp h
      exact ⟨.refl, _, _, hstep⟩
    · cases h

/-- From each stage of a run an item starts that succeeds. -/
theorem of_mem_stages (h : c ∈ stages env b) :
    Proceeds env b c ∧ ∃ next b', step env c = .ok next b' :=
  of_mem_stagesOfSteps h

/-- A block when its first statement is open. -/
def opened (placement : Placement) (state : σ) (cursor : Cursor) : Block σ Slot :=
  .ofPlacement placement state cursor.skipBlanks

variable {placement : Placement} {state : σ} {cursor : Cursor}

theorem run_eq_complete : run env (.ofPlacement placement state cursor) =
    complete env (opened placement state cursor) := rfl

/-- A block whose items all succeed ends where the last of them leaves it. -/
theorem assemble_of_ok {next : Next}
    (h : complete env (opened placement state cursor) = .ok next b) :
    assemble env placement state cursor = ⟨none, b.placement, b.state, b.cursor⟩ := by
  rw [assemble, run_eq_complete, h]

/-- A block with an item that fails ends where that leaves it. -/
theorem assemble_of_error {failure : Failure}
    (h : complete env (opened placement state cursor) = .error failure b) :
    assemble env placement state cursor = ⟨some failure, b.placement, b.state, b.cursor⟩ := by
  rw [assemble, run_eq_complete, h]

/-- A block fails as the last of its items does that are looked at, and ends where that leaves
it. -/
theorem exists_failing {failure : Failure}
    (h : (assemble env placement state cursor).failure = some failure) :
    ∃ b b', Proceeds env (opened placement state cursor) b ∧ step env b = .error failure b' ∧
      assemble env placement state cursor =
        ⟨some failure, b'.placement, b'.state, b'.cursor⟩ := by
  obtain ⟨b, hb, hlast, -⟩ := exists_last env (opened placement state cursor)
  rcases hstep : step env b with ⟨next, b'⟩ | ⟨failure', b'⟩
  · rw [assemble_of_ok (hlast.trans hstep)] at h
    cases h
  · have hassemble := assemble_of_error (hlast.trans hstep)
    obtain rfl : failure' = failure := by
      rw [hassemble] at h
      exact Option.some.inj h
    exact ⟨b, b', hb, hstep, hassemble⟩

/-- A block that succeeds has been dealt with to its last item. -/
theorem complete_of_assemble (h : (assemble env placement state cursor).failure = none) :
    ∃ b, complete env (opened placement state cursor) = .ok .stop b := by
  rcases hcomplete : complete env (opened placement state cursor) with ⟨next, b⟩ | ⟨failure, b⟩
  · obtain rfl : next = .stop := next_of_steps (Nat.lt_succ_self _) hcomplete
    exact ⟨b, rfl⟩
  · rw [assemble_of_error hcomplete] at h
    cases h

end InlineA64.Block
