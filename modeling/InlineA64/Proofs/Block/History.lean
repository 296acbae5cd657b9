import InlineA64.Proofs.Block.Effect
import InlineA64.Proofs.Block.Onward

/-!
# Histories

`Block.history` lists what a block does, item by item: which item it is, where the block stands
before and behind it, and which calls it makes. `Story` says how such a list can go, from the
effects of the items, and `Block.story_of_assemble` that the history of every block goes like that
and has all the calls on record.
-/

namespace InlineA64

/-- An item that was dealt with. -/
structure Entry (Slot : Type) where
  /-- Which item it is. -/
  item : Item
  /-- Where the block stands before it. -/
  before : Position
  /-- The calls it makes. -/
  calls : List (Call Slot)
  /-- Where the block stands behind it. -/
  after : Position
deriving DecidableEq, Repr

variable {σ Slot : Type}

/-- The entries of a block from a position on, with the failure that ends it if it fails. Items
succeed until one ends the block, or fails, or is not looked at because writing has reached the
limit. -/
inductive Story : Position → List (Entry Slot) → Option Failure → Prop
  | stop {p p' : Position} {calls : List (Call Slot)} : p.placement.atLimit = false →
      Effect .close p calls p' → Story p [⟨.close, p, calls, p'⟩] none
  | fail {item : Item} {p p' : Position} {calls : List (Call Slot)} (failure : Failure) :
      p.placement.atLimit = false → Failing item p calls p' →
        Story p [⟨item, p, calls, p'⟩] (some failure)
  | limit (item : Item) {p : Position} {failure : Failure} : p.placement.atLimit = true →
      failure.fault = .addressOutOfRange p.placement.writeAddress p.placement.limit →
        Story p [⟨item, p, [], p⟩] (some failure)
  | more {e : Entry Slot} {entries : List (Entry Slot)} {failure : Option Failure} :
      e.before.placement.atLimit = false → e.item ≠ .close →
      Effect e.item e.before e.calls e.after → Story e.after entries failure →
        Story e.before (e :: entries) failure

namespace Story

variable {p : Position} {e : Entry Slot} {entries done rest : List (Entry Slot)}
  {failure : Option Failure}

/-- A story starts with its first entry. -/
theorem before_eq (h : Story p (e :: entries) failure) : e.before = p := by
  cases h with
  | stop | fail | limit | more => rfl

/-- What comes behind an item that is not the last is a story. -/
theorem tail (h : Story p (e :: rest) failure) (hrest : rest ≠ []) :
    Story e.after rest failure := by
  cases h with
  | stop | fail | limit => exact absurd rfl hrest
  | more _ _ _ h => exact h

/-- What comes behind an item that does not end the block is a story. -/
theorem tail_of_ne_close (h : Story p (e :: rest) none) (hclose : e.item ≠ .close) :
    Story e.after rest none := by
  cases h with
  | stop => exact absurd rfl hclose
  | more _ _ _ h => exact h

/-- The end of a story is one. -/
theorem split (h : Story p (done ++ e :: rest) failure) : Story e.before (e :: rest) failure := by
  induction done generalizing p with
  | nil =>
    rw [List.nil_append] at h
    rwa [h.before_eq]
  | cons first done ih =>
    exact ih (h.tail (List.append_ne_nil_of_right_ne_nil _ (List.cons_ne_nil _ _)))

/-- What holds at the start and is kept by the effects of the items holds before each of them. -/
theorem invariant {motive : Position → Prop} (h : Story p entries failure) (hp : motive p)
    (hstep : ∀ e ∈ entries, Effect e.item e.before e.calls e.after → motive e.before →
      motive e.after) : ∀ e ∈ entries, motive e.before := by
  induction h with
  | stop | fail | limit =>
    intro e he
    rw [List.mem_singleton.mp he]
    exact hp
  | more _ _ heffect _ ih =>
    intro e' he'
    rcases List.mem_cons.mp he' with rfl | he'
    · exact hp
    · exact ih (hstep _ List.mem_cons_self heffect hp)
        (fun e he => hstep e (List.mem_cons_of_mem _ he)) e' he'

/-- In a block that succeeds every item does. -/
theorem effect_of_mem (h : Story p entries none) (he : e ∈ entries) :
    Effect e.item e.before e.calls e.after := by
  generalize hnone : none = failure at h
  induction h with
  | stop _ heffect =>
    rw [List.mem_singleton.mp he]
    exact heffect
  | fail | limit => cases hnone
  | more _ _ heffect _ ih =>
    rcases List.mem_cons.mp he with rfl | he
    · exact heffect
    · exact ih he hnone

/-- What any item has done. -/
theorem cases_of_mem (h : Story p entries failure) (he : e ∈ entries) :
    (e.before.placement.atLimit = false ∧ (Effect e.item e.before e.calls e.after ∨
      Failing e.item e.before e.calls e.after)) ∨
    (e.before.placement.atLimit = true ∧ e.calls = [] ∧ entries.getLast? = some e ∧
      ∃ f, failure = some f ∧
        f.fault = .addressOutOfRange e.before.placement.writeAddress e.before.placement.limit) := by
  induction h with
  | stop hlimit heffect =>
    obtain rfl := List.mem_singleton.mp he
    exact .inl ⟨hlimit, .inl heffect⟩
  | fail _ hlimit hfailing =>
    obtain rfl := List.mem_singleton.mp he
    exact .inl ⟨hlimit, .inr hfailing⟩
  | limit item hlimit hfault =>
    obtain rfl := List.mem_singleton.mp he
    exact .inr ⟨hlimit, rfl, rfl, _, rfl, hfault⟩
  | more hlimit _ heffect hrest ih =>
    rcases List.mem_cons.mp he with rfl | he
    · exact .inl ⟨hlimit, .inl heffect⟩
    · -- the entry that meets the limit is the last one behind this one as well
      rcases ih he with h | ⟨hlimit, hcalls, hlast, h⟩
      · exact .inl h
      · exact .inr ⟨hlimit, hcalls, by rw [List.getLast?_cons, hlast]; rfl, h⟩

end Story

namespace Block

variable [DecidableEq Slot]

/-- What has been done between two states of a block. -/
def entry (b b' : Block (Recorded σ Slot) Slot) : Entry Slot :=
  ⟨b.upcoming, b.position, b'.state.calls.drop b.state.calls.length, b'.position⟩

/-- What up to `fuel` items of a block do. -/
def historyOfSteps (env : Environment σ Slot) :
    (fuel : Nat) → Block (Recorded σ Slot) Slot → List (Entry Slot)
  | 0, _ => []
  | fuel + 1, b =>
    match step env.recorded b with
    | .ok .more b' => entry b b' :: historyOfSteps env fuel b'
    | .ok .stop b' | .error _ b' => [entry b b']

/-- A block at its start, with nothing on record. -/
def opening (placement : Placement) (state : σ) (cursor : Cursor) :
    Block (Recorded σ Slot) Slot :=
  .ofPlacement placement ⟨state, []⟩ cursor.skipBlanks

/-- What the items of a block do. -/
def history (env : Environment σ Slot) (placement : Placement) (state : σ) (cursor : Cursor) :
    List (Entry Slot) :=
  historyOfSteps env (cursor.skipBlanks.remaining + 1) (opening placement state cursor)

variable {env : Environment σ Slot}

omit [DecidableEq Slot] in
theorem entry_of_after {b b' : Block (Recorded σ Slot) Slot} {calls : List (Call Slot)}
    {p : Position} (h : After b calls p b') : entry b b' = ⟨b.upcoming, b.position, calls, p⟩ := by
  rw [entry, h.calls, List.drop_left, h.position]

section Steps

variable {fuel : Nat} {b b' : Block (Recorded σ Slot) Slot} {calls : List (Call Slot)}
  {p : Position}

theorem historyOfSteps_of_more (h : step env.recorded b = .ok .more b')
    (hafter : After b calls p b') :
    historyOfSteps env (fuel + 1) b =
      ⟨b.upcoming, b.position, calls, p⟩ :: historyOfSteps env fuel b' := by
  rw [historyOfSteps, h]
  exact congrArg (· :: _) (entry_of_after hafter)

theorem historyOfSteps_of_stop (h : step env.recorded b = .ok .stop b')
    (hafter : After b calls p b') :
    historyOfSteps env (fuel + 1) b = [⟨b.upcoming, b.position, calls, p⟩] := by
  rw [historyOfSteps, h]
  exact congrArg ([·]) (entry_of_after hafter)

theorem historyOfSteps_of_error {failure : Failure} (h : step env.recorded b = .error failure b')
    (hafter : After b calls p b') :
    historyOfSteps env (fuel + 1) b = [⟨b.upcoming, b.position, calls, p⟩] := by
  rw [historyOfSteps, h]
  exact congrArg ([·]) (entry_of_after hafter)

end Steps

/-- A step finds writing at its limit, or deals with an item. -/
theorem leads_step_effect (b : Block (Recorded σ Slot) Slot) :
    Leads (step env.recorded) b
      (fun next b' => b.placement.atLimit = false ∧ Done b.upcoming b b' ∧
        (next = .stop ↔ b.upcoming = .close))
      (fun failure b' =>
        (b.placement.atLimit = false ∧ Failed b.upcoming b b') ∨
        (b.placement.atLimit = true ∧ After b [] b.position b' ∧
          failure.fault =
            .addressOutOfRange b.placement.writeAddress b.placement.limit)) :=
  .get_bind (.ite (fun h => .inr ⟨h, .of_calls rfl, rfl⟩) fun h =>
    have h := Bool.eq_false_iff.mpr h
    (leads_item_effect b).mono (fun _ _ hdone => ⟨h, hdone⟩) fun _ _ hfailed => .inl ⟨h, hfailed⟩)

theorem leads_steps_story (fuel : Nat) (b : Block (Recorded σ Slot) Slot)
    (hfuel : b.cursor.remaining < fuel) :
    Leads (steps env.recorded fuel) b
      (fun _ b' => Story b.position (historyOfSteps env fuel b) none ∧
        b'.state.calls = b.state.calls ++ (historyOfSteps env fuel b).flatMap Entry.calls)
      (fun failure b' => Story b.position (historyOfSteps env fuel b) (some failure) ∧
        b'.state.calls = b.state.calls ++ (historyOfSteps env fuel b).flatMap Entry.calls) := by
  induction fuel generalizing b with
  | zero => omega
  | succ fuel ih =>
    have hstep : Leads (step env.recorded) b _ _ := leads_step_effect b
    rw [Leads, steps]
    rcases hb : step env.recorded b with ⟨next, b₁⟩ | ⟨failure, b₁⟩
    · obtain ⟨hlimit, ⟨calls, p, heffect, hafter⟩, hstop⟩ := hstep.of_eq_ok hb
      rw [bind_of_ok hb]
      cases next with
      | more =>
        have hless := remaining_lt_of_step hb
        have hclose : b.upcoming ≠ .close := fun h => absurd (hstop.mpr h) (by decide)
        -- the item comes before all that the rest of the run does
        have hmore {failure : Option Failure} {b' : Block (Recorded σ Slot) Slot}
            (h : Story b₁.position (historyOfSteps env fuel b₁) failure ∧
              b'.state.calls =
                b₁.state.calls ++ (historyOfSteps env fuel b₁).flatMap Entry.calls) :
            Story b.position (historyOfSteps env (fuel + 1) b) failure ∧ b'.state.calls =
              b.state.calls ++ (historyOfSteps env (fuel + 1) b).flatMap Entry.calls := by
          rw [hafter.position] at h
          rw [historyOfSteps_of_more hb hafter, h.2, hafter.calls, List.flatMap_cons,
            List.append_assoc]
          exact ⟨.more (e := ⟨b.upcoming, b.position, calls, p⟩) hlimit hclose heffect h.1, rfl⟩
        exact (ih b₁ (by omega)).mono (fun _ _ => hmore) fun _ _ => hmore
      | stop =>
        have hhistory : historyOfSteps env (fuel + 1) b = [⟨b.upcoming, b.position, calls, p⟩] :=
          historyOfSteps_of_stop hb hafter
        rw [hstop.mp rfl] at heffect hhistory
        rw [hhistory]
        exact ⟨.stop hlimit heffect, by rw [List.flatMap_singleton]; exact hafter.calls⟩
    · -- whatever is at fault, there is one entry and no more
      rw [bind_of_error hb]
      rcases hstep.of_eq_error hb with
        ⟨hlimit, calls, p, hfailing, hafter⟩ | ⟨hlimit, hafter, hfault⟩
      · rw [historyOfSteps_of_error hb hafter]
        exact ⟨.fail failure hlimit hfailing, by rw [List.flatMap_singleton]; exact hafter.calls⟩
      · rw [historyOfSteps_of_error hb hafter]
        exact ⟨.limit b.upcoming hlimit hfault, by rw [List.flatMap_singleton]; exact hafter.calls⟩

/-- The history of a block is a story that ends as the block does, and has all the calls that the
block makes. -/
theorem story_of_assemble (env : Environment σ Slot) (placement : Placement) (state : σ)
    (cursor : Cursor) :
    Story ⟨placement, placement.logical, true⟩ (history env placement state cursor)
        (assemble env placement state cursor).failure ∧
      calls env placement state cursor =
        (history env placement state cursor).flatMap Entry.calls := by
  have hrun : run env.recorded (ofPlacement placement ⟨state, []⟩ cursor) =
      steps env.recorded (cursor.skipBlanks.remaining + 1) (opening placement state cursor) := rfl
  have hstory : Leads (steps env.recorded (cursor.skipBlanks.remaining + 1))
      (opening placement state cursor) _ _ := leads_steps_story _ _ (Nat.lt_succ_self _)
  rw [← failure_recorded env placement ⟨state, []⟩, calls, assemble, hrun]
  rcases hsteps : steps env.recorded (cursor.skipBlanks.remaining + 1)
    (opening placement state cursor) with ⟨next, b⟩ | ⟨failure, b⟩
  · exact hstory.of_eq_ok hsteps
  · exact hstory.of_eq_error hsteps

end Block

end InlineA64
