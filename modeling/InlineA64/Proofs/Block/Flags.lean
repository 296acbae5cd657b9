import InlineA64.Proofs.Block.Alike
import InlineA64.Proofs.Block.Split
import InlineA64.Proofs.Machine

/-!
# Range checks and listing

To check ranges is only to refuse: a block that succeeds while ranges are checked comes to the same
while they are not. There is one exception, which is why nothing else is bound twice: without range
checks a label cannot be bound whose variable holds something already. To list is only to report,
also in a block that fails (`Block.flags_only_report`).
-/

namespace InlineA64

open Machine (environment)

namespace Options

/-- The same options, with range checks or without. -/
def withRangeCheck (o : Options) (rangeCheck : Bool) : Options :=
  { o with rangeCheck }

/-- The same options, with a listing or without. -/
def withList (o : Options) (list : Bool) : Options :=
  { o with list }

end Options

theorem Machine.number?_bindLabel {w : Machine} {name other : Name} (h : name ≠ other)
    (address : UInt64) : (w.bindLabel name address).number? other = w.number? other := by
  rw [number?, number?, get?_bindLabel, if_neg h]

namespace Block

/-- The second block comes to what the first does, with the same options but for the listing and for
range checks, which the first has if the second does. Variables of labels that are still to be bound
hold what they held in the machine `w`. -/
structure Relaxed (w : Machine) (k k' : Standing) : Prop where
  same : k' = k.onPosition (·.withOptions k'.position.placement.options)
  offset : k'.position.placement.options.offset = k.position.placement.options.offset
  limitCheck : k'.position.placement.options.limitCheck = k.position.placement.options.limitCheck
  rangeCheck : k'.position.placement.options.rangeCheck = true →
    k.position.placement.options.rangeCheck = true
  held : ∀ name ∉ k.labels, (k.machine.number? name).getD 0 = (w.number? name).getD 0

variable {w : Machine} {k k' : Standing}

namespace Relaxed

theorem machine (h : Relaxed w k k') : k'.machine = k.machine := by
  rw [h.same]
  rfl

theorem writeAddress (h : Relaxed w k k') :
    k'.position.placement.writeAddress = k.position.placement.writeAddress := by
  have hoffset := h.offset
  rw [h.same] at hoffset ⊢
  rw [Placement.writeAddress, Placement.writeAddress, hoffset]
  rfl

/-- What changes the position alone, and that in the same way whatever the options are. -/
theorem onPosition (h : Relaxed w k k') {f : Position → Position}
    (hf : ∀ (p : Position) o, f (p.withOptions o) = (f p).withOptions o)
    (hoptions : ∀ p : Position, (f p).placement.options = p.placement.options) :
    Relaxed w (k.onPosition f) (k'.onPosition f) where
  -- a change that commutes with setting the options and keeps them leaves the rest the same
  same := by
    have hposition : k'.position = k.position.withOptions k'.position.placement.options :=
      congrArg Standing.position h.same
    have hk' : k'.onPosition f = { k with position := f k'.position } := by
      rw [h.same]
      rfl
    have hfk' : (k'.onPosition f).position.placement.options = k'.position.placement.options :=
      hoptions k'.position
    rw [hfk', hk', hposition, hf]
    rfl
  offset := by
    change (f k'.position).placement.options.offset = (f k.position).placement.options.offset
    rw [hoptions, hoptions, h.offset]
  limitCheck := by
    change (f k'.position).placement.options.limitCheck =
      (f k.position).placement.options.limitCheck
    rw [hoptions, hoptions, h.limitCheck]
  rangeCheck := by
    change (f k'.position).placement.options.rangeCheck = true →
      (f k.position).placement.options.rangeCheck = true
    rw [hoptions, hoptions]
    exact h.rangeCheck
  held := h.held

/-- What changes the machine but for the variables, and that in the same way on both sides. -/
theorem withMachine (h : Relaxed w k k') {machine machine' : Machine} (hsame : machine' = machine)
    (hvars : machine.vars = k.machine.vars) :
    Relaxed w { k with machine } { k' with machine := machine' } := by
  refine { h with same := ?_, held := fun name hname => ?_ }
  · rw [hsame, h.same]
    rfl
  · rw [← h.held name hname, Machine.number?, Machine.number?, hvars]

theorem flushed (h : Relaxed w k k') : Relaxed w k.flushed k'.flushed := by
  have hflushes : k'.flushes = k.flushes := by
    have hoffset := h.offset
    rw [h.same] at hoffset ⊢
    rw [Standing.flushes, Standing.flushes, hoffset]
    rfl
  refine h.withMachine ?_ rfl
  rw [hflushes, h.machine]

theorem wrote (h : Relaxed w k k') (count : Nat) (image : Image) :
    Relaxed w (k.wrote count image) (k'.wrote count image) := by
  have hmoved := h.onPosition (f := (·.moved count)) (fun _ _ => rfl) fun _ => rfl
  refine hmoved.withMachine ?_ rfl
  change { k'.machine with image } = { k.machine with image }
  rw [h.machine]

theorem bind (h : Relaxed w k k') (name : Name) : Relaxed w (k.bind name) (k'.bind name) where
  same := by
    rw [h.same]
    rfl
  offset := h.offset
  limitCheck := h.limitCheck
  rangeCheck := h.rangeCheck
  held other hother := by
    obtain ⟨hne, hother⟩ := not_or.mp fun hor => hother (List.mem_cons.mpr hor)
    rw [← h.held other hother]
    exact congrArg (·.getD 0) (Machine.number?_bindLabel (Ne.symm hne) _)

end Relaxed

/-- All that a block does while ranges are checked can be done while they are not, if the labels
that are bound hold nothing before. -/
theorem simulation_relaxed :
    Simulation (fun name => (w.number? name).getD 0 = 0) (Relaxed w) where
  data := {
    aligned := fun ⟨h, hfresh⟩ => ⟨h.onPosition (fun _ _ => rfl) fun _ => rfl, hfresh⟩
    wrote := fun ⟨h, hfresh⟩ hwrite => by
      refine ⟨_, ?_, h.wrote _ _, hfresh⟩
      rwa [h.machine, h.writeAddress]
    rangeCheck := fun ⟨h, _⟩ => h.rangeCheck
    padding := fun ⟨h, _⟩ _ => by rw [h.same]; rfl
    symbols := fun ⟨h, _⟩ => by rw [h.machine]
    systemCalls := fun ⟨h, _⟩ => by rw [h.machine] }
  settled h := h.onPosition (fun _ _ => rfl) fun _ => rfl
  labelled h := h.onPosition
    (fun p o => by
      rw [Position.labelled, Position.labelled]
      change (if p.fresh = true then _ else _) = _
      split <;> rfl)
    fun p => by
      rw [Position.labelled]
      split <;> rfl
  opened h := h.onPosition (fun _ _ => rfl) fun _ => rfl
  flushed := Relaxed.flushed
  bound h hzero hfree := by
    -- while ranges are not checked, a label is refused if its variable holds something, too
    refine ⟨⟨?_, .inr ?_⟩, h.bind _⟩
    · rw [h.same]
      exact hfree.1
    · rw [h.machine, h.held _ hfree.1, hzero]
  atLimit h hlimit := by
    rw [Placement.atLimit, h.limitCheck, h.writeAddress]
    rw [h.same]
    exact hlimit

/-- Any options can be set on both sides. -/
theorem optional_relaxed : Optional (Relaxed w) := fun o k k' h =>
  ⟨by rw [h.same]; rfl, rfl, rfl, id, h.held⟩

/-- A name that stands for something while ranges are checked stands for it while they are not. -/
theorem Relaxed.value?_eq_some (h : Relaxed w k k') {name : Name} {v : Value}
    (hv : k.scope.value? name = some v) : k'.scope.value? name = some v := by
  have hvars : k'.scope.vars = k.scope.vars := congrArg Machine.vars h.machine
  have hlogical : k'.scope.context.logical = k.scope.context.logical := by rw [h.same]; rfl
  have hphysical : k'.scope.context.physical = k.scope.context.physical := by rw [h.same]; rfl
  rw [Expression.Scope.value?] at hv ⊢
  rw [hvars, hlogical, hphysical]
  by_cases hcode : name = bytesOf "P%"
  · rwa [if_pos hcode] at hv ⊢
  by_cases hwritten : name = bytesOf "O%"
  · rwa [if_neg hcode, if_pos hwritten] at hv ⊢
  rw [if_neg hcode, if_neg hwritten] at hv ⊢
  rcases hget : k.scope.vars.get? name with _ | variable'
  · -- an unknown name has a value only while ranges are not checked
    rw [hget] at hv
    cases hcheck : k.scope.context.options.rangeCheck with
    | true =>
      rw [hcheck] at hv
      cases hv
    | false =>
      have hcheck' : k'.scope.context.options.rangeCheck = false :=
        Bool.eq_false_iff.mpr fun hcheck' => Bool.eq_false_iff.mp hcheck (h.rangeCheck hcheck')
      rw [hcheck] at hv
      rw [hcheck']
      exact hv
  · rw [hget] at hv
    exact hv

theorem plain_relaxed (b : Block Machine Name) : b.Plain #[] #[] (Relaxed w) where
  options _ := optional_relaxed
  carries e _ k k' hk hscope := by
    refine Evaluation.carries_of_value? ?_ fun name v hv => ?_
    · rw [hscope, hk.same]
      rfl
    · rw [hscope] at hv
      exact hk.value?_eq_some hv
  delimits := nofun

/-- A block at its start, with ranges checked, is beside itself with ranges unchecked. -/
theorem beside_relaxed (placement : Placement) (text : Array Byte) : Beside #[] #[] (Relaxed w)
    (opened (placement.withOptions (placement.options.withRangeCheck true)) w (.ofBytes text))
    (opened (placement.withOptions (placement.options.withRangeCheck false)) w (.ofBytes text)) :=
  ⟨(Cursor.embeds_self (Nat.zero_le _)).skipBlanks, rfl, rfl, rfl, nofun, fun _ _ => rfl⟩

/-- What a block comes to while ranges are checked it comes to while they are not, if no label that
it binds holds something before; and what it comes to, if it succeeds or fails, is the same whether
it is listed or not. -/
theorem flags_only_report (placement : Placement) (w : Machine) (text : Array Byte) :
    (∀ strict lax,
      assemble environment (placement.withOptions (placement.options.withRangeCheck true)) w
        (.ofBytes text) = strict →
      assemble environment (placement.withOptions (placement.options.withRangeCheck false)) w
        (.ofBytes text) = lax →
      (∀ name ∈ boundLabels (opened
          (placement.withOptions (placement.options.withRangeCheck true)) w (.ofBytes text)),
        (w.number? name).getD 0 = 0) →
      strict.failure = none →
        lax.failure = none ∧ lax.state.image = strict.state.image ∧
          lax.state.vars = strict.state.vars ∧ lax.placement = strict.placement ∧
          lax.state.flushed = strict.state.flushed ∧ lax.cursor = strict.cursor) ∧
    ∀ list list' listed listed',
      assemble environment (placement.withOptions (placement.options.withList list)) w
        (.ofBytes text) = listed →
      assemble environment (placement.withOptions (placement.options.withList list')) w
        (.ofBytes text) = listed' →
        listed.failure = listed'.failure ∧ listed.state.image = listed'.state.image ∧
          listed.state.vars = listed'.state.vars ∧
          listed.placement.unlisted = listed'.placement.unlisted ∧
          listed.state.flushed = listed'.state.flushed ∧ listed.cursor = listed'.cursor := by
  refine ⟨fun strict lax hstrict hlax hlabels hok => ?_, ?_⟩
  · -- a run that succeeds binds the labels it was said to bind, so each of them held nothing
    obtain ⟨k, k', hk, hclosed, hclosed', hcursor⟩ :=
      (beside_relaxed placement text).assemble simulation_relaxed (fun b _ => plain_relaxed b)
        (fun c hc name hname => hlabels name (by rwa [boundLabels_of_eq_ok hc])) (hstrict ▸ hok)
    rw [hstrict] at hclosed hcursor
    rw [hlax] at hclosed' hcursor
    refine ⟨hclosed'.failure, ?_, ?_, ?_, ?_, hcursor.eq⟩
    · rw [hclosed.image, hclosed'.image, hk.machine]
    · rw [hclosed.vars, hclosed'.vars, hk.machine]
    · rw [hclosed.placement, hclosed'.placement, hk.same]
      rfl
    · rw [hclosed.flushed, hclosed'.flushed, hk.machine]
  · -- the listing is part of no answer, so failures agree, too
    rintro list list' listed listed' rfl rfl
    have hunlisted : (placement.withOptions (placement.options.withList list)).unlisted =
        (placement.withOptions (placement.options.withList list')).unlisted := rfl
    obtain ⟨hfailure, hplacement, hmachine, hcursor⟩ :=
      assemble_matches Machine.environment_respects_unlisted hunlisted
        (⟨⟨rfl, rfl, rfl, rfl⟩, rfl⟩ : w.SameUnlisted w) (.ofBytes text)
    exact ⟨hfailure, hmachine.image, hmachine.vars, hplacement, hmachine.flushed, hcursor⟩

/-- A block that checks ranges on its own in between, with labels that are new. -/
theorem flags_only_report_options : ∃ strict lax,
    assemble environment ((Placement.ofOrigin 0x8000).withOptions
        ((Placement.ofOrigin 0x8000).options.withRangeCheck true))
      (.ofBase 0x8000) (.ofBytes ".on ADR X0,on:OPT 0:B off:OPT 3:B on".toUTF8.data) = strict ∧
    assemble environment ((Placement.ofOrigin 0x8000).withOptions
        ((Placement.ofOrigin 0x8000).options.withRangeCheck false))
      (.ofBase 0x8000) (.ofBytes ".on ADR X0,on:OPT 0:B off:OPT 3:B on".toUTF8.data) = lax ∧
    strict.failure = none ∧ lax.failure = none ∧ lax.state.image = strict.state.image ∧
      lax.state.vars = strict.state.vars ∧ lax.placement = strict.placement := by
  have hok : (assemble environment ((Placement.ofOrigin 0x8000).withOptions
        ((Placement.ofOrigin 0x8000).options.withRangeCheck true))
      (.ofBase 0x8000) (.ofBytes ".on ADR X0,on:OPT 0:B off:OPT 3:B on".toUTF8.data)).failure =
        none := by
    decide +kernel
  obtain ⟨hrelaxed, -⟩ := flags_only_report (.ofOrigin 0x8000) (.ofBase 0x8000)
    ".on ADR X0,on:OPT 0:B off:OPT 3:B on".toUTF8.data
  obtain ⟨hok', himage, hvars, hplacement, -⟩ := hrelaxed _ _ rfl rfl (by decide +kernel) hok
  exact ⟨_, _, rfl, rfl, hok, hok', himage, hvars, hplacement⟩

end Block

end InlineA64
