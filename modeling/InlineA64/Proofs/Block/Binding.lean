import InlineA64.Proofs.Block.Atomic
import Mathlib.Data.List.Nodup

/-!
# Labels are bound once

The labels of a block, its variables and the calls on record are tied together: the labels that the
block knows to be bound are those of which a binding is on record, none twice, and each of them
holds the address that it was bound to (`Block.Bound`). Every item keeps that, so that a definition
is refused just if its name was bound in the block before, or if range checks are off and its
variable holds something.

* `Block.bound_of_proceeds`: the three agree wherever a run comes through;
* `Block.binds_once`: which definitions are refused, and what is left then.
-/

namespace InlineA64

variable {σ Slot κ : Type}

/-! ## Bindings on record -/

namespace Call

/-- The slot that a call binds, with its address. -/
def binding? : Call Slot → Option (Slot × UInt64)
  | store slot address => some (slot, address)
  | evaluate _ | write .. | flush .. => none

/-- The slots that calls bind and their addresses, the first one first. -/
def bindings (calls : List (Call Slot)) : List (Slot × UInt64) :=
  calls.filterMap binding?

@[simp]
theorem bindings_append (calls calls' : List (Call Slot)) :
    bindings (calls ++ calls') = bindings calls ++ bindings calls' :=
  List.filterMap_append

theorem mem_bindings {calls : List (Call Slot)} {slot : Slot} {address : UInt64} :
    (slot, address) ∈ bindings calls ↔ .store slot address ∈ calls := by
  rw [bindings, List.mem_filterMap]
  constructor
  · rintro ⟨call, hcall, hslot⟩
    cases call with
    | store =>
      cases hslot
      exact hcall
    | evaluate | write | flush => cases hslot
  · intro hcall
    exact ⟨_, hcall, rfl⟩

theorem bindings_writes (address : UInt64) (chunks : List (List Byte)) :
    bindings (writes address chunks : List (Call Slot)) = [] := by
  induction chunks generalizing address with
  | nil => rfl
  | cons bytes chunks ih => exact ih _

theorem bindings_replicate (n : ℕ) (context : Context) :
    bindings (.replicate n (.evaluate context) : List (Call Slot)) = [] :=
  List.filterMap_replicate_of_none rfl

end Call

/-- An item that fails binds nothing, if it is not a label. -/
theorem Failing.bindings_eq_nil {item : Item} {p p' : Position} {calls : List (Call Slot)}
    (h : Failing item p calls p') (hlabel : item ≠ .label) : Call.bindings calls = [] := by
  cases h with
  | label | store => exact absurd rfl hlabel
  | unknown | options => rfl
  | lay _ hbreaks =>
    cases hbreaks with
    | operand n => exact Call.bindings_replicate _ _
    | refused n =>
      rw [Call.bindings_append, Call.bindings_replicate, Call.bindings_writes]
      rfl

/-- What services leave alone they leave alone on record, and the bindings on record besides. -/
theorem Environment.Keeps.recorded {env : Environment σ Slot} {view : σ → κ} (h : env.Keeps view) :
    env.recorded.Keeps fun w => (view w.state, Call.bindings w.calls) where
  evaluate context := (h.evaluate context).within fun p q hq => by
    simp [hq, Call.bindings, Call.binding?]
  write address bytes := (h.write address bytes).within fun w state hstate => by
    simp [hstate, Call.bindings, Call.binding?]
  flush start stop w := by
    simp [Environment.recorded, h.flush, Call.bindings, Call.binding?]
  listing line w := by
    simp [Environment.recorded, h.listing]

namespace Environment

variable {env : Environment σ Slot} {w w' : Recorded σ Slot}

/-- A variable is looked for without a call on record. -/
theorem recorded_slot_eq_ok {named : Slot × VariableKind} {s s' : Cursor} :
    env.recorded.slot (s, w) = .ok named (s', w') ↔
      ∃ state, env.slot (s, w.state) = .ok named (s', state) ∧ w' = ⟨state, w.calls⟩ := by
  rw [recorded, within_eq_ok]
  constructor
  · rintro ⟨⟨t, state⟩, hslot, heq⟩
    obtain ⟨rfl, rfl⟩ := Prod.mk.inj heq
    exact ⟨state, hslot, rfl⟩
  · rintro ⟨state, hslot, rfl⟩
    exact ⟨(s', state), hslot, rfl⟩

/-- A label that is bound is put on record. -/
theorem recorded_store_eq_ok {slot : Slot} {address : UInt64} :
    env.recorded.store slot address w = .ok () w' ↔ ∃ state,
      env.store slot address w.state = .ok () state ∧
        w' = ⟨state, w.calls ++ [.store slot address]⟩ := by
  rw [recorded, within_eq_ok]

end Environment

namespace Block

open Machine (environment RefusesToWrite)

/-! ## Definitions -/

variable {b b' : Block (Recorded Machine Name) Name} {name : Name}

/-- The next item of the block defines a label of this name, which is the name of a number. -/
structure Defines (b : Block (Recorded Machine Name) Name) (name : Name) : Prop where
  upcoming : b.upcoming = .label
  starts : (b.atItem.cursor.advance 1).peek.startsName = true
  reads : ∃ s, Expression.name (b.atItem.cursor.advance 1) = .ok name s
  numeric : Machine.kindOf name = .numeric

/-- The name has been bound in the block before, or range checks are off and its variable holds
something already. -/
def Refuses (b : Block (Recorded Machine Name) Name) (name : Name) : Prop :=
  (∃ address, .store name address ∈ b.state.calls) ∨
    b.placement.options.rangeCheck = false ∧ ∃ n, b.state.state.number? name = some n ∧ n ≠ 0

/-- The labels of a block are those of which a binding is on record, none of them twice, and their
variables hold the addresses that they were bound to. -/
structure Bound (b : Block (Recorded Machine Name) Name) : Prop where
  labels : (Call.bindings b.state.calls).map Prod.fst = b.labels.reverse
  nodup : b.labels.Nodup
  holds (name : Name) (address : UInt64) : .store name address ∈ b.state.calls →
    b.state.state.vars.get? name = some (.numeric address.toInt64)

theorem Bound.mem_labels (h : b.Bound) :
    name ∈ b.labels ↔ ∃ address, .store name address ∈ b.state.calls := by
  rw [← List.mem_reverse, ← h.labels, List.mem_map]
  constructor
  · rintro ⟨⟨name, address⟩, hmem, rfl⟩
    exact ⟨address, Call.mem_bindings.mp hmem⟩
  · rintro ⟨address, hmem⟩
    exact ⟨(name, address), Call.mem_bindings.mpr hmem, rfl⟩

/-! ## One definition -/

section Definition

variable {start : ℕ}

theorem number?_declare (w : Machine) (name : Name) :
    ((w.declare name).number? name).getD 0 = (w.number? name).getD 0 := by
  rw [Machine.declare]
  split
  · rfl
  · next hnone =>
    -- a variable that is made holds 0, as one does that there is not
    rw [Bool.not_eq_true, Option.isSome_eq_false_iff, Option.isNone_iff_eq_none] at hnone
    rw [Machine.number?, Machine.number?, Machine.setVariable, Bindings.get?_set, if_pos rfl, hnone]
    cases Machine.kindOf name <;> rfl

theorem declare_of_get? {w : Machine} {v : Variable} (h : w.vars.get? name = some v) :
    w.declare name = w := by
  rw [Machine.declare, h, Option.isSome_some, if_pos rfl]

theorem getD_number?_ne_zero {w : Machine} :
    (w.number? name).getD 0 ≠ 0 ↔ ∃ n, w.number? name = some n ∧ n ≠ 0 := by
  cases w.number? name <;> simp

theorem get?_of_number? {w : Machine} {n : Int64} (h : w.number? name = some n) :
    w.vars.get? name = some (.numeric n) := by
  rw [Machine.number?] at h
  split at h
  · next hvar =>
    cases h
    exact hvar
  · cases h

/-- The block when the name of the label that it defines has been read. -/
def named (b : Block (Recorded Machine Name) Name) (name : Name) (s : Cursor) :
    Block (Recorded Machine Name) Name :=
  { b.atItem.atLabel with
    cursor := b.atItem.atLabel.cursor.advanceTo s.pos
    state := ⟨b.state.state.declare name, b.state.calls⟩ }

/-- A definition reads its name first. -/
theorem label_of_defines (h : b.Defines name) :
    ∃ s, label environment.recorded b.atItem =
      bindSlot environment.recorded b.atItem.cursor.pos (name, .numeric) (b.named name s) := by
  obtain ⟨hupcoming, hstarts, ⟨s, hreads⟩, hnumeric⟩ := h
  have hslot : Machine.slot (b.atItem.cursor.advance 1, b.state.state) =
      .ok (name, .numeric) (s, b.state.state.declare name) := by
    simp only [Machine.slot, if_pos hstarts, hreads, hnumeric]
  have hrecorded : environment.recorded.slot (b.atItem.atLabel.cursor, b.atItem.atLabel.state) =
      .ok (name, .numeric) (s, ⟨b.state.state.declare name, b.state.calls⟩) := by
    rw [atLabel_cursor, atLabel_state]
    exact Environment.recorded_slot_eq_ok.mpr ⟨_, hslot, rfl⟩
  have hconsult : consult environment.recorded.slot b.atItem.atLabel =
      .ok (name, .numeric) (b.named name s) := consult_eq_ok.mpr ⟨s, _, hrecorded, rfl⟩
  exact ⟨s, by rw [label_eq, bind_of_ok hconsult]⟩

theorem isBound_named (hb : b.Bound) (name : Name) (s : Cursor) :
    isBound environment.recorded (b.named name s) name = true ↔ b.Refuses name := by
  have hlabels : (b.named name s).labels = b.labels := atLabel_labels b.atItem
  have hoptions : (b.named name s).placement.options = b.placement.options :=
    atLabel_options b.atItem
  have hload : environment.recorded.load name (b.named name s).state =
      (b.state.state.number? name).getD 0 := number?_declare b.state.state name
  rw [isBound_iff, hlabels, hoptions, hload, getD_number?_ne_zero, hb.mem_labels, Refuses]

theorem text_named (b : Block (Recorded Machine Name) Name) (name : Name) (s : Cursor) :
    (b.named name s).cursor.text = b.cursor.text := by
  have honward : b.cursor.Onward (b.named name s).cursor := by
    refine b.cursor.onward_skipBlanks.trans ?_
    refine ((b.cursor.skipBlanks.onward_advance 1).trans (Cursor.onward_advanceTo _ s.pos)).trans ?_
    rw [named, atLabel_cursor]
    exact .refl _
  exact honward.text

/-- A definition that is refused changes nothing of the machine. -/
theorem step_of_refuses (hb : b.Bound) (h : b.Defines name) (hlimit : b.placement.atLimit = false)
    (hrefuses : b.Refuses name) : ∃ label b', step environment.recorded b =
      .error ⟨.multipleLabel label, b.cursor.spanOf b.atItem.cursor.pos⟩ b' ∧
        b'.state = b.state := by
  obtain ⟨s, hlabel⟩ := label_of_defines h
  rw [bindSlot_of_bound rfl ((isBound_named hb name s).mpr hrefuses), Cursor.spanOf,
    text_named] at hlabel
  refine ⟨_, _, step_of_label_error h.upcoming hlimit hlabel, ?_⟩
  -- a name that is refused is the name of a variable, so that none is made
  obtain ⟨v, hv⟩ : ∃ v, b.state.state.vars.get? name = some v := by
    rcases hrefuses with ⟨address, hstore⟩ | ⟨-, n, hn, -⟩
    · exact ⟨_, hb.holds name address hstore⟩
    · exact ⟨_, get?_of_number? hn⟩
  rw [named, declare_of_get? hv]

/-- A definition that is not refused is carried out. -/
theorem step_of_not_refuses (hb : b.Bound) (h : b.Defines name)
    (hlimit : b.placement.atLimit = false) (hrefuses : ¬b.Refuses name) :
    ∃ b', step environment.recorded b = .ok .more b' ∧
      b'.state.calls = b.state.calls ++ [.store name b'.placement.logical] := by
  obtain ⟨s, hlabel⟩ := label_of_defines h
  have hfree : isBound environment.recorded (b.named name s) name = false :=
    Bool.eq_false_iff.mpr fun hbound => hrefuses ((isBound_named hb name s).mp hbound)
  rw [bindSlot_of_free rfl hfree (Environment.recorded_store_eq_ok.mpr ⟨_, rfl, rfl⟩)] at hlabel
  exact ⟨_, step_of_label h.upcoming hlimit hlabel, rfl⟩

end Definition

/-! ## One item -/

/-- A label that is bound was not bound in the block before, and its binding is put on record. -/
theorem label_recorded (h : label environment.recorded b = .ok () b') :
    ∃ name address, name ∉ b.labels ∧ b'.labels = name :: b.labels ∧
      b'.state.calls = b.state.calls ++ [.store name address] ∧
      b'.state.state = b.state.state.bindLabel name address := by
  -- a label finds its slot, which declares the variable, and then stores the address in it
  obtain ⟨name, kind, b₁, w₁, hconsult, -, hfree, hstore, rfl⟩ := label_eq_ok h
  obtain ⟨s, w, hslot, hb₁⟩ := consult_eq_ok.mp hconsult
  obtain ⟨state, hstate, rfl⟩ := Environment.recorded_slot_eq_ok.mp hslot
  obtain ⟨-, -, hdeclare⟩ := Machine.slot_eq_ok hstate
  obtain ⟨state', hset, rfl⟩ := Environment.recorded_store_eq_ok.mp hstore
  obtain rfl := (EStateM.Result.ok.inj hset).2
  have hlabels : b₁.labels = b.labels := by rw [hb₁, atLabel_labels]
  have hcalls : b₁.state.calls = b.state.calls := by rw [hb₁, atLabel_state]
  have hmachine : b₁.state.state = b.state.state.declare name := by
    rw [hb₁, hdeclare, atLabel_state]
  refine ⟨name, b₁.placement.logical, fun hmem => ?_, ?_, ?_, ?_⟩
  · rw [isBound_iff.mpr (.inl (hlabels ▸ hmem))] at hfree
    cases hfree
  · rw [hlabels]
  · rw [hcalls]
  · rw [hmachine, Machine.bindLabel]

/-- To bind a label keeps the labels, the variables and the record together. -/
theorem bound_of_label (hb : b.Bound) (h : label environment.recorded b = .ok () b') :
    b'.Bound := by
  obtain ⟨name, address, hnew, hlabels, hcalls, hmachine⟩ := label_recorded h
  refine ⟨?_, ?_, fun other address' hmem => ?_⟩
  · rw [hcalls, Call.bindings_append, List.map_append, hb.labels, hlabels, List.reverse_cons]
    rfl
  · rw [hlabels]
    exact List.nodup_cons.mpr ⟨hnew, hb.nodup⟩
  · rw [hcalls] at hmem
    rw [hmachine, Machine.get?_bindLabel]
    rcases List.mem_append.mp hmem with hold | hlast
    · -- what was bound before is another label
      have hne : name ≠ other := fun heq => hnew (heq ▸ hb.mem_labels.mpr ⟨address', hold⟩)
      rw [if_neg hne]
      exact hb.holds other address' hold
    · cases List.mem_singleton.mp hlast
      rw [if_pos rfl]

/-- An item that succeeds keeps the labels, the variables and the record together. -/
theorem bound_of_step {next : Next} (hb : b.Bound)
    (h : step environment.recorded b = .ok next b') : b'.Bound := by
  rw [step, get_bind] at h
  split at h
  · cases h
  rcases item_cases Machine.environment_keeps.recorded h with hheld | hlabel
  · simp only [held, Prod.mk.injEq] at hheld
    obtain ⟨hlabels, ⟨hvars, -⟩, hbindings⟩ := hheld
    refine ⟨by rw [hbindings, hlabels, hb.labels], by rw [hlabels]; exact hb.nodup, ?_⟩
    intro name address hmem
    rw [hvars]
    rw [← Call.mem_bindings, hbindings, Call.mem_bindings] at hmem
    exact hb.holds name address hmem
  · exact bound_of_label (b := b.atItem) ⟨hb.labels, hb.nodup, hb.holds⟩ hlabel

/-- A label that fails has no call on record. -/
theorem leads_label_calls (b : Block (Recorded Machine Name) Name) :
    Leads (label environment.recorded) b (fun _ _ => True)
      fun _ b' => b'.state.calls = b.state.calls := by
  have hslot : Leads (consult environment.recorded.slot) b.atLabel
      (fun _ c => c.state.calls = b.state.calls) fun _ c => c.state.calls = b.state.calls := by
    rw [consult_eq_within, ← atLabel_state b]
    exact .within (environment.called_slot _)
  refine .of_eq (label_eq _ b) (hslot.bind fun named c hc => ?_)
  refine .get_bind (.ite (fun _ => hc) fun _ => .ite (fun _ => hc) fun _ => ?_)
  -- a variable of a machine can always be set
  exact Leads.bind (Q := fun _ _ => True) (E := fun _ _ => _) (show True from trivial)
    fun _ _ _ => .modify trivial

/-- An item that fails binds nothing. -/
theorem bindings_of_step_error {failure : Failure}
    (h : step environment.recorded b = .error failure b') :
    Call.bindings b'.state.calls = Call.bindings b.state.calls := by
  rcases (leads_step_effect b).of_eq_error h with
    ⟨hlimit, calls, p, hfailing, hafter⟩ | ⟨-, hafter, -⟩
  · by_cases hlabel : b.upcoming = .label
    · have hlabelled : Leads (step environment.recorded) b (fun _ _ => True)
          fun _ b' => b'.state.calls = b.state.calls :=
        .of_eq (step_of_upcoming hlabel hlimit)
          ((leads_label_calls b.atItem).bind fun _ _ _ => .pure trivial)
      rw [hlabelled.of_eq_error h]
    · rw [hafter.calls, Call.bindings_append, hfailing.bindings_eq_nil hlabel, List.append_nil]
  · rw [hafter.calls, List.append_nil]

/-! ## Runs -/

variable {placement : Placement} {w : Machine} {cursor : Cursor}

/-- The labels, the variables and the record agree wherever a run comes through. -/
theorem bound_of_proceeds (h : Proceeds environment.recorded (opening placement w cursor) b) :
    b.Bound := by
  induction h with
  | refl => exact ⟨rfl, List.nodup_nil, fun _ _ hmem => absurd hmem List.not_mem_nil⟩
  | tail _ hstep ih => exact bound_of_step ih hstep

/-- No name is bound twice in a run, however it ends. -/
theorem nodup_bindings (placement : Placement) (w : Machine) (cursor : Cursor) :
    ((Call.bindings (calls environment placement w cursor)).map Prod.fst).Nodup := by
  obtain ⟨c, hc, hlast, -⟩ := exists_last environment.recorded (opening placement w cursor)
  have hbound := bound_of_proceeds hc
  rw [calls]
  rcases hstep : step environment.recorded c with ⟨next, c'⟩ | ⟨failure, c'⟩
  · have hbound' := bound_of_step hbound hstep
    rw [assemble_of_ok (hlast.trans hstep), hbound'.labels]
    exact List.nodup_reverse.mpr hbound'.nodup
  · rw [assemble_of_error (hlast.trans hstep), bindings_of_step_error hstep, hbound.labels]
    exact List.nodup_reverse.mpr hbound.nodup

/-- A run that does not fail because a write is refused leaves every variable as it was before the
last item. -/
theorem get?_of_failure {failure : Failure}
    (h : (assemble environment placement w cursor).failure = some failure)
    (hwrite : ¬RefusesToWrite failure) :
    ∃ b b', Proceeds environment.recorded (opening placement w cursor) b ∧
      step environment.recorded b = .error failure b' ∧
      ∀ name v, b.state.state.vars.get? name = some v →
        (assemble environment placement w cursor).state.vars.get? name = some v := by
  rw [← failure_recorded environment placement ⟨w, []⟩] at h
  obtain ⟨b, b', hb, hstep, hassemble⟩ := exists_failing h
  have huntouched : b.Untouched b' := ((atomic_step b).of_eq_error hstep).resolve_left hwrite
  refine ⟨b, b', hb, hstep, ?_⟩
  rw [assemble_recorded, hassemble]
  exact huntouched.vars

/-- In a run of a block no name is bound twice. A definition of a number is refused just if its name
was bound in the block before, or if range checks are off and its variable holds something other
than 0; then nothing of the machine changes, and otherwise it is carried out. Where a run ends
because a definition is refused, every variable keeps what it held before that, and the labels of
the block hold the addresses that they were bound to. -/
theorem binds_once (placement : Placement) (w : Machine) (cursor : Cursor) :
    ((Call.bindings (calls environment placement w cursor)).map Prod.fst).Nodup ∧
    (∀ b name, Proceeds environment.recorded (opening placement w cursor) b →
      b.placement.atLimit = false → b.Defines name →
        (b.Refuses name → ∃ label b', step environment.recorded b =
          .error ⟨.multipleLabel label, b.cursor.spanOf b.atItem.cursor.pos⟩ b' ∧
            b'.state = b.state) ∧
        (¬b.Refuses name → ∃ b', step environment.recorded b = .ok .more b' ∧
          b'.state.calls = b.state.calls ++ [.store name b'.placement.logical])) ∧
    ∀ label span,
      (assemble environment placement w cursor).failure = some ⟨.multipleLabel label, span⟩ →
      ∃ b b', Proceeds environment.recorded (opening placement w cursor) b ∧
        step environment.recorded b = .error ⟨.multipleLabel label, span⟩ b' ∧
        (∀ name v, b.state.state.vars.get? name = some v →
          (assemble environment placement w cursor).state.vars.get? name = some v) ∧
        ∀ name address, .store name address ∈ b.state.calls →
          (assemble environment placement w cursor).state.vars.get? name =
            some (.numeric address.toInt64) := by
  refine ⟨nodup_bindings placement w cursor, fun b name hb hlimit hdefines => ?_,
    fun label span h => ?_⟩
  · have hbound := bound_of_proceeds hb
    exact ⟨step_of_refuses hbound hdefines hlimit, step_of_not_refuses hbound hdefines hlimit⟩
  · -- a label is refused before anything is written, so what was known stays known
    have hwrite : ¬RefusesToWrite ⟨.multipleLabel label, span⟩ := by
      intro hrefused
      obtain ⟨address, limit, heq⟩ := hrefused.eq
      cases heq
    obtain ⟨b, b', hb, hstep, hvars⟩ := get?_of_failure h hwrite
    refine ⟨b, b', hb, hstep, hvars, fun name address hmem => ?_⟩
    exact hvars name _ ((bound_of_proceeds hb).holds name address hmem)

/-- A label that is bound to address 0 is as bound as any other, whereas a variable that holds 0 is
free. -/
theorem binds_once_at_zero :
    (∃ b', step environment.recorded
        (opening (.ofOrigin 0) (.ofBase 0) (.ofString ".a .a")) = .ok .more b' ∧
      b'.state.calls = [.store (bytesOf "a") b'.placement.logical]) ∧
    (∃ b b', Proceeds environment.recorded
        (opening (.ofOrigin 0) (.ofBase 0) (.ofString ".a .a")) b ∧
      step environment.recorded b = .error ⟨.multipleLabel "a", ⟨1, 4, 3, 1⟩⟩ b' ∧
      ∀ address, .store (bytesOf "a") address ∈ b.state.calls →
        (assemble environment (.ofOrigin 0) (.ofBase 0) (.ofString ".a .a")).state.vars.get?
          (bytesOf "a") = some (.numeric address.toInt64)) ∧
    ∃ label b', step environment.recorded (opening ((Placement.ofOrigin 0).withOptions (.ofInt 0))
        ((Machine.ofBase 0).setVariable (bytesOf "a") (.numeric 5)) (.ofString ".a")) =
      .error ⟨.multipleLabel label, ⟨1, 1, 0, 1⟩⟩ b' := by
  have hfailure : (assemble environment (.ofOrigin 0) (.ofBase 0) (.ofString ".a .a")).failure =
      some ⟨.multipleLabel "a", ⟨1, 4, 3, 1⟩⟩ := by decide +kernel
  obtain ⟨-, hdefinition, hends⟩ :=
    binds_once (.ofOrigin 0) (.ofBase 0) (.ofString ".a .a")
  obtain ⟨-, hheld, -⟩ := binds_once ((Placement.ofOrigin 0).withOptions (.ofInt 0))
    ((Machine.ofBase 0).setVariable (bytesOf "a") (.numeric 5)) (.ofString ".a")
  refine ⟨?_, ?_, ?_⟩
  · refine (hdefinition _ (bytesOf "a") .refl (by decide +kernel)
      ⟨by decide +kernel, by decide +kernel, ⟨_, rfl⟩, by decide⟩).2 ?_
    rintro (⟨address, hmem⟩ | ⟨hcheck, -⟩)
    · cases hmem
    · cases hcheck
  · obtain ⟨b, b', hb, hstep, -, hlabels⟩ := hends _ _ hfailure
    exact ⟨b, b', hb, hstep, hlabels (bytesOf "a")⟩
  · obtain ⟨label, b', hstep, -⟩ := (hheld _ (bytesOf "a") .refl (by decide +kernel)
      ⟨by decide +kernel, by decide +kernel, ⟨_, rfl⟩, by decide⟩).1
        (.inr ⟨by decide, 5, by decide, by decide⟩)
    exact ⟨label, b', hstep⟩

end Block

end InlineA64
