import InlineA64.Proofs.Block.History
import InlineA64.Proofs.Block.Labels
import InlineA64.Proofs.Block.Layout
import InlineA64.Proofs.Block.Run

/-!
# What a failing item leaves behind

An item looks for all that can be wrong with it before it writes or binds anything. So if it fails,
and not because a write was refused, all that was asked of the machine is to evaluate expressions
and to have a variable (`Recorded.Untouched`), and the block stands where it stood or has been
aligned (`Block.failing_item_leaves_nothing`).
-/

namespace InlineA64

namespace Machine

/-- The failure is that of a write that is refused. -/
def RefusesToWrite (failure : Failure) : Prop :=
  ∃ address bytes w w', environment.write address bytes w = .error failure w'

/-- A write that is refused names its address and the end of the memory, but no place in the
text. -/
theorem RefusesToWrite.eq {failure : Failure} (h : RefusesToWrite failure) :
    ∃ address limit, failure = ⟨.addressOutOfRange address limit, .nowhere⟩ := by
  obtain ⟨address, bytes, w, w', h⟩ := h
  change write address bytes w = _ at h
  rw [write, Image.write] at h
  split at h
  · cases h
  · next hwrite =>
    split at hwrite
    · cases hwrite
    · cases hwrite
      cases h
      exact ⟨_, _, rfl⟩

theorem RefusesToWrite.span {failure : Failure} (h : RefusesToWrite failure) :
    failure.span = .nowhere := by
  obtain ⟨address, limit, rfl⟩ := h.eq
  rfl

theorem get?_declare_of_some {w : Machine} {name other : Name} {v : Variable}
    (h : w.vars.get? other = some v) : (w.declare name).vars.get? other = some v := by
  by_cases hname : name = other
  · rw [hname, declare, h, Option.isSome_some, if_pos rfl, h]
  · rw [get?_declare hname, h]

end Machine

open Machine (environment RefusesToWrite)

/-- Since the first state the machine has had to evaluate expressions, and to have variables, but
nothing else: memory is as it was, and so is every variable that there was. -/
structure Recorded.Untouched (w w' : Recorded Machine Name) : Prop where
  calls : ∃ contexts : List Context, w'.calls = w.calls ++ contexts.map .evaluate
  image : w'.state.image = w.state.image
  vars (name : Name) (v : Variable) :
    w.state.vars.get? name = some v → w'.state.vars.get? name = some v

namespace Recorded.Untouched

theorem refl (w : Recorded Machine Name) : w.Untouched w :=
  ⟨⟨[], (List.append_nil _).symm⟩, rfl, fun _ _ h => h⟩

theorem trans {w₁ w₂ w₃ : Recorded Machine Name} (h : w₁.Untouched w₂) (h' : w₂.Untouched w₃) :
    w₁.Untouched w₃ where
  calls := by
    obtain ⟨contexts, hcalls⟩ := h.calls
    obtain ⟨contexts', hcalls'⟩ := h'.calls
    exact ⟨contexts ++ contexts', by
      rw [hcalls', hcalls, List.append_assoc, List.map_append]⟩
  image := h'.image.trans h.image
  vars name v hv := h'.vars name v (h.vars name v hv)

instance : IsPreorder (Recorded Machine Name) Recorded.Untouched where
  refl := refl
  trans _ _ _ := trans

end Recorded.Untouched

namespace Machine

/-! ## Services -/

theorem untouched_evaluate (context : Context) :
    Reaches (fun p q => p.2.Untouched q.2) (environment.recorded.evaluate context) := by
  rintro ⟨s, w⟩
  -- the call is on record, and nothing else has changed
  refine .within (leads_evaluate (.of_forall (fun _ _ => ?_) fun _ _ => ?_))
  · exact ⟨⟨[context], rfl⟩, rfl, fun _ _ h => h⟩
  · exact ⟨⟨[context], rfl⟩, rfl, fun _ _ h => h⟩

theorem image_declare (w : Machine) (name : Name) : (w.declare name).image = w.image := by
  rw [declare]
  split <;> rfl

theorem untouched_slot :
    Reaches (fun p q => p.2.Untouched q.2) environment.recorded.slot := by
  rintro ⟨s, w⟩
  refine .within (leads_slot (.of_forall (fun name _ => ?_) fun _ _ => .refl w) (.refl w))
  -- the variables that there are stay when another one is declared
  refine ⟨⟨[], (List.append_nil _).symm⟩, image_declare w.state name, fun other v hv => ?_⟩
  exact get?_declare_of_some hv

end Machine

namespace Block

/-- The machine of a block is untouched. -/
def Untouched (b b' : Block (Recorded Machine Name) Name) : Prop :=
  b.state.Untouched b'.state

instance : IsPreorder (Block (Recorded Machine Name) Name) Untouched where
  refl b := .refl b.state
  trans _ _ _ h h' := h.trans h'

variable {α β : Type}

/-! ## Actions that touch nothing -/

theorem untouched_modify
    {f : Block (Recorded Machine Name) Name → Block (Recorded Machine Name) Name}
    (hf : ∀ b, (f b).state = b.state) :
    Reaches Untouched (modify f : Assembling (Recorded Machine Name) Name PUnit) := fun b => by
  change b.state.Untouched (f b).state
  rw [hf]
  exact .refl b.state

theorem untouched_failAt (offset : Nat) (fault : Fault) :
    Reaches Untouched (failAt offset fault : Assembling (Recorded Machine Name) Name α) :=
  fun b => .refl b.state

theorem untouched_consult {f : EStateM Failure (Cursor × Recorded Machine Name) α}
    (hf : Reaches (fun p q => p.2.Untouched q.2) f) :
    Reaches Untouched (consult f : Assembling (Recorded Machine Name) Name α) := by
  rw [consult_eq_within]
  exact hf.within fun _ _ h => h

theorem untouched_evaluate : Reaches Untouched (Block.evaluate environment.recorded) :=
  .get_bind fun _ => untouched_consult (Machine.untouched_evaluate _)

theorem untouched_evaluateAs (view : Value → Option α) (context : Context) :
    Reaches Untouched (consult (environment.recorded.evaluateAs view context) :
      Assembling (Recorded Machine Name) Name α) :=
  untouched_consult (Environment.reaches_evaluateAs (Machine.untouched_evaluate context) view)

theorem untouched_evaluateInt : Reaches Untouched (Block.evaluateInt environment.recorded) :=
  .get_bind fun _ => untouched_evaluateAs _ _

theorem untouched_evaluateAddress : Reaches Untouched (evaluateAddress environment.recorded) := by
  refine .get_bind fun _ => untouched_evaluate.bind fun value => ?_
  split
  · refine .get_bind fun b => ?_
    split
    · exact .pure _
    · exact untouched_failAt _ _
  · exact .pure _

theorem untouched_operands (mnemonic : String) (reader : Reader α) :
    Reaches Untouched (operands environment.recorded mnemonic reader) := by
  rw [operands_eq_within]
  exact .get_bind fun b =>
    (reader.reaches_run (Machine.untouched_evaluate _) mnemonic).within fun _ _ h => h.2

theorem untouched_alignStart :
    Reaches Untouched (alignStart : Assembling (Recorded Machine Name) Name Unit) :=
  untouched_modify fun _ => rfl

/-! ## Actions that fail before they touch anything -/

/-- If an action fails a write is refused, or the machine is untouched. -/
def Atomic (x : Assembling (Recorded Machine Name) Name α) : Prop :=
  ∀ b, Leads x b (fun _ _ => True) fun failure b' => RefusesToWrite failure ∨ b.Untouched b'

namespace Atomic

theorem of_untouched {x : Assembling (Recorded Machine Name) Name α} (hx : Reaches Untouched x) :
    Atomic x := fun b =>
  (hx b).mono (fun _ _ _ => trivial) fun _ _ h => .inr h

theorem bind {x : Assembling (Recorded Machine Name) Name α}
    {f : α → Assembling (Recorded Machine Name) Name β} (hx : Reaches Untouched x)
    (hf : ∀ a, Atomic (f a)) : Atomic (x >>= f) := fun b =>
  ((hx b).mono (fun _ _ h => h) fun _ _ h => .inr h).bind fun a b₁ h =>
    (hf a b₁).mono (fun _ _ _ => trivial) fun _ _ h' => h'.imp_right fun h' => h.trans h'

theorem get_bind
    {f : Block (Recorded Machine Name) Name → Assembling (Recorded Machine Name) Name α}
    (hf : ∀ b, Atomic (f b)) : Atomic (get >>= f) := fun b => hf b b

protected theorem ite {c : Prop} [Decidable c] {x y : Assembling (Recorded Machine Name) Name α}
    (hx : Atomic x) (hy : Atomic y) : Atomic (if c then x else y) := fun b =>
  .ite (fun _ => hx b) fun _ => hy b

end Atomic

theorem atomic_emit (bytes : List Byte) : Atomic (emit environment.recorded bytes) := fun b =>
  (leads_emit_refuses bytes b).mono (fun _ _ h => h) fun _ _ h => .inl h

theorem atomic_emitNoOperations (count : Nat) :
    Atomic (emitNoOperations environment.recorded count) := fun b =>
  (leads_emitNoOperations_refuses count b).mono (fun _ _ h => h) fun _ _ h => .inl h

theorem atomic_emitString (start : Nat) (bytes : List Byte) :
    Atomic (emitString environment.recorded start bytes) :=
  .ite (.of_untouched (untouched_failAt _ _)) (atomic_emit bytes)

theorem atomic_align : Atomic (align environment.recorded) := by
  refine .bind untouched_alignStart fun _ => .bind (untouched_modify fun _ => rfl) fun _ => ?_
  refine .get_bind fun b => .ite (.bind untouched_evaluateInt fun n => ?_) (.of_untouched (.pure _))
  exact .ite (atomic_emitNoOperations _) (.of_untouched (untouched_failAt _ _))

theorem atomic_directive (d : Directive) : Atomic (directive environment.recorded d) := by
  cases d with
  | align => exact atomic_align
  | data =>
    refine .get_bind fun _ => .bind untouched_evaluate fun value => ?_
    split
    · exact atomic_emitString _ _
    · exact atomic_emit _
  | byte | half => exact .bind untouched_evaluateInt fun _ => atomic_emit _
  | word =>
    exact .bind untouched_evaluateAddress fun _ => .bind untouched_alignStart fun _ => atomic_emit _
  | quad => exact .bind untouched_evaluateAddress fun _ => atomic_emit _
  | string =>
    exact .get_bind fun _ => .bind (untouched_evaluateAs _ _) fun _ => atomic_emitString _ _
  | options =>
    exact .of_untouched (untouched_evaluateInt.bind fun _ => untouched_modify fun _ => rfl)

theorem atomic_instruction (mnemonic : String) (reader : Reader Encoding) :
    Atomic (instruction environment.recorded mnemonic reader) :=
  .bind untouched_alignStart fun _ => .bind (untouched_operands _ _) fun _ => atomic_emit _

theorem atomic_perform (m : Mnemonic) : Atomic (perform environment.recorded m) := by
  have hsettle : Reaches Untouched (settle : Assembling (Recorded Machine Name) Name Unit) :=
    untouched_modify fun _ => rfl
  rw [perform]
  split
  · exact atomic_directive _
  · exact .bind hsettle fun _ => atomic_directive _
  · exact .bind hsettle fun _ => atomic_instruction _ _
  · exact .bind hsettle fun _ => atomic_instruction _ _

theorem atomic_statement : Atomic (statement environment.recorded) := by
  intro b
  rw [Leads, statement_eq]
  rcases (Mnemonic.lookup b.cursor).1 with _ | m
  · exact .inr (.refl b.state)
  · exact atomic_perform m _

theorem atomic_bindSlot (start : Nat) (named : Name × VariableKind) :
    Atomic (bindSlot environment.recorded start named) := by
  refine .get_bind fun b => .ite (.of_untouched (untouched_failAt _ _)) ?_
  refine .ite (.of_untouched (untouched_failAt _ _)) fun c => ?_
  -- a variable that is there can be set
  exact Leads.bind (Q := fun _ _ => True) (E := fun _ _ => _) (show True from trivial)
    fun _ _ _ => .modify trivial

theorem atomic_label : Atomic (label environment.recorded) := by
  intro b
  have hlabel := Atomic.bind (untouched_consult Machine.untouched_slot)
    (atomic_bindSlot b.cursor.pos) b.atLabel
  have hstate : b.atLabel.state = b.state := atLabel_state b
  simp only [Untouched, hstate] at hlabel
  rwa [Leads, label_eq]

theorem atomic_item : Atomic (item environment.recorded) := by
  intro b
  refine leads_item (fun f _ _ => ?_) (fun _ _ => ?_) (fun _ _ _ => trivial) (fun _ _ => ?_)
    fun _ _ => ?_
  -- the end of a statement or of the block never fails
  · exact .modify_bind ((after_finish _ _).bind fun _ _ _ => .pure trivial)
  · exact .modify_bind ((after_closeStatement _ _).bind fun _ _ _ => .modify_bind (.pure trivial))
  · exact atomic_label b.atItem
  · exact atomic_statement b.atItem

theorem atomic_step : Atomic (step environment.recorded) :=
  .get_bind fun _ => .ite (.of_untouched (untouched_failAt _ _)) atomic_item

/-! ## Runs -/

/-- A label moves a block no further than to the next word. -/
theorem placement_labelled (p : Position) :
    p.labelled.placement = p.placement ∨ p.labelled.placement = p.placement.align := by
  rw [Position.labelled]
  split
  · exact .inr rfl
  · exact .inl rfl

/-- Expressions see the block where it was, or aligned. -/
theorem placement_seen (item : Item) (p : Position) :
    (item.seen p.settled).placement = p.placement ∨
      (item.seen p.settled).placement = p.placement.align := by
  unfold Item.seen
  split
  · exact .inl rfl
  · rw [Item.placed]
    split
    · exact .inr rfl
    · exact .inl rfl

/-- A failure of an item at fault leaves the block where it was, or aligned. -/
theorem placement_of_failing {item : Item} {p p' : Position} {contexts : List Context}
    (h : Failing item p (contexts.map .evaluate : List (Call Name)) p') :
    p'.placement = p.placement ∨ p'.placement = p.placement.align := by
  -- what was called for is known to be no more than to evaluate expressions
  have hcall {call : Call Name} (hcall : call ∈ contexts.map .evaluate) :
      ∃ context, call = .evaluate context := by
    obtain ⟨context, -, hcontext⟩ := List.mem_map.mp hcall
    exact ⟨context, hcontext.symm⟩
  generalize hcalls : contexts.map Call.evaluate = calls at h
  rw [hcalls] at hcall
  cases h with
  | label => exact placement_labelled p
  | store p slot =>
    obtain ⟨context, hcontext⟩ := hcall (List.mem_singleton_self _)
    cases hcontext
  | unknown => exact .inl rfl
  | options => exact .inl rfl
  | lay _ hbreaks =>
    cases hbreaks with
    | operand => exact placement_seen item p
    | refused n hemits =>
      rename_i done rest bytes
      obtain ⟨context, hcontext⟩ := hcall (List.mem_append_right _ (by
        rw [Call.writes_append]
        exact List.mem_append_right _ List.mem_cons_self))
      cases hcontext

/-- What a block comes to is what it comes to while its calls are recorded. -/
theorem assemble_recorded (placement : Placement) (w : Machine) (cursor : Cursor) :
    assemble environment placement w cursor =
      ⟨(assemble environment.recorded placement ⟨w, []⟩ cursor).failure,
        (assemble environment.recorded placement ⟨w, []⟩ cursor).placement,
        (assemble environment.recorded placement ⟨w, []⟩ cursor).state.state,
        (assemble environment.recorded placement ⟨w, []⟩ cursor).cursor⟩ := by
  obtain ⟨hfailure, hplacement, hstate, hcursor⟩ :=
    assemble_corresponds environment.recorded_corresponds
      (⟨rfl, rfl, rfl, rfl⟩ : placement.Similar Eq placement)
      (rfl : (⟨w, []⟩ : Recorded Machine Name).state = w) cursor
  rw [hfailure, hstate, hcursor, Outcome.mk.injEq]
  refine ⟨rfl, ?_, rfl, rfl⟩
  rw [Placement.mk.injEq]
  exact ⟨hplacement.logical.symm, hplacement.physical.symm, hplacement.limit.symm,
    hplacement.options.symm⟩

/-- A block that is where it was or aligned has moved by a padding to a word, or by none. -/
theorem exists_pad {s s' : Placement} (h : s' = s ∨ s' = s.align) :
    ∃ pad : UInt64, pad ≤ 3 ∧ (pad = 0 ∨ pad = Placement.padTo 4 s.logical) ∧
      s' = s.advance pad := by
  rcases h with h | h
  · refine ⟨0, by decide, .inl rfl, ?_⟩
    rw [h]
    simp only [Placement.advance, UInt64.add_zero]
  · refine ⟨_, ?_, .inr rfl, h⟩
    rw [UInt64.le_iff_toNat_le]
    exact Nat.le_of_lt_succ (Placement.toNat_padTo_four_lt s.logical)

/-- Of an item that fails, but not because a write is refused, nothing is left. All items before it
have succeeded (`b` is the block behind them). All that the item calls for is to evaluate
expressions: it writes no bytes and binds no label, so memory is as it was, and so is every variable
that there was. The two addresses have moved by one padding to a word at most, and the options are
those that the item was assembled under. -/
theorem failing_item_leaves_nothing {placement : Placement} {w : Machine} {cursor : Cursor}
    {failure : Failure} (h : (assemble environment placement w cursor).failure = some failure)
    (hwrite : ¬RefusesToWrite failure) :
    ∃ (b b' : Block (Recorded Machine Name) Name) (pad : UInt64),
      Proceeds environment.recorded (opening placement w cursor) b ∧
      step environment.recorded b = .error failure b' ∧
      (∃ contexts : List Context, b'.state.calls = b.state.calls ++ contexts.map .evaluate) ∧
      b'.state.state.image = b.state.state.image ∧
      (∀ name v, b.state.state.vars.get? name = some v → b'.state.state.vars.get? name = some v) ∧
      pad ≤ 3 ∧ (pad = 0 ∨ pad = Placement.padTo 4 b.placement.logical) ∧
      assemble environment placement w cursor =
        ⟨some failure, b.placement.advance pad, b'.state.state, b'.cursor⟩ := by
  obtain ⟨b, hb, hlast, -⟩ := exists_last environment.recorded (opening placement w cursor)
  rw [← failure_recorded environment placement ⟨w, []⟩] at h
  rcases hstep : step environment.recorded b with ⟨next, b'⟩ | ⟨failure', b'⟩
  · rw [assemble_of_ok (hlast.trans hstep)] at h
    cases h
  have hassemble := assemble_of_error (hlast.trans hstep)
  obtain rfl : failure' = failure := by
    rw [hassemble] at h
    exact Option.some.inj h
  -- the item has failed, and it was not a write that was refused
  have huntouched : b.Untouched b' :=
    ((atomic_step b).of_eq_error hstep).resolve_left hwrite
  obtain ⟨contexts, hcontexts⟩ := huntouched.calls
  have hplacement : b'.placement = b.placement ∨ b'.placement = b.placement.align := by
    rcases (leads_step_effect b).of_eq_error hstep with ⟨-, calls, p, hfailing, hafter⟩ | ⟨-, h, -⟩
    · obtain rfl : calls = contexts.map .evaluate :=
        List.append_cancel_left (hafter.calls.symm.trans hcontexts)
      rw [hafter.placement]
      exact placement_of_failing hfailing
    · exact .inl h.placement
  obtain ⟨pad, hpad, hcommon, hb'⟩ := exists_pad hplacement
  refine ⟨b, b', pad, hb, hstep, ⟨contexts, hcontexts⟩, huntouched.image, huntouched.vars, hpad,
    hcommon, ?_⟩
  rw [assemble_recorded, hassemble, hb']

/-- An instruction behind a byte, which is aligned before its operand turns out to be unknown. -/
theorem failing_item_leaves_nothing_unknown :
    ∃ (b b' : Block (Recorded Machine Name) Name) (pad : UInt64),
      Proceeds environment.recorded
        (opening (.ofOrigin 0x1000) (.ofBase 0x1000) (.ofString "EQUB 1:MOV X0,#on")) b ∧
      step environment.recorded b = .error ⟨.noSuchVariable, ⟨1, 16, 15, 1⟩⟩ b' ∧
      b.state.state.image.bytes = #[1] ∧ pad ≤ 3 ∧ (b.placement.advance pad).logical = 0x1004 ∧
      assemble environment (.ofOrigin 0x1000) (.ofBase 0x1000) (.ofString "EQUB 1:MOV X0,#on") =
        ⟨some ⟨.noSuchVariable, ⟨1, 16, 15, 1⟩⟩, b.placement.advance pad, b'.state.state,
          b'.cursor⟩ := by
  have hfailure : (assemble environment (.ofOrigin 0x1000) (.ofBase 0x1000)
      (.ofString "EQUB 1:MOV X0,#on")).failure =
        some ⟨.noSuchVariable, ⟨1, 16, 15, 1⟩⟩ := by decide +kernel
  have hplaced : (assemble environment (.ofOrigin 0x1000) (.ofBase 0x1000)
      (.ofString "EQUB 1:MOV X0,#on")).placement.logical = 0x1004 ∧
      (assemble environment (.ofOrigin 0x1000) (.ofBase 0x1000)
        (.ofString "EQUB 1:MOV X0,#on")).state.image.bytes = #[1] := by decide +kernel
  obtain ⟨b, b', pad, hb, hstep, -, himage, -, hpad, -, hassemble⟩ :=
    failing_item_leaves_nothing hfailure fun hwrite => absurd hwrite.span (by decide)
  -- the run of the whole block is known by evaluation, and through it the state at the failure
  have hbytes : b'.state.state.image.bytes = #[1] := by
    rw [← hplaced.2, hassemble]
  have hlogical : (b.placement.advance pad).logical = 0x1004 := by
    rw [← hplaced.1, hassemble]
  exact ⟨b, b', pad, hb, hstep, himage ▸ hbytes, hpad, hlogical, hassemble⟩

end Block

end InlineA64
