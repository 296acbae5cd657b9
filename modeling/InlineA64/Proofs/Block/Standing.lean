import InlineA64.Proofs.Block.Item
import InlineA64.Proofs.Block.Labels
import InlineA64.Proofs.Block.Record

/-!
# Standings

The `Standing` of a block is all that an item can change of it but for the text, and without what is
only there for the listing. The actions on a block that are made of few steps are told here by what
they do to its standing: to write bytes (`Block.emit_eq_ok`), to bind a label
(`Block.label_eq_ok_iff`) and to end a statement (`Block.leads_closeStatement`,
`Block.leads_finish`), which never fails. So are the steps of a block that bind no label.
-/

namespace InlineA64

open Machine (environment)

namespace Machine

variable {w w' : Machine}

/-- The machine without its listing. -/
def unlisted (w : Machine) : Machine :=
  { w with listing := #[] }

theorem unlisted_bindLabel (w : Machine) (name : Name) (address : UInt64) :
    (w.bindLabel name address).unlisted = w.unlisted.bindLabel name address := by
  have hvars : w.unlisted.vars = w.vars := rfl
  rw [bindLabel, bindLabel, declare, declare, hvars]
  split <;> rfl

/-- To bind a label changes nothing but the variables. -/
theorem bindLabel_eq (w : Machine) (name : Name) (address : UInt64) :
    w.bindLabel name address = { w with vars := (w.bindLabel name address).vars } := by
  rw [bindLabel, declare]
  split <;> rfl

theorem write_of_eq_ok {image : Image} {address : UInt64} {bytes : List Byte}
    (h : w.image.write address bytes = .ok image) :
    environment.write address bytes w = .ok () { w with image } := by
  change write address bytes w = _
  rw [write, h]

theorem startsName_of_slot {s s' : Cursor} {named : Name × VariableKind}
    (h : slot (s, w) = .ok named (s', w')) : s.peek.startsName = true := by
  rw [slot] at h
  split at h
  · assumption
  · cases h

theorem slot_of_name {s s' : Cursor} {name : Name} (hstarts : s.peek.startsName = true)
    (hname : Expression.name s = .ok name s') :
    slot (s, w) = .ok (name, kindOf name) (s', w.declare name) := by
  rw [slot, if_pos hstarts, hname]

/-- A new variable holds nothing yet. -/
theorem number?_declare (w : Machine) (name : Name) :
    ((w.declare name).number? name).getD 0 = (w.number? name).getD 0 := by
  rw [declare]
  split
  · rfl
  · next hnone =>
    rw [Option.not_isSome_iff_eq_none] at hnone
    rw [number?, number?, hnone, setVariable, Bindings.get?_set, if_pos rfl]
    cases kindOf name <;> rfl

end Machine

/-- What a block comes to, but for its text and its listing. -/
structure Standing where
  /-- Where the block stands. -/
  position : Position
  /-- The labels bound in the block, the last first. -/
  labels : List Name
  /-- The machine. -/
  machine : Machine

namespace Standing

/-- Change where the block stands. -/
def onPosition (f : Position → Position) (k : Standing) : Standing :=
  { k with position := f k.position }

theorem onPosition_labelled (k : Standing) :
    k.onPosition .labelled = if k.position.fresh then k.onPosition .aligned else k := by
  rw [onPosition, Position.labelled]
  split <;> rfl

/-- What expressions can refer to. -/
def scope (k : Standing) : Expression.Scope :=
  ⟨k.position.placement.context, k.machine.vars⟩

/-- A number of bytes has been written, with this image in the end. -/
def wrote (k : Standing) (count : Nat) (image : Image) : Standing :=
  { k with position := k.position.moved count, machine := { k.machine with image } }

/-- A label of this name can be bound. -/
def Free (k : Standing) (name : Name) : Prop :=
  name ∉ k.labels ∧
    (k.position.placement.options.rangeCheck = true ∨ (k.machine.number? name).getD 0 = 0)

/-- Bind a label to the address of the code. -/
def bind (k : Standing) (name : Name) : Standing :=
  { k with
    labels := name :: k.labels
    machine := k.machine.bindLabel name k.position.placement.logical }

/-- What was flushed when the statement has ended. -/
def flushes (k : Standing) : Array (UInt64 × UInt64) :=
  if !k.position.placement.options.offset && k.position.placement.logical != k.position.address then
    k.machine.flushed.push (k.position.address, k.position.placement.logical)
  else k.machine.flushed

/-- Have what the statement wrote in place fetched anew. -/
def flushed (k : Standing) : Standing :=
  { k with machine := { k.machine with flushed := k.flushes } }

/-- Go back to the standard options. -/
def closed (k : Standing) : Standing :=
  k.onPosition (·.withOptions .standard)

end Standing

namespace Block

/-- What a block comes to. -/
def standing (b : Block Machine Name) : Standing :=
  ⟨b.position, b.labels, b.state.unlisted⟩

/-- A block has succeeded: it had come to `k` when it was closed. -/
structure Outcome.Closes (o : Outcome Machine) (k : Standing) : Prop where
  failure : o.failure = none
  placement : o.placement = k.position.placement.withOptions .standard
  image : o.state.image = k.machine.image
  vars : o.state.vars = k.machine.vars
  flushed : o.state.flushed = k.machine.flushed

namespace Outcome.Closes

variable {o : Outcome Machine} {k : Standing}

theorem logical (h : o.Closes k) : o.placement.logical = k.position.placement.logical := by
  rw [h.placement]
  rfl

theorem physical (h : o.Closes k) : o.placement.physical = k.position.placement.physical := by
  rw [h.placement]
  rfl

end Outcome.Closes

theorem closes_of_standing {c : Block Machine Name} {k : Standing} (h : c.standing = k.closed) :
    Outcome.Closes ⟨none, c.placement, c.state, c.cursor⟩ k where
  failure := rfl
  placement := congrArg (fun k : Standing => k.position.placement) h
  image := congrArg (fun k : Standing => k.machine.image) h
  vars := congrArg (fun k : Standing => k.machine.vars) h
  flushed := congrArg (fun k : Standing => k.machine.flushed) h

variable {b c : Block Machine Name} {bytes : List Byte} {u : Unit}

/-! ## Output -/

theorem emit_eq_ok (h : emit environment bytes b = .ok u c) :
    ∃ image, b.state.image.write b.placement.writeAddress bytes = .ok image ∧
      c.cursor = b.cursor ∧ c.standing = b.standing.wrote bytes.length image := by
  rw [emit, get_bind] at h
  obtain ⟨_, b₁, hwrite, h⟩ := bind_eq_ok.mp h
  obtain ⟨state, hstate, rfl⟩ := request_eq_ok.mp hwrite
  obtain ⟨image, himage, rfl⟩ := Machine.write_eq_ok hstate
  rw [modify_eq_ok.mp h]
  exact ⟨image, himage, rfl, rfl⟩

theorem exists_emit {image : Image}
    (h : b.state.image.write b.placement.writeAddress bytes = .ok image) :
    ∃ c, emit environment bytes b = .ok () c ∧ c.cursor = b.cursor ∧
      c.standing = b.standing.wrote bytes.length image := by
  have hwrite : request (environment.write b.placement.writeAddress bytes) b =
      .ok () { b with state := { b.state with image } } :=
    request_eq_ok.mpr ⟨_, Machine.write_of_eq_ok h, rfl⟩
  refine ⟨_, (bind_of_ok hwrite).trans rfl, rfl, rfl⟩

/-! ## Labels -/

section Slot

variable {σ Slot : Type} [DecidableEq Slot] {env : Environment σ Slot} {b : Block σ Slot}

theorem isBound_eq_false {slot : Slot} : isBound env b slot = false ↔
    slot ∉ b.labels ∧ (b.placement.options.rangeCheck = true ∨ env.load slot b.state = 0) := by
  rw [isBound, Bool.or_eq_false_iff, List.contains_eq_mem, decide_eq_false_iff_not,
    Bool.and_eq_false_iff, Bool.not_eq_false', bne_eq_false_iff_eq]

theorem bindSlot_of_isBound {start : Nat} {named : Slot × VariableKind} {state : σ}
    (hkind : named.2 ≠ .string) (hbound : isBound env b named.1 = false)
    (hstore : env.store named.1 b.placement.logical b.state = .ok () state) :
    bindSlot env start named b = .ok () { b with state, labels := named.1 :: b.labels } := by
  have hrequest : request (env.store named.1 b.placement.logical) b = .ok () { b with state } :=
    request_eq_ok.mpr ⟨state, hstore, rfl⟩
  rw [bindSlot, get_bind, if_neg hkind, if_neg (Bool.eq_false_iff.mp hbound), bind_of_ok hrequest]
  rfl

end Slot

theorem standing_atLabel (b : Block Machine Name) :
    b.atLabel.standing = b.standing.onPosition .labelled := by
  have hfresh : b.standing.position.fresh = b.fresh := rfl
  rw [Standing.onPosition_labelled, hfresh, atLabel]
  split <;> rfl

theorem cursor_atLabel (b : Block Machine Name) : b.atLabel.cursor = b.cursor.advance 1 := by
  rw [atLabel]
  split <;> rfl

/-- The block when a label of a name that stops at the offset `stop` has been bound. -/
def bindAt (b : Block Machine Name) (name : Name) (stop : Nat) : Block Machine Name :=
  { b with
    cursor := b.cursor.advanceTo stop
    state := b.state.bindLabel name b.placement.logical
    labels := name :: b.labels }

theorem standing_bindAt (b : Block Machine Name) (name : Name) (stop : Nat) :
    (b.bindAt name stop).standing = b.standing.bind name := by
  rw [standing, bindAt, Machine.unlisted_bindLabel]
  rfl

/-- A label is bound if its name can be read and is that of a number, and if it can be bound. -/
theorem label_eq_ok_iff : label environment b = .ok u c ↔
    ∃ name s, b.atLabel.cursor.peek.startsName = true ∧
      Expression.name b.atLabel.cursor = .ok name s ∧ Machine.kindOf name ≠ .string ∧
      b.atLabel.standing.Free name ∧ c = b.atLabel.bindAt name s.pos := by
  have hload (w : Machine) (name : Name) :
      environment.load name (w.declare name) = (w.number? name).getD 0 := w.number?_declare name
  constructor
  · intro h
    -- the slot is read first, which declares the variable, and then bound
    obtain ⟨name, kind, b₁, state, hconsult, hkind, hfree, hstore, hc⟩ := label_eq_ok h
    obtain ⟨s, w, hslot, rfl⟩ := consult_eq_ok.mp hconsult
    have hstarts := Machine.startsName_of_slot hslot
    obtain ⟨hname, rfl, rfl⟩ := Machine.slot_eq_ok hslot
    rw [isBound_eq_false, hload] at hfree
    cases hstore
    exact ⟨name, s, hstarts, hname, hkind, hfree, hc⟩
  · rintro ⟨name, s, hstarts, hname, hkind, hfree, rfl⟩
    have hslot : consult environment.slot b.atLabel = .ok (name, Machine.kindOf name)
        { b.atLabel with
          cursor := b.atLabel.cursor.advanceTo s.pos, state := b.atLabel.state.declare name } :=
      consult_eq_ok.mpr ⟨s, _, Machine.slot_of_name hstarts hname, rfl⟩
    have hbind : bindSlot environment b.cursor.pos (name, Machine.kindOf name)
        { b.atLabel with
          cursor := b.atLabel.cursor.advanceTo s.pos, state := b.atLabel.state.declare name } = _ :=
      bindSlot_of_isBound hkind (isBound_eq_false.mpr (by rw [hload]; exact hfree)) rfl
    rw [label_eq, bind_of_ok hslot, hbind]
    rfl

/-! ## The ends of statements -/

theorem unlisted_foldl (rows : List String) (w : Machine) :
    (rows.foldl (fun w row => environment.listing row w) w).unlisted = w.unlisted := by
  induction rows generalizing w with
  | nil => rfl
  | cons row rows ih => exact ih (environment.listing row w)

/-- A statement ends without fail, and what it wrote in place is flushed. -/
theorem leads_closeStatement (stop : Nat) (b : Block Machine Name) :
    Leads (closeStatement environment stop) b
      (fun _ c => c.cursor = b.cursor ∧ c.standing = b.standing.flushed) fun _ _ => False := by
  have hstanding {w : Machine} (hw : w.unlisted = b.standing.flushed.machine) :
      ({ b with state := w, emitted := [] } : Block Machine Name).standing =
        b.standing.flushed := by
    change Standing.mk b.position b.labels w.unlisted = _
    rw [hw]
    rfl
  have hflushes (w : Machine) (hw : w.unlisted = b.state.unlisted) :
      Leads (do
        if !b.placement.options.offset && b.placement.logical != b.address then
          modifyState (environment.flush b.address b.placement.logical)
        modify fun b => { b with emitted := [] } : Assembling Machine Name Unit)
        { b with state := w }
        (fun _ c => c.cursor = b.cursor ∧ c.standing = b.standing.flushed) fun _ _ => False := by
    refine .ite (fun hflush => .modify_bind (.modify ⟨rfl, hstanding ?_⟩)) fun hflush =>
      .modify ⟨rfl, hstanding ?_⟩
    · have hlast : b.standing.flushes =
          b.state.unlisted.flushed.push (b.address, b.placement.logical) := if_pos hflush
      rw [Standing.flushed, hlast]
      exact congrArg (environment.flush b.address b.placement.logical) hw
    · have hlast : b.standing.flushes = b.state.unlisted.flushed := if_neg hflush
      rw [Standing.flushed, hlast]
      exact hw
  -- the rows of the listing, if any are shown, are no part of the standing
  refine .get_bind (.ite (fun _ => .modify_bind ?_) fun _ => ?_)
  · exact hflushes _ (unlisted_foldl _ _)
  · exact hflushes _ rfl

/-- The last statement ends without fail, and then the block is closed. -/
theorem leads_finish (stop : Nat) (b : Block Machine Name) :
    Leads (finish environment stop) b
      (fun _ c => c.cursor = b.cursor ∧ c.standing = b.standing.flushed.closed)
      fun _ _ => False := by
  refine .get_bind (.ite (fun _ => ?_) fun hempty => ?_)
  · refine (leads_closeStatement stop b).bind fun _ c ⟨hcursor, hstanding⟩ => .modify ⟨hcursor, ?_⟩
    rw [← hstanding]
    rfl
  · -- an empty statement has nothing to flush
    rw [Bool.or_eq_true, not_or] at hempty
    have hflushed : b.standing.flushed = b.standing := by
      have hlast : b.standing.flushes = b.state.unlisted.flushed :=
        if_neg fun hflush => hempty.1 (Bool.and_eq_true_iff.mp hflush).2
      rw [Standing.flushed, hlast]
      rfl
    exact .modify ⟨rfl, by rw [hflushed]; rfl⟩

/-! ## Steps -/

variable {next : Next} {Q : Next → Block Machine Name → Prop}
  {E : Failure → Block Machine Name → Prop}

theorem step_eq_ok : step environment b = .ok next c ↔
    b.placement.atLimit = false ∧ item environment b = .ok next c := by
  rw [step, get_bind]
  by_cases hlimit : b.placement.atLimit = true
  · rw [if_pos hlimit, hlimit]
    exact iff_of_false (fun h => by cases h) fun h => absurd h.1.symm Bool.false_ne_true
  · rw [if_neg hlimit, and_iff_right (Bool.eq_false_iff.mpr hlimit)]

/-- The end of a block closes it. -/
theorem exists_step_of_close (h : b.upcoming = .close) (hlimit : b.placement.atLimit = false) :
    ∃ c, step environment b = .ok .stop c ∧ c.standing = b.standing.flushed.closed := by
  have hstep : Leads (step environment) b
      (fun next c => next = .stop ∧ c.standing = b.standing.flushed.closed) fun _ _ => False :=
    .of_eq (step_of_upcoming h hlimit)
      (.modify_bind ((leads_finish _ _).bind fun _ c hc => .pure ⟨rfl, hc.2⟩))
  obtain ⟨_, c, hstep, rfl, hc⟩ := hstep.exists_ok
  exact ⟨c, hstep, hc⟩

/-- A comment is skipped. -/
theorem step_of_comment (h : b.upcoming = .comment) (hlimit : b.placement.atLimit = false) :
    step environment b =
      .ok .more { b.atItem with cursor := b.atItem.cursor.skipWhile continuesComment } :=
  step_of_upcoming h hlimit

/-- A separator ends a statement and opens another. -/
theorem exists_step_of_separator (h : b.upcoming = .separator)
    (hlimit : b.placement.atLimit = false) :
    ∃ c, step environment b = .ok .more c ∧
      c.cursor = (takeSeparator b.atItem.cursor).skipBlanks ∧
      c.standing = b.standing.flushed.onPosition .opened := by
  have hstep : Leads (step environment) b (fun next c => next = .more ∧
      c.cursor = (takeSeparator b.atItem.cursor).skipBlanks ∧
      c.standing = b.standing.flushed.onPosition .opened) fun _ _ => False := by
    refine .of_eq (step_of_upcoming h hlimit) (.modify_bind ((leads_closeStatement _ _).bind ?_))
    rintro _ c ⟨hcursor, hstanding⟩
    refine .modify_bind (.pure ⟨rfl, ?_, ?_⟩)
    · exact congrArg Cursor.skipBlanks hcursor
    · exact congrArg (Standing.onPosition .opened) hstanding
  obtain ⟨_, c, hstep, rfl, hc⟩ := hstep.exists_ok
  exact ⟨c, hstep, hc⟩

/-- The end of the text closes the block. -/
theorem standing_of_end (hpeek : b.atItem.cursor.peek = 0) (h : step environment b = .ok next c) :
    next = .stop ∧ c.standing = b.standing.flushed.closed := by
  have hupcoming : b.upcoming = .close := by
    rw [upcoming, Cursor.item, hpeek]
    rfl
  obtain ⟨c', hstep, hstanding⟩ := exists_step_of_close hupcoming (step_eq_ok.mp h).1
  obtain ⟨rfl, rfl⟩ := EStateM.Result.ok.inj (hstep.symm.trans h)
  exact ⟨rfl, hstanding⟩

/-- A colon ends a statement and opens another. -/
theorem exists_step_of_colon (hpeek : b.atItem.cursor.peek = ':'.toUInt8)
    (hlimit : b.placement.atLimit = false) :
    ∃ c, step environment b = .ok .more c ∧
      c.cursor = (b.atItem.cursor.advance 1).skipBlanks ∧
      c.standing = b.standing.flushed.onPosition .opened := by
  have hupcoming : b.upcoming = .separator := by
    rw [upcoming, Cursor.item, hpeek]
    rfl
  have htake : takeSeparator b.atItem.cursor = b.atItem.cursor.advance 1 := by
    rw [takeSeparator, hpeek]
    rfl
  exact htake ▸ exists_step_of_separator hupcoming hlimit

end Block

end InlineA64
