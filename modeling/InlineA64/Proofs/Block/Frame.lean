import InlineA64.Block.Run
import InlineA64.Proofs.Reader.Run

/-!
# What a block leaves alone

Of the labels of a block and of the variables only the binding of a label changes anything
(`Block.step_cases`). All other items leave alone what the services of the environment do, and the
labels besides.
-/

namespace InlineA64

variable {σ Slot κ α β : Type}

/-- The services of an environment leave alone what `view` shows of its state, but for those that
make and bind variables. -/
structure Environment.Keeps (env : Environment σ Slot) (view : σ → κ) : Prop where
  evaluate (context : Context) : Preserves (fun p => view p.2) (env.evaluate context)
  write (address : UInt64) (bytes : List Byte) : Preserves view (env.write address bytes)
  flush (start stop : UInt64) (state : σ) : view (env.flush start stop state) = view state
  listing (line : String) (state : σ) : view (env.listing line state) = view state

variable {env : Environment σ Slot} {view : σ → κ}

theorem Environment.Keeps.evaluateAs (h : env.Keeps view) (as : Value → Option α)
    (context : Context) : Preserves (fun p => view p.2) (env.evaluateAs as context) := by
  refine Preserves.get.bind fun p => (h.evaluate context).bind fun v => ?_
  split
  · exact .pure _
  · exact .of_error fun s => ⟨_, _, rfl⟩

/-! ## Readers -/

namespace Reading

theorem preserves_step (f : Cursor → α × Cursor) :
    Preserves (fun r : Reading σ => view r.state) (step f) := by
  intro r a r' h
  obtain ⟨s, _, rfl⟩ := step_eq_ok.mp h
  rfl

theorem preserves_scan (f : Cursor.Scan α) :
    Preserves (fun r : Reading σ => view r.state) (scan f) := by
  intro r a r' h
  obtain ⟨s, _, rfl⟩ := scan_eq_ok.mp h
  rfl

theorem preserves_consult {f : EStateM Failure (Cursor × σ) α}
    (hf : Preserves (fun p => view p.2) f) :
    Preserves (fun r : Reading σ => view r.state) (consult f) := by
  rw [consult_eq_within]
  exact hf.within fun _ _ hp => hp

end Reading

theorem Request.preserves_answer (h : env.Keeps view) (context : Context) (mnemonic : String)
    (q : Request β) : Preserves (fun r : Reading σ => view r.state)
      (q.answer ⟨env, context, mnemonic⟩) := by
  have hinteger : Preserves (fun r : Reading σ => view r.state)
      (Surroundings.integer ⟨env, context, mnemonic⟩) :=
    (Reading.preserves_step _).bind fun _ => Reading.preserves_consult (h.evaluateAs _ _)
  cases q with
  | mark =>
    rintro r a r' ⟨⟩
    rfl
  | sees | accept | acceptJoined | atBlank | atEnd | seesPostIndex | keyword | wholeWord =>
    rw [Request.answer]
    exact Reading.preserves_step _
  | closeBracket | systemRegister | register =>
    rw [Request.answer]
    exact Reading.preserves_scan _
  | value => exact hinteger
  | distance | pageDistance => exact hinteger.bind fun _ => .pure _
  | reach inReach fault at? =>
    intro r a r' hr
    rw [Request.eq_of_reach hr]

theorem Reader.preserves_run (h : env.Keeps view) (context : Context) (mnemonic : String)
    (x : Reader α) : Preserves (fun r : Reading σ => view r.state)
      (x.run ⟨env, context, mnemonic⟩) := by
  induction x with
  | done a => exact .pure a
  | fail fault at? => exact .of_error fun r => ⟨_, _, rfl⟩
  | ask q next ih => exact (q.preserves_answer h context mnemonic).bind ih

namespace Block

/-- The labels of a block, and what is seen of the state of its environment. -/
def held (view : σ → κ) (b : Block σ Slot) : List Slot × κ :=
  (b.labels, view b.state)

/-! ## Consulting the environment -/

theorem request_eq_within (f : EStateM Failure σ α) :
    request f = within Block.state (fun (b : Block σ Slot) state => { b with state }) f := by
  funext b
  rw [request, within]
  rcases f b.state with ⟨a, state⟩ | ⟨e, state⟩ <;> rfl

theorem request_eq_ok {f : EStateM Failure σ α} {a : α} {b b' : Block σ Slot} :
    request f b = .ok a b' ↔ ∃ state, f b.state = .ok a state ∧ b' = { b with state } := by
  rw [request_eq_within, within_eq_ok]

theorem consult_eq_within (f : EStateM Failure (Cursor × σ) α) :
    consult f = within (fun b => (b.cursor, b.state)) (fun (b : Block σ Slot) p =>
      { b with cursor := b.cursor.advanceTo p.1.pos, state := p.2 }) f := by
  funext b
  rw [consult, within]
  rcases f (b.cursor, b.state) with ⟨a, s, state⟩ | ⟨e, s, state⟩ <;> rfl

theorem consult_eq_ok {f : EStateM Failure (Cursor × σ) α} {a : α} {b b' : Block σ Slot} :
    consult f b = .ok a b' ↔ ∃ s state, f (b.cursor, b.state) = .ok a (s, state) ∧
      b' = { b with cursor := b.cursor.advanceTo s.pos, state } := by
  rw [consult_eq_within, within_eq_ok, Prod.exists]

theorem operands_eq_within (mnemonic : String) (reader : Reader α) :
    operands env mnemonic reader = get >>= fun b =>
      within (fun b => ⟨b.cursor, b.state, []⟩)
        (fun (b : Block σ Slot) r => { b with cursor := r.cursor, state := r.state })
        (reader.run ⟨env, b.placement.context, mnemonic⟩) := by
  funext b
  rw [operands, get_bind, within]
  rcases reader.run ⟨env, b.placement.context, mnemonic⟩ ⟨b.cursor, b.state, []⟩ with
    ⟨a, r⟩ | ⟨e, r⟩ <;> rfl

theorem failAt_eq_error {offset : Nat} {fault : Fault} (b : Block σ Slot) :
    ∃ e b', (failAt offset fault : Assembling σ Slot α) b = .error e b' :=
  ⟨_, _, rfl⟩

theorem preserves_request {f : EStateM Failure σ α} (hf : Preserves view f) :
    Preserves (held view) (request f : Assembling σ Slot α) := by
  rw [request_eq_within]
  exact hf.within fun _ _ hstate => by rw [held, held, hstate]

theorem preserves_consult {f : EStateM Failure (Cursor × σ) α}
    (hf : Preserves (fun p => view p.2) f) :
    Preserves (held view) (consult f : Assembling σ Slot α) := by
  rw [consult_eq_within]
  exact hf.within fun _ _ hp => by rw [held, held, hp]

theorem preserves_operands (h : env.Keeps view) (mnemonic : String) (reader : Reader α) :
    Preserves (held view) (operands env mnemonic reader) := by
  rw [operands_eq_within]
  refine Preserves.get.bind fun _ => (reader.preserves_run h _ _).within fun _ _ hr => ?_
  rw [held, held, hr]

/-! ## Statements -/

theorem length_bytesOfNat (count n : Nat) : (bytesOfNat count n).length = count := by
  induction count generalizing n with
  | zero => rfl
  | succ count ih => rw [bytesOfNat, List.length_cons, ih]

theorem length_flatten_noOperations (count : Nat) :
    (List.replicate count (bytesOfWord noOperation)).flatten.length = count * 4 := by
  rw [List.length_flatten, List.map_replicate, List.sum_replicate_nat, bytesOfWord,
    length_bytesOfNat]

theorem preserves_alignStart : Preserves (held view) (alignStart : Assembling σ Slot Unit) :=
  .modify fun _ => rfl

theorem preserves_modifyCursor (f : Cursor → Cursor) :
    Preserves (held view) (modifyCursor f : Assembling σ Slot Unit) :=
  .modify fun _ => rfl

theorem preserves_emit (h : env.Keeps view) (bytes : List Byte) :
    Preserves (held view) (emit env bytes) :=
  Preserves.get.bind fun _ => (preserves_request (h.write _ _)).bind fun _ => .modify fun _ => rfl

theorem preserves_emitNoOperations (h : env.Keeps view) (count : Nat) :
    Preserves (held view) (emitNoOperations env count) := by
  induction count with
  | zero => exact .pure _
  | succ count ih => exact (preserves_emit h _).bind fun _ => ih

theorem preserves_evaluateInt (h : env.Keeps view) :
    Preserves (held view) (Block.evaluateInt env) :=
  Preserves.get.bind fun _ => preserves_consult (h.evaluateAs _ _)

theorem preserves_evaluate (h : env.Keeps view) : Preserves (held view) (Block.evaluate env) :=
  Preserves.get.bind fun _ => preserves_consult (h.evaluate _)

theorem preserves_emitString (h : env.Keeps view) (start : Nat) (bytes : List Byte) :
    Preserves (held view) (emitString env start bytes) :=
  .ite (fun _ => .of_error failAt_eq_error) fun _ => preserves_emit h _

theorem preserves_evaluateAddress (h : env.Keeps view) :
    Preserves (held view) (evaluateAddress env) := by
  refine Preserves.get.bind fun _ => (preserves_evaluate h).bind fun value => ?_
  split
  · refine Preserves.get.bind fun b => ?_
    split
    · exact .pure _
    · exact .of_error failAt_eq_error
  · exact .pure _

theorem preserves_align (h : env.Keeps view) : Preserves (held view) (align env) := by
  refine preserves_alignStart.bind fun _ => ?_
  refine (preserves_modifyCursor _).bind fun _ => Preserves.get.bind fun b => ?_
  refine .ite (fun _ => ?_) fun _ => .pure _
  refine (preserves_evaluateInt h).bind fun n => ?_
  exact .ite (fun _ => preserves_emitNoOperations h _) fun _ => .of_error failAt_eq_error

theorem preserves_directive (h : env.Keeps view) (d : Directive) :
    Preserves (held view) (directive env d) := by
  cases d with
  | align => exact preserves_align h
  | data =>
    refine Preserves.get.bind fun _ => (preserves_evaluate h).bind fun value => ?_
    split
    · exact preserves_emitString h _ _
    · exact preserves_emit h _
  | byte | half => exact (preserves_evaluateInt h).bind fun _ => preserves_emit h _
  | word =>
    refine (preserves_evaluateAddress h).bind fun _ => ?_
    exact preserves_alignStart.bind fun _ => preserves_emit h _
  | quad => exact (preserves_evaluateAddress h).bind fun _ => preserves_emit h _
  | string =>
    refine Preserves.get.bind fun _ => ?_
    exact (preserves_consult (h.evaluateAs _ _)).bind fun _ => preserves_emitString h _ _
  | options => exact (preserves_evaluateInt h).bind fun _ => .modify fun _ => rfl

theorem preserves_instruction (h : env.Keeps view) (mnemonic : String)
    (reader : Reader Encoding) : Preserves (held view) (instruction env mnemonic reader) :=
  preserves_alignStart.bind fun _ => (preserves_operands h _ _).bind fun _ => preserves_emit h _

theorem preserves_statement (h : env.Keeps view) : Preserves (held view) (statement env) := by
  have hsettle : Preserves (held view) (settle : Assembling σ Slot Unit) := .modify fun _ => rfl
  refine Preserves.get.bind fun b => Preserves.get.bind fun b' => ?_
  rcases Mnemonic.lookup b'.cursor with ⟨found, cursor⟩
  refine (preserves_modifyCursor _).bind fun _ => ?_
  split
  · exact .of_error failAt_eq_error
  -- options, the other directives, instructions, and those that are not supported
  split
  · exact preserves_directive h _
  · exact hsettle.bind fun _ => preserves_directive h _
  · exact hsettle.bind fun _ => preserves_instruction h _ _
  · exact hsettle.bind fun _ => preserves_instruction h _ _

/-! ## The ends of statements -/

/-- What `view` shows of a block does not depend on what listing and flushing do, nor on what has
been emitted in the statement, nor on the options. -/
structure Unseen (env : Environment σ Slot) (view : Block σ Slot → κ) : Prop where
  flush (start stop : UInt64) (b : Block σ Slot) :
    view { b with state := env.flush start stop b.state } = view b
  listing (line : String) (b : Block σ Slot) :
    view { b with state := env.listing line b.state } = view b
  emitted (bytes : List Byte) (b : Block σ Slot) : view { b with emitted := bytes } = view b
  options (options : Options) (b : Block σ Slot) :
    view { b with placement := b.placement.withOptions options } = view b

theorem unseen_held (h : env.Keeps view) : Unseen env (held view : Block σ Slot → _) where
  flush _ _ _ := by rw [held, held, h.flush]
  listing _ _ := by rw [held, held, h.listing]
  emitted _ _ := rfl
  options _ _ := rfl

section Unseen

variable {view : Block σ Slot → κ}

theorem preserves_list (h : Unseen env view) (rows : List String) :
    Preserves view (list env rows) := by
  refine .modify fun b => ?_
  induction rows generalizing b with
  | nil => rfl
  | cons row rows ih =>
    exact (ih { b with state := env.listing row b.state }).trans (h.listing row b)

theorem preserves_closeStatement (h : Unseen env view) (stop : Nat) :
    Preserves view (closeStatement env stop) := by
  have hemitted :
      Preserves view (modify fun b => { b with emitted := [] } : Assembling σ Slot Unit) :=
    .modify fun b => h.emitted [] b
  have hflush (b : Block σ Slot) :
      Preserves view (modifyState (env.flush b.address b.placement.logical)) :=
    .modify fun b' => h.flush _ _ b'
  refine Preserves.get.bind fun b => .ite (fun _ => ?_) fun _ => ?_
  · refine (preserves_list h _).bind fun _ => ?_
    exact .ite (fun _ => (hflush b).bind fun _ => hemitted) fun _ => hemitted
  · exact .ite (fun _ => (hflush b).bind fun _ => hemitted) fun _ => hemitted

theorem preserves_finish (h : Unseen env view) (stop : Nat) :
    Preserves view (finish env stop) := by
  have hoptions : Preserves view (modifyPlacement (·.withOptions .standard)) :=
    .modify fun b => h.options .standard b
  refine Preserves.get.bind fun b => .ite (fun _ => ?_) fun _ => hoptions
  exact (preserves_closeStatement h _).bind fun _ => hoptions

end Unseen

/-! ## Items -/

/-- The block when the name of the label at the cursor is read. -/
def atLabel (b : Block σ Slot) : Block σ Slot :=
  let b := { b with cursor := b.cursor.advance 1 }
  if b.fresh then
    { b with
      placement := b.placement.align, address := b.placement.align.logical, emitted := [] }
  else b

@[simp]
theorem atLabel_labels (b : Block σ Slot) : b.atLabel.labels = b.labels := by
  rw [atLabel]
  split <;> rfl

@[simp]
theorem atLabel_state (b : Block σ Slot) : b.atLabel.state = b.state := by
  rw [atLabel]
  split <;> rfl

theorem atLabel_cursor (b : Block σ Slot) : b.atLabel.cursor = b.cursor.advance 1 := by
  rw [atLabel]
  split <;> rfl

theorem atLabel_options (b : Block σ Slot) :
    b.atLabel.placement.options = b.placement.options := by
  rw [atLabel]
  split <;> rfl

variable [DecidableEq Slot]

theorem isBound_iff {b : Block σ Slot} {slot : Slot} : isBound env b slot = true ↔
    slot ∈ b.labels ∨ b.placement.options.rangeCheck = false ∧ env.load slot b.state ≠ 0 := by
  rw [isBound, Bool.or_eq_true, List.contains_iff_mem, Bool.and_eq_true, Bool.not_eq_true',
    bne_iff_ne]

/-- Bind the variable of a label that starts at `start` to the address of the code. -/
def bindSlot (env : Environment σ Slot) (start : Nat) (named : Slot × VariableKind) :
    Assembling σ Slot Unit := do
  let b ← get
  if named.2 = .string then failAt start .typeMismatch
  else if isBound env b named.1 then
    failAt start (.multipleLabel (Utf8.decode (b.cursor.slice (start + 1) b.cursor.pos)))
  else
    request (env.store named.1 b.placement.logical)
    modify fun b => { b with labels := named.1 :: b.labels }

theorem label_eq (env : Environment σ Slot) (b : Block σ Slot) :
    label env b = (consult env.slot >>= bindSlot env b.cursor.pos) b.atLabel := by
  rw [label, get_bind, modifyCursor, modify_bind, get_bind, atLabel]
  by_cases hfresh : b.fresh
  · rw [if_pos hfresh, if_pos hfresh, alignStart, modify_bind]
    rfl
  · rw [if_neg hfresh, if_neg hfresh]
    rfl

theorem bindSlot_eq_ok {start : Nat} {named : Slot × VariableKind} {b b' : Block σ Slot} {u : Unit}
    (h : bindSlot env start named b = .ok u b') :
    named.2 ≠ .string ∧ isBound env b named.1 = false ∧
      ∃ state, env.store named.1 b.placement.logical b.state = .ok () state ∧
        b' = { b with state, labels := named.1 :: b.labels } := by
  rw [bindSlot, get_bind] at h
  split at h
  · cases h
  split at h
  · cases h
  next hkind hbound =>
    obtain ⟨_, b₁, hstore, h⟩ := bind_eq_ok.mp h
    obtain ⟨state, hstate, rfl⟩ := request_eq_ok.mp hstore
    exact ⟨hkind, Bool.eq_false_iff.mpr hbound, state, hstate, modify_eq_ok.mp h⟩

theorem bindSlot_of_bound {start : Nat} {named : Slot × VariableKind} {b : Block σ Slot}
    (hkind : named.2 = .numeric) (h : isBound env b named.1 = true) :
    bindSlot env start named b = .error
      ⟨.multipleLabel (Utf8.decode (b.cursor.slice (start + 1) b.cursor.pos)),
        b.cursor.spanOf start⟩ b := by
  rw [bindSlot, get_bind, hkind, if_neg nofun, if_pos h]
  rfl

theorem bindSlot_of_free {start : Nat} {named : Slot × VariableKind} {b : Block σ Slot} {state : σ}
    (hkind : named.2 = .numeric) (h : isBound env b named.1 = false)
    (hstore : env.store named.1 b.placement.logical b.state = .ok () state) :
    bindSlot env start named b = .ok () { b with state, labels := named.1 :: b.labels } := by
  have hrequest : request (env.store named.1 b.placement.logical) b = .ok () { b with state } :=
    request_eq_ok.mpr ⟨state, hstore, rfl⟩
  rw [bindSlot, get_bind, hkind, if_neg nofun, h, if_neg Bool.false_ne_true, bind_of_ok hrequest]
  rfl

/-- A label that can be bound is bound to the address of the code, and it is noted that it was. -/
theorem label_eq_ok {b b' : Block σ Slot} {u : Unit} (h : label env b = .ok u b') :
    ∃ slot kind b₁ state, consult env.slot b.atLabel = .ok (slot, kind) b₁ ∧ kind ≠ .string ∧
      isBound env b₁ slot = false ∧ env.store slot b₁.placement.logical b₁.state = .ok () state ∧
      b' = { b₁ with state, labels := slot :: b₁.labels } := by
  rw [label_eq] at h
  obtain ⟨⟨slot, kind⟩, b₁, hslot, h⟩ := bind_eq_ok.mp h
  obtain ⟨hkind, hbound, state, hstate, hb'⟩ := bindSlot_eq_ok h
  exact ⟨slot, kind, b₁, state, hslot, hkind, hbound, hstate, hb'⟩

/-- An item is a label, or the labels and what is seen of the environment stay as they are. -/
theorem item_cases (h : env.Keeps view) {b b' : Block σ Slot} {next : Next}
    (hitem : item env b = .ok next b') :
    held view b' = held view b ∨
      label env { b with cursor := b.cursor.skipBlanks } = .ok () b' := by
  have hstop (x : Assembling σ Slot Unit) (hx : Preserves (held view) x) (n : Next) :
      Preserves (held view) (x >>= fun _ => pure n) :=
    hx.bind fun _ => .pure _
  have hfinish (stop : Nat) : Preserves (held view) (finish env stop) :=
    preserves_finish (unseen_held h) stop
  rw [item, modifyCursor, modify_bind, get_bind] at hitem
  dsimp only at hitem
  -- the blanks before an item are not among what is held
  change held view b' = held view { b with cursor := b.cursor.skipBlanks } ∨ _
  split at hitem
  · exact .inl (hstop _ (hfinish _) _ hitem)
  split at hitem
  · exact .inl (((preserves_modifyCursor _).bind fun _ => hstop _ (hfinish _) _) hitem)
  split at hitem
  · refine .inl (((preserves_modifyCursor _).bind fun _ => ?_) hitem)
    refine (preserves_closeStatement (unseen_held h) _).bind fun _ => hstop _ ?_ _
    exact .modify fun _ => rfl
  split at hitem
  · exact .inl (hstop _ (preserves_modifyCursor _) _ hitem)
  split at hitem
  · obtain ⟨_, b₁, hlabel, hpure⟩ := bind_eq_ok.mp hitem
    rw [(pure_eq_ok.mp hpure).2]
    exact .inr hlabel
  · exact .inl (hstop _ (preserves_statement h) _ hitem)

end Block

end InlineA64
