import InlineA64.Proofs.Block.Atomic
import InlineA64.Proofs.Expression.Located
import InlineA64.Proofs.Reader.Located

/-!
# Where items fail

An item that fails points at something that it has read (`Block.locates_step`), unless a write is
refused, which is no matter of the text. All actions on a block are followed for this, from the
faults that are noted at the cursor or at where it has been on.

* `Block.failure_located`: the failure of a block points into the item that it fails in.
-/

namespace InlineA64

open Machine (environment RefusesToWrite)

variable {σ Slot α : Type}

/-- The services of an environment that read text point at what they have read when they fail, and
to bind a variable does not fail. -/
structure Environment.Locates (env : Environment σ Slot) : Prop where
  evaluate (context : Context) : ServiceLocates (env.evaluate context)
  slot : ServiceLocates env.slot
  store (slot : Slot) (address : UInt64) (state : σ) :
    ∃ state', env.store slot address state = .ok () state'

namespace Block

variable {env : Environment σ Slot} {origin : Cursor}

/-- An action on a block that fails points at something that it or those before it have read, unless
a write is refused. -/
abbrev Locates (env : Environment σ Slot) (origin : Cursor) (x : Assembling σ Slot α) : Prop :=
  Maintains (fun b => origin.ComesFrom b.cursor)
    (fun failure b => env.RefusesToWrite failure ∨ failure.Located origin b.cursor) x

/-- What points at something behind a cursor points at something behind where that comes from. -/
theorem Locates.leads {x : Assembling σ Slot α} {s : Cursor} {b : Block σ Slot}
    (hx : Locates env s x) (hs : origin.ComesFrom s) (hb : s.ComesFrom b.cursor) :
    Leads x b (fun _ b' => origin.ComesFrom b'.cursor)
      fun failure b' => env.RefusesToWrite failure ∨ failure.Located origin b'.cursor :=
  (hx b hb).mono (fun _ _ h => hs.trans_onward h.onward)
    fun _ _ h => h.imp_right fun h => h.of_comesFrom hs

/-- What follows a look at the block can point at where the cursor stands. -/
theorem Locates.get_bind_here {f : Block σ Slot → Assembling σ Slot α}
    (hf : ∀ b, Locates env b.cursor (f b)) : Locates env origin (get >>= f) := fun b hb =>
  (hf b).leads hb hb.refl_right

theorem locates_modify {g : Block σ Slot → Block σ Slot}
    (hg : ∀ b : Block σ Slot, b.cursor.Onward (g b).cursor) :
    Locates env origin (modify g : Assembling σ Slot PUnit) :=
  Maintains.modify fun b hb => hb.trans_onward (hg b)

theorem locates_failAt (s : Cursor) (fault : Fault) :
    Locates env s (failAt s.pos fault : Assembling σ Slot α) := fun _ hb =>
  .inr (.of_offset hb (Nat.le_refl _) hb.pos_le fault)

/-! ## Consulting the environment -/

theorem locates_consult {f : EStateM Failure (Cursor × σ) α} (hf : ServiceLocates f) :
    Locates env origin (consult f) := by
  rw [consult_eq_within]
  intro b hb
  refine .within ((hf b.cursor (b.cursor, b.state) hb.refl_right).mono
    (fun _ p hp => ?_) fun _ p hp => ?_)
  · rw [hp.advanceTo_pos]
    exact hb.trans_onward hp.onward
  · rw [hp.comesFrom.advanceTo_pos]
    exact .inr (hp.of_comesFrom hb)

theorem locates_evaluateAs (h : env.Locates) (view : Value → Option α) (context : Context) :
    Locates env origin (consult (env.evaluateAs view context)) :=
  locates_consult (Environment.locates_evaluateAs (h.evaluate context) view)

theorem locates_evaluateInt (h : env.Locates) : Locates env origin (Block.evaluateInt env) :=
  .get_bind fun _ _ => locates_evaluateAs h _ _

theorem locates_evaluate (h : env.Locates) : Locates env origin (Block.evaluate env) :=
  .get_bind fun _ _ => locates_consult (h.evaluate _)

theorem locates_operands (h : env.Locates) (mnemonic : String) (reader : Reader α) :
    Locates env origin (operands env mnemonic reader) := by
  rw [operands_eq_within]
  refine .get_bind fun c _ => ?_
  intro b hb
  -- no positions have been noted when a reader starts
  refine .within ((reader.locates_run (h.evaluate _) mnemonic _ ⟨hb, ?_⟩).mono
    (fun _ _ hr => hr.cursor) fun _ _ hr => .inr hr)
  exact fun mark hmark => absurd hmark List.not_mem_nil

theorem locates_emit (bytes : List Byte) : Locates env origin (emit env bytes) := by
  -- a write leaves the cursor alone, and is refused if it fails
  refine .get_bind fun _ _ => Maintains.bind ?_ fun _ => locates_modify fun b => .refl b.cursor
  rw [request_eq_within]
  intro b hb
  refine .within ?_
  rw [Leads]
  split
  · exact hb
  · next hwrite => exact .inl ⟨_, _, _, _, hwrite⟩

/-! ## Directives -/

theorem locates_emitString (s : Cursor) (bytes : List Byte) :
    Locates env s (emitString env s.pos bytes) :=
  .ite (locates_failAt s _) (locates_emit _)

theorem locates_emitNoOperations (count : Nat) :
    Locates env origin (emitNoOperations env count) := by
  induction count with
  | zero => exact .pure _
  | succ count ih => exact (locates_emit _).bind fun _ => ih

theorem locates_evaluateAddress (h : env.Locates) :
    Locates env origin (evaluateAddress env) := by
  -- a name without an address is noted where the operand starts
  refine Locates.get_bind_here fun b => (locates_evaluate h).bind fun value => ?_
  split
  · refine .get_bind fun _ _ => ?_
    split
    · exact .pure _
    · exact locates_failAt b.cursor _
  · exact .pure _

theorem locates_alignStart : Locates env origin (alignStart : Assembling σ Slot Unit) :=
  locates_modify fun b => .refl b.cursor

theorem locates_align (h : env.Locates) : Locates env origin (align env) := by
  refine locates_alignStart.bind fun _ => ?_
  refine (locates_modify fun b => b.cursor.onward_skipBlanks).bind fun _ => ?_
  refine Locates.get_bind_here fun b => .ite ((locates_evaluateInt h).bind fun n => ?_) (.pure _)
  exact .ite (locates_emitNoOperations _) (locates_failAt b.cursor _)

theorem locates_directive (h : env.Locates) (d : Directive) :
    Locates env origin (directive env d) := by
  cases d with
  | align => exact locates_align h
  | data =>
    -- a string that is too long is noted where it starts
    refine Locates.get_bind_here fun b => (locates_evaluate h).bind fun value => ?_
    split
    · exact locates_emitString b.cursor _
    · exact locates_emit _
  | byte | half => exact (locates_evaluateInt h).bind fun _ => locates_emit _
  | word =>
    exact (locates_evaluateAddress h).bind fun _ => locates_alignStart.bind fun _ => locates_emit _
  | quad => exact (locates_evaluateAddress h).bind fun _ => locates_emit _
  | string =>
    refine Locates.get_bind_here fun b => (locates_evaluateAs h _ _).bind fun _ => ?_
    exact locates_emitString b.cursor _
  | options =>
    exact (locates_evaluateInt h).bind fun _ => locates_modify fun b => .refl b.cursor

/-! ## Items -/

theorem locates_instruction (h : env.Locates) (mnemonic : String) (reader : Reader Encoding) :
    Locates env origin (instruction env mnemonic reader) :=
  locates_alignStart.bind fun _ => (locates_operands h _ _).bind fun _ => locates_emit _

theorem locates_perform (h : env.Locates) (m : Mnemonic) :
    Locates env origin (perform env m) := by
  have hsettle : Locates env origin (settle : Assembling σ Slot Unit) :=
    locates_modify fun b => .refl b.cursor
  rw [perform]
  split
  · exact locates_directive h _
  · exact hsettle.bind fun _ => locates_directive h _
  · exact hsettle.bind fun _ => locates_instruction h _ _
  · exact hsettle.bind fun _ => locates_instruction h _ _

theorem locates_statement (h : env.Locates) : Locates env origin (statement env) := by
  intro b hb
  have hlookup : b.cursor.ComesFrom (Mnemonic.lookup b.cursor).2 :=
    hb.refl_right.trans_onward (Mnemonic.onward_lookup b.cursor)
  have hmissing (fault : Fault) :
      Locates env b.cursor (failAt b.cursor.pos fault : Assembling σ Slot Unit) :=
    locates_failAt b.cursor fault
  rw [Leads, statement_eq]
  cases (Mnemonic.lookup b.cursor).1 with
  | none => exact (hmissing _).leads hb hlookup
  | some m => exact (locates_perform h m).leads hb hlookup

theorem locates_closeStatement (stop : Nat) : Locates env origin (closeStatement env stop) := by
  have hstate (f : σ → σ) : Locates env origin (modifyState f : Assembling σ Slot Unit) :=
    locates_modify fun b => .refl b.cursor
  have hemitted : Locates env origin
      (modify fun b => { b with emitted := [] } : Assembling σ Slot Unit) :=
    locates_modify fun b => .refl b.cursor
  -- to list and to flush is no matter of the text
  refine .get_bind fun b _ => .ite (Maintains.bind (hstate _) fun _ => ?_) ?_
  · exact .ite ((hstate _).bind fun _ => hemitted) hemitted
  · exact .ite ((hstate _).bind fun _ => hemitted) hemitted

theorem locates_finish (stop : Nat) : Locates env origin (finish env stop) := by
  have hoptions : Locates env origin
      (modifyPlacement (·.withOptions .standard) : Assembling σ Slot Unit) :=
    locates_modify fun b => .refl b.cursor
  exact .get_bind fun b _ => .ite ((locates_closeStatement stop).bind fun _ => hoptions) hoptions

variable [DecidableEq Slot]

theorem locates_bindSlot (h : env.Locates) (s : Cursor) (named : Slot × VariableKind) :
    Locates env s (bindSlot env s.pos named) := by
  -- a label of the wrong kind is noted at its dot, and so is one that is bound already
  refine .get_bind fun b _ => .ite (locates_failAt s _) (.ite (locates_failAt s _) ?_)
  refine Maintains.bind (fun c hc => ?_) fun _ => locates_modify fun b => .refl b.cursor
  obtain ⟨state, hstore⟩ := h.store named.1 b.placement.logical c.state
  exact .of_ok (request_eq_ok.mpr ⟨state, hstore, rfl⟩) hc

theorem locates_label (h : env.Locates) : Locates env origin (label env) := by
  intro b hb
  have hdot : b.cursor.ComesFrom b.atLabel.cursor := by
    rw [atLabel_cursor]
    exact hb.refl_right.trans_onward (b.cursor.onward_advance 1)
  refine .of_eq (label_eq env b) ?_
  exact Locates.leads ((locates_consult h.slot).bind fun named => locates_bindSlot h b.cursor named)
    hb hdot

theorem locates_item (h : env.Locates) : Locates env origin (item env) := by
  intro b hb
  have hitem : origin.ComesFrom b.atItem.cursor := hb.trans_onward b.cursor.onward_skipBlanks
  -- the closing bracket, a separator, a comment, a label and a statement
  refine leads_item (fun f hf _ => ?_) (fun _ _ => ?_) (fun _ _ _ => ?_) (fun _ _ => ?_)
    fun _ _ => ?_
  · have hend : Locates env origin (do
        modifyCursor f
        finish env b.atItem.cursor.pos
        return Next.stop) :=
      (locates_modify fun c => hf c.cursor).bind fun _ => (locates_finish _).bind fun _ => .pure _
    exact hend b.atItem hitem
  · have hseparator : Locates env origin (do
        modifyCursor takeSeparator
        closeStatement env b.atItem.cursor.pos
        openStatement
        return Next.more) :=
      (locates_modify fun c => onward_takeSeparator c.cursor).bind fun _ =>
        (locates_closeStatement _).bind fun _ =>
          (locates_modify fun c => c.cursor.onward_skipBlanks).bind fun _ => .pure _
    exact hseparator b.atItem hitem
  · exact hitem.trans_onward (b.atItem.cursor.onward_skipWhile _)
  · exact locates_label h b.atItem hitem
  · exact locates_statement h b.atItem hitem

/-- A step that fails points at something that it has read, unless a write is refused. -/
theorem locates_step (h : env.Locates) : Locates env origin (step env) :=
  Locates.get_bind_here fun b => .ite (locates_failAt b.cursor _) (locates_item h)

end Block

/-! ## Blocks -/

/-- A machine points at what it has read of an expression or a name. -/
theorem Machine.environment_locates : environment.Locates where
  evaluate context origin := by
    rintro ⟨s, w⟩ hs
    exact leads_evaluate (Expression.locates_read ⟨context, w.vars⟩ s hs)
  slot origin := by
    rintro ⟨s, w⟩ hs
    exact leads_slot (Expression.locates_name s hs) (.of_offset hs hs.pos_le (Nat.le_refl _) _)
  store slot address w := ⟨_, rfl⟩

namespace Block

variable {placement : Placement} {w : Machine} {cursor : Cursor} {failure : Failure}

/-- A block that fails does so in the last of its items that are looked at, and the failure points
into that item, unless a write is refused: it is at an offset of the text from where the item starts
up to where the cursor is left. -/
theorem failure_located (hcursor : cursor.pos ≤ cursor.text.size)
    (h : (assemble environment placement w cursor).failure = some failure)
    (hwrite : ¬RefusesToWrite failure) :
    ∃ (b b' : Block Machine Name) (offset : Nat),
      Proceeds environment (opened placement w cursor) b ∧
      step environment b = .error failure b' ∧
      assemble environment placement w cursor =
        ⟨some failure, b'.placement, b'.state, b'.cursor⟩ ∧
      b.cursor.pos ≤ offset ∧ offset ≤ b'.cursor.pos ∧ offset ≤ cursor.text.size ∧
      failure.span = Span.ofOffset cursor.text offset := by
  obtain ⟨b, b', hb, hstep, hassemble⟩ := exists_failing h
  -- the item that fails starts inside of the text
  have honward : cursor.Onward b.cursor := cursor.onward_skipBlanks.trans (onward_of_proceeds hb)
  have hinside : cursor.ComesFrom b.cursor := ⟨honward, hcursor⟩
  have hlocated : failure.Located b.cursor b'.cursor :=
    ((locates_step Machine.environment_locates b hinside.refl_right).of_eq_error hstep).resolve_left
      hwrite
  obtain ⟨offset, hle, hge, hspan⟩ := hlocated.points
  have hend : b'.cursor.pos ≤ cursor.text.size :=
    (hinside.trans_onward hlocated.comesFrom.onward).onward.inside hcursor
  refine ⟨b, b', offset, hb, hstep, hassemble, hle, hge, Nat.le_trans hge hend, ?_⟩
  rw [hspan, hinside.spanOf]
  rfl

/-- A quotient by zero, which is at fault where its sign was looked for. -/
theorem failure_located_quotient :
    ∃ (b b' : Block Machine Name) (offset : Nat),
      Proceeds environment
        (opened (.ofOrigin 0x8000) (.ofBase 0x8000) (.ofString "NOP:EQUD 12 /0+1")) b ∧
      step environment b = .error ⟨.divisionByZero, ⟨1, 12, 11, 1⟩⟩ b' ∧
      assemble environment (.ofOrigin 0x8000) (.ofBase 0x8000) (.ofString "NOP:EQUD 12 /0+1") =
        ⟨some ⟨.divisionByZero, ⟨1, 12, 11, 1⟩⟩, b'.placement, b'.state, b'.cursor⟩ ∧
      b.cursor.pos ≤ offset ∧ offset ≤ b'.cursor.pos ∧ offset ≤ 16 ∧
      ⟨1, 12, 11, 1⟩ = Span.ofOffset (Cursor.ofString "NOP:EQUD 12 /0+1").text offset := by
  have hfailure : (assemble environment (.ofOrigin 0x8000) (.ofBase 0x8000)
      (.ofString "NOP:EQUD 12 /0+1")).failure =
        some ⟨.divisionByZero, ⟨1, 12, 11, 1⟩⟩ := by decide +kernel
  exact failure_located (by decide) hfailure fun hwrite => absurd hwrite.span (by decide)

end Block

end InlineA64
