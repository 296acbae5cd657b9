import InlineA64.Proofs.Block.Frame
import InlineA64.Proofs.Reader.Alike

/-!
# Blocks in environments that do the same

Two blocks match if their states are related as the services of their environments want, and they
are the same otherwise, but for options that may be related in some other way. An outcome of one is
then an outcome of the other (`Block.alike_run`). It follows that listing decides nothing
(`Block.assemble_matches`).
-/

namespace InlineA64

open Environment (Corresponds)

variable {σ σ' Slot α : Type} {κ : Options → Options → Prop}

/-- A placement that lists nothing and is the same otherwise. -/
def Placement.unlisted (p : Placement) : Placement :=
  { p with options := p.options.unlisted }

/-- Two placements are the same, with options related by `κ`. -/
structure Placement.Similar (κ : Options → Options → Prop) (p p' : Placement) : Prop where
  logical : p.logical = p'.logical
  physical : p.physical = p'.physical
  limit : p.limit = p'.limit
  options : κ p.options p'.options

namespace Placement.Similar

variable {p p' : Placement} (h : p.Similar κ p')
include h

theorem context : p.context.Similar κ p'.context :=
  ⟨h.logical, h.physical, h.options⟩

theorem advance (count : UInt64) : (p.advance count).Similar κ (p'.advance count) where
  logical := congrArg (· + count) h.logical
  physical := congrArg (· + count) h.physical
  limit := h.limit
  options := h.options

theorem align : p.align.Similar κ p'.align := by
  rw [Placement.align, Placement.align, h.logical]
  exact h.advance _

theorem withOptions (hκ : ∀ o, κ o o) (options : Options) :
    (p.withOptions options).Similar κ (p'.withOptions options) :=
  { h with options := hκ options }

end Placement.Similar

namespace Block

/-- Two blocks are the same, with options related by `κ` and states related by `ρ`. -/
structure Matches (κ : Options → Options → Prop) (ρ : σ → σ' → Prop) (b : Block σ Slot)
    (b' : Block σ' Slot) : Prop where
  placement : b.placement.Similar κ b'.placement
  state : ρ b.state b'.state
  cursor : b.cursor = b'.cursor
  start : b.start = b'.start
  address : b.address = b'.address
  emitted : b.emitted = b'.emitted
  fresh : b.fresh = b'.fresh
  labels : b.labels = b'.labels

variable {env : Environment σ Slot} {env' : Environment σ' Slot} {ρ : σ → σ' → Prop}
  {b : Block σ Slot} {b' : Block σ' Slot}

namespace Matches

variable (h : Corresponds κ ρ env env') (hb : Matches κ ρ b b')
include h hb

theorem writeAddress : b.placement.writeAddress = b'.placement.writeAddress := by
  obtain ⟨-, hoffset, -⟩ := Options.unlisted_eq_unlisted.mp (h.unlisted hb.placement.options)
  rw [Placement.writeAddress, Placement.writeAddress, hoffset, hb.placement.logical,
    hb.placement.physical]

theorem atLimit : b.placement.atLimit = b'.placement.atLimit := by
  obtain ⟨-, -, hlimit⟩ := Options.unlisted_eq_unlisted.mp (h.unlisted hb.placement.options)
  rw [Placement.atLimit, Placement.atLimit, hlimit, hb.placement.limit, hb.writeAddress h]

end Matches

/-! ## Consulting the environment -/

theorem alike_failAt (offset : Nat) (fault : Fault) :
    Alike (Matches κ ρ) (failAt offset fault : Assembling σ Slot α) (failAt offset fault) := by
  intro b b' h
  exact ⟨by rw [h.cursor], h⟩

theorem alike_request {f : EStateM Failure σ α} {g : EStateM Failure σ' α}
    (h : Alike ρ f g) :
    Alike (Matches κ ρ) (request f : Assembling σ Slot α) (request g) := by
  rw [request_eq_within, request_eq_within]
  exact h.within (fun _ _ hb => hb.state) fun _ _ _ _ hb hstate => { hb with state := hstate }

theorem alike_consult {f : EStateM Failure (Cursor × σ) α}
    {g : EStateM Failure (Cursor × σ') α} (h : Alike (SameText ρ) f g) :
    Alike (Matches κ ρ) (consult f : Assembling σ Slot α) (consult g) := by
  rw [consult_eq_within, consult_eq_within]
  refine h.within (fun _ _ hb => ⟨hb.cursor, hb.state⟩) fun b b' p p' hb hp => ?_
  exact { hb with cursor := by simp only [hb.cursor, hp.1], state := hp.2 }

theorem alike_operands (h : Corresponds κ ρ env env') (mnemonic : String) (reader : Reader α) :
    Alike (Matches κ ρ) (operands env mnemonic reader) (operands env' mnemonic reader) := by
  rw [operands_eq_within, operands_eq_within]
  refine .get_bind fun b b' hb => ?_
  exact (reader.alike_run h hb.placement.context mnemonic).within
    (fun _ _ hc => ⟨hc.cursor, rfl, hc.state⟩) fun _ _ _ _ hc hr =>
      { hc with cursor := hr.cursor, state := hr.state }

theorem alike_evaluate (h : Corresponds κ ρ env env') :
    Alike (Matches κ ρ) (evaluate env) (evaluate env') :=
  .get_bind fun _ _ hb => alike_consult (h.evaluate hb.placement.context)

theorem alike_evaluateInt (h : Corresponds κ ρ env env') :
    Alike (Matches κ ρ) (evaluateInt env) (evaluateInt env') :=
  .get_bind fun _ _ hb => alike_consult (h.evaluateAs _ hb.placement.context)

/-! ## Statements -/

theorem alike_modifyCursor (f : Cursor → Cursor) :
    Alike (Matches κ ρ) (modifyCursor f : Assembling σ Slot Unit) (modifyCursor f) :=
  .modify fun _ _ h => { h with cursor := congrArg f h.cursor }

theorem alike_alignStart :
    Alike (Matches κ ρ) (alignStart : Assembling σ Slot Unit) alignStart :=
  .modify fun _ _ h => { h with
    placement := h.placement.align
    address := h.placement.align.logical
    emitted := rfl }

theorem alike_settle : Alike (Matches κ ρ) (settle : Assembling σ Slot Unit) settle :=
  .modify fun _ _ h => { h with fresh := rfl }

theorem alike_withOptions (h : Corresponds κ ρ env env') (options : Options) :
    Alike (Matches κ ρ) (modifyPlacement (·.withOptions options) : Assembling σ Slot Unit)
      (modifyPlacement (·.withOptions options)) :=
  .modify fun _ _ hb => { hb with placement := hb.placement.withOptions h.refl options }

theorem alike_emit (h : Corresponds κ ρ env env') (bytes : List Byte) :
    Alike (Matches κ ρ) (emit env bytes) (emit env' bytes) := by
  refine .get_bind fun b b' hb => ?_
  rw [hb.writeAddress h]
  refine (alike_request (h.write _ _)).bind fun _ => ?_
  exact .modify fun _ _ hc => { hc with
    placement := hc.placement.advance _
    emitted := congrArg (· ++ bytes) hc.emitted }

theorem alike_emitNoOperations (h : Corresponds κ ρ env env') (count : Nat) :
    Alike (Matches κ ρ) (emitNoOperations env count) (emitNoOperations env' count) := by
  induction count with
  | zero => exact .pure _
  | succ count ih => exact (alike_emit h _).bind fun _ => ih

theorem alike_emitString (h : Corresponds κ ρ env env') (start : Nat) (bytes : List Byte) :
    Alike (Matches κ ρ) (emitString env start bytes) (emitString env' start bytes) :=
  .ite (fun _ => alike_failAt _ _) fun _ => alike_emit h _

theorem addressOf?_eq (h : Corresponds κ ρ env env') {w : σ} {w' : σ'} (hw : ρ w w')
    (name : List Byte) : addressOf? env w name = addressOf? env' w' name := by
  simp only [addressOf?, h.symbol hw, h.systemCall hw]

theorem alike_evaluateAddress (h : Corresponds κ ρ env env') :
    Alike (Matches κ ρ) (evaluateAddress env) (evaluateAddress env') := by
  refine .get_bind fun b b' hb => (alike_evaluate h).bind fun value => ?_
  rw [hb.cursor]
  split
  · refine .get_bind fun c c' hc => ?_
    -- a string names an address, which is the same on both sides
    rw [addressOf?_eq h hc.state]
    split
    · exact .pure _
    · exact alike_failAt _ _
  · exact .pure _

theorem alike_align (h : Corresponds κ ρ env env') :
    Alike (Matches κ ρ) (align env) (align env') := by
  refine alike_alignStart.bind fun _ => (alike_modifyCursor _).bind fun _ => ?_
  refine .get_bind fun b b' hb => ?_
  rw [hb.cursor, hb.placement.logical]
  refine .ite (fun _ => (alike_evaluateInt h).bind fun n => ?_) fun _ => .pure _
  exact .ite (fun _ => alike_emitNoOperations h _) fun _ => alike_failAt _ _

theorem alike_directive (h : Corresponds κ ρ env env') (d : Directive) :
    Alike (Matches κ ρ) (directive env d) (directive env' d) := by
  cases d with
  | align => exact alike_align h
  | data =>
    refine .get_bind fun b b' hb => (alike_evaluate h).bind fun value => ?_
    rw [hb.cursor]
    split
    · exact alike_emitString h _ _
    · exact alike_emit h _
  | byte | half => exact (alike_evaluateInt h).bind fun _ => alike_emit h _
  | word =>
    refine (alike_evaluateAddress h).bind fun _ => ?_
    exact alike_alignStart.bind fun _ => alike_emit h _
  | quad => exact (alike_evaluateAddress h).bind fun _ => alike_emit h _
  | string =>
    refine .get_bind fun b b' hb => ?_
    rw [hb.cursor]
    exact (alike_consult (h.evaluateAs _ hb.placement.context)).bind fun _ => alike_emitString h _ _
  | options => exact (alike_evaluateInt h).bind fun _ => alike_withOptions h _

theorem alike_instruction (h : Corresponds κ ρ env env') (mnemonic : String)
    (reader : Reader Encoding) :
    Alike (Matches κ ρ) (instruction env mnemonic reader) (instruction env' mnemonic reader) :=
  alike_alignStart.bind fun _ => (alike_operands h _ _).bind fun _ => alike_emit h _

theorem alike_statement (h : Corresponds κ ρ env env') :
    Alike (Matches κ ρ) (statement env) (statement env') := by
  refine .get_bind fun b b' hb => .get_bind fun c c' hc => ?_
  rw [hb.cursor, hc.cursor]
  rcases Mnemonic.lookup c'.cursor with ⟨found, cursor⟩
  refine (alike_modifyCursor _).bind fun _ => ?_
  split
  · exact alike_failAt _ _
  split
  · exact alike_directive h _
  · exact alike_settle.bind fun _ => alike_directive h _
  · exact alike_settle.bind fun _ => alike_instruction h _ _
  · exact alike_settle.bind fun _ => alike_instruction h _ _

/-! ## The ends of statements -/

/-- What follows the listing, whether there is any on either side or not. -/
theorem alike_list (h : Corresponds κ ρ env env') {o o' : Options} (ho : κ o o')
    (rows : List String) {f : PUnit → Assembling σ Slot α} {f' : PUnit → Assembling σ' Slot α}
    (hf : Alike (Matches κ ρ) (f ⟨⟩) (f' ⟨⟩)) :
    Alike (Matches κ ρ) (if o.list then list env rows >>= f else f ⟨⟩)
      (if o'.list then list env' rows >>= f' else f' ⟨⟩) := by
  intro b b' hb
  -- each side lists or does not, and the states stay related in all four cases
  have hstate := h.list ho hb.state rows
  cases hlist : o.list <;> cases hlist' : o'.list <;> rw [hlist, hlist'] at hstate <;>
    exact hf { hb with state := hstate }

theorem alike_closeStatement (h : Corresponds κ ρ env env') (stop : Nat) :
    Alike (Matches κ ρ) (closeStatement env stop) (closeStatement env' stop) := by
  refine .get_bind fun b b' hb => ?_
  obtain ⟨-, hoffset, -⟩ := Options.unlisted_eq_unlisted.mp (h.unlisted hb.placement.options)
  have hemitted : Alike (Matches κ ρ)
      (modify fun b => { b with emitted := [] } : Assembling σ Slot Unit)
      (modify fun b => { b with emitted := [] }) :=
    .modify fun _ _ hc => { hc with emitted := rfl }
  rw [← hoffset, ← hb.placement.logical, ← hb.address, ← hb.emitted, ← hb.cursor, ← hb.start]
  refine alike_list h hb.placement.options _ ?_
  refine .ite (fun _ => ?_) fun _ => hemitted
  refine Alike.bind (.modify fun _ _ hc => ?_) fun _ => hemitted
  exact { hc with state := h.flush hc.state _ _ }

theorem alike_finish (h : Corresponds κ ρ env env') (stop : Nat) :
    Alike (Matches κ ρ) (finish env stop) (finish env' stop) := by
  refine .get_bind fun b b' hb => ?_
  rw [hb.placement.logical, hb.address, hb.cursor, hb.start]
  refine .ite (fun _ => ?_) fun _ => alike_withOptions h _
  exact (alike_closeStatement h _).bind fun _ => alike_withOptions h _

theorem alike_openStatement :
    Alike (Matches κ ρ) (openStatement : Assembling σ Slot Unit) openStatement :=
  .modify fun b b' hb => { hb with
    cursor := congrArg Cursor.skipBlanks hb.cursor
    start := by simp only [hb.cursor]
    address := hb.placement.logical
    emitted := rfl }

/-! ## Items -/

theorem matches_atLabel (hb : Matches κ ρ b b') : Matches κ ρ b.atLabel b'.atLabel := by
  rw [atLabel, atLabel]
  dsimp only
  rw [← hb.fresh]
  split
  · exact { hb with
      placement := hb.placement.align
      cursor := by simp only [hb.cursor]
      address := hb.placement.align.logical
      emitted := rfl
      fresh := rfl }
  · exact { hb with
      cursor := by simp only [hb.cursor]
      fresh := rfl }

variable [DecidableEq Slot]

theorem isBound_eq (h : Corresponds κ ρ env env') (hb : Matches κ ρ b b') (slot : Slot) :
    isBound env b slot = isBound env' b' slot := by
  obtain ⟨hcheck, -, -⟩ := Options.unlisted_eq_unlisted.mp (h.unlisted hb.placement.options)
  rw [isBound, isBound, hb.labels, hcheck, h.load hb.state]

theorem alike_label (h : Corresponds κ ρ env env') :
    Alike (Matches κ ρ) (label env) (label env') := by
  intro b b' hb
  rw [label_eq, label_eq, hb.cursor]
  refine ((alike_consult h.slot).bind fun named => ?_) (matches_atLabel hb)
  refine .get_bind fun c c' hc => ?_
  rw [isBound_eq h hc, hc.cursor, hc.placement.logical]
  refine .ite (fun _ => alike_failAt _ _) fun _ => .ite (fun _ => alike_failAt _ _) fun _ => ?_
  refine (alike_request (h.store _ _)).bind fun _ => .modify fun d d' hd => ?_
  exact { hd with labels := congrArg (named.1 :: ·) hd.labels }

theorem alike_item (h : Corresponds κ ρ env env') : Alike (Matches κ ρ) (item env) (item env') := by
  refine (alike_modifyCursor _).bind fun _ => .get_bind fun b b' hb => ?_
  rw [hb.cursor]
  -- the items one after the other, each told by the byte that both cursors stand at
  refine .ite (fun _ => (alike_finish h _).bind fun _ => .pure _) fun _ => ?_
  refine .ite (fun _ => ?_) fun _ => ?_
  · exact (alike_modifyCursor _).bind fun _ => (alike_finish h _).bind fun _ => .pure _
  refine .ite (fun _ => ?_) fun _ => ?_
  · refine (alike_modifyCursor _).bind fun _ => (alike_closeStatement h _).bind fun _ => ?_
    exact alike_openStatement.bind fun _ => .pure _
  refine .ite (fun _ => (alike_modifyCursor _).bind fun _ => .pure _) fun _ => ?_
  refine .ite (fun _ => (alike_label h).bind fun _ => .pure _) fun _ => ?_
  exact (alike_statement h).bind fun _ => .pure _

theorem alike_step (h : Corresponds κ ρ env env') : Alike (Matches κ ρ) (step env) (step env') := by
  refine .get_bind fun b b' hb => ?_
  rw [hb.atLimit h, hb.cursor, hb.writeAddress h, hb.placement.limit]
  exact .ite (fun _ => alike_failAt _ _) fun _ => alike_item h

/-! ## Runs -/

theorem alike_steps (h : Corresponds κ ρ env env') (fuel : Nat) :
    Alike (Matches κ ρ) (steps env fuel) (steps env' fuel) := by
  induction fuel with
  | zero => exact .pure _
  | succ fuel ih =>
    refine (alike_step h).bind fun next => ?_
    cases next with
    | more => exact ih
    | stop => exact .pure _

/-- Blocks that match end in one way, and match then. -/
theorem alike_run (h : Corresponds κ ρ env env') : Alike (Matches κ ρ) (run env) (run env') := by
  refine alike_openStatement.bind fun _ => .get_bind fun b b' hb => ?_
  rw [hb.cursor]
  exact alike_steps h _

/-- Blocks that match at their start end in one way, and match then. -/
theorem assemble_corresponds (h : Corresponds κ ρ env env') {placement placement' : Placement}
    (hplacement : placement.Similar κ placement') {w : σ} {w' : σ'} (hw : ρ w w') (s : Cursor) :
    (assemble env placement w s).failure = (assemble env' placement' w' s).failure ∧
      (assemble env placement w s).placement.Similar κ (assemble env' placement' w' s).placement ∧
      ρ (assemble env placement w s).state (assemble env' placement' w' s).state ∧
      (assemble env placement w s).cursor = (assemble env' placement' w' s).cursor := by
  have hb : Matches κ ρ (ofPlacement placement w s : Block σ Slot)
      (ofPlacement placement' w' s : Block σ' Slot) := {
    placement := hplacement
    state := hw
    cursor := rfl
    start := rfl
    address := hplacement.logical
    emitted := rfl
    fresh := rfl
    labels := rfl }
  rw [assemble, assemble]
  rcases (alike_run h).cases hb with ⟨a, c, c', hc, hc', hcc⟩ | ⟨e, c, c', hc, hc', hcc⟩
  · rw [hc, hc']
    exact ⟨rfl, hcc.placement, hcc.state, hcc.cursor⟩
  · rw [hc, hc']
    exact ⟨rfl, hcc.placement, hcc.state, hcc.cursor⟩

/-- What the assembly of a block comes to does not depend on what is listed: the failure if there is
one, the place where it ends, and whatever the environment tells of its state. -/
theorem assemble_matches {ρ : σ → σ → Prop} (h : env.Respects ρ) {placement placement' : Placement}
    (hplacement : placement.unlisted = placement'.unlisted) {w w' : σ} (hw : ρ w w') (s : Cursor) :
    (assemble env placement w s).failure = (assemble env placement' w' s).failure ∧
      (assemble env placement w s).placement.unlisted =
        (assemble env placement' w' s).placement.unlisted ∧
      ρ (assemble env placement w s).state (assemble env placement' w' s).state ∧
      (assemble env placement w s).cursor = (assemble env placement' w' s).cursor := by
  have hunlisted {p p' : Placement} :
      p.Similar (fun o o' => o.unlisted = o'.unlisted) p' ↔ p.unlisted = p'.unlisted := by
    simp only [Placement.unlisted, Placement.mk.injEq]
    exact ⟨fun h => ⟨h.logical, h.physical, h.limit, h.options⟩, fun ⟨h₁, h₂, h₃, h₄⟩ =>
      ⟨h₁, h₂, h₃, h₄⟩⟩
  -- placements that are equal unlisted are similar, up to what is listed
  rw [← hunlisted]
  exact assemble_corresponds h.corresponds (hunlisted.mpr hplacement) hw s

end Block

end InlineA64
