import InlineA64.Proofs.Block.Item
import InlineA64.Proofs.Reader.Onward

/-!
# What all actions on a block do

A relation between two states of a block that holds of the actions that all others are made of holds
of what these make up: `Block.Closed` lists what there is to show, and its lemmas follow directives,
instructions, labels and the ends of statements. All but the options: `OPT` and the end of a block
set them, and few relations are kept by that.
-/

namespace InlineA64

variable {σ Slot α : Type}

/-- All that an environment does but for writing moves its state along `ρ`, whether it succeeds or
fails. -/
structure Environment.Moves (env : Environment σ Slot) (ρ : σ → σ → Prop) : Prop where
  evaluate (context : Context) : Reaches (fun p q => ρ p.2 q.2) (env.evaluate context)
  slot : Reaches (fun p q => ρ p.2 q.2) env.slot
  store (slot : Slot) (address : UInt64) : Reaches ρ (env.store slot address)
  flush (start stop : UInt64) (state : σ) : ρ state (env.flush start stop state)
  listing (line : String) (state : σ) : ρ state (env.listing line state)

instance Environment.isPreorder_true : IsPreorder σ fun _ _ => True where
  refl _ := trivial
  trans _ _ _ _ _ := trivial

/-- Of what an environment does, nothing is known. -/
theorem Environment.moves_trivially (env : Environment σ Slot) : env.Moves fun _ _ => True where
  evaluate _ _ := .of_forall (fun _ _ => trivial) fun _ _ => trivial
  slot _ := .of_forall (fun _ _ => trivial) fun _ _ => trivial
  store _ _ _ := .of_forall (fun _ _ => trivial) fun _ _ => trivial
  flush _ _ _ := trivial
  listing _ _ := trivial

theorem Mnemonic.onward_lookup (s : Cursor) : s.Onward (lookup s).2 := by
  rw [lookup]
  split
  · exact s.onward_skipBlanks.trans (Cursor.onward_advance _ _)
  · split
    · exact s.onward_skipBlanks.trans (Cursor.onward_advance _ _)
    · exact s.onward_skipBlanks

namespace Block

theorem onward_takeSeparator (s : Cursor) : s.Onward (takeSeparator s) := by
  rw [takeSeparator]
  split
  · exact (s.onward_advance 1).trans (Cursor.onward_advance _ 1)
  · exact s.onward_advance 1

/-- The block when it has been aligned to a word, and the statement starts there. -/
def realigned (b : Block σ Slot) : Block σ Slot :=
  { b with placement := b.placement.align, address := b.placement.align.logical, emitted := [] }

/-- A relation that what the environment does along `ρ` is part of, and all else that happens to a
block but for a change of the options. -/
structure Closed (env : Environment σ Slot) (ρ : σ → σ → Prop)
    (R : Block σ Slot → Block σ Slot → Prop) : Prop where
  moves : env.Moves ρ
  /-- The cursor moves onward, and the environment does something. -/
  consult (b : Block σ Slot) {s : Cursor} {w : σ} : b.cursor.Onward s → ρ b.state w →
    R b { b with cursor := s, state := w }
  /-- Something is noted about the statement or the block. If a statement starts it does so at the
  cursor. -/
  note (b : Block σ Slot) {start : Nat} (address : UInt64) (emitted : List Byte) (fresh : Bool)
    (labels : List Slot) : start = b.start ∨ start = b.cursor.pos →
      R b { b with start, address, emitted, fresh, labels }
  align (b : Block σ Slot) : R b b.realigned
  emit (bytes : List Byte) : Reaches R (emit env bytes)

namespace Closed

variable {env : Environment σ Slot} {ρ : σ → σ → Prop} {R : Block σ Slot → Block σ Slot → Prop}

/-! ## Consulting the environment -/

theorem reaches_request (h : Closed env ρ R) {f : EStateM Failure σ α} (hf : Reaches ρ f) :
    Reaches R (request f : Assembling σ Slot α) := by
  rw [request_eq_within]
  exact hf.within fun b _ hw => h.consult b (.refl b.cursor) hw

theorem reaches_consult (h : Closed env ρ R) {f : EStateM Failure (Cursor × σ) α}
    (hf : Reaches (fun p q => ρ p.2 q.2) f) : Reaches R (Block.consult f) := by
  rw [consult_eq_within]
  exact hf.within fun b p hp => h.consult b (b.cursor.onward_advanceTo p.1.pos) hp

theorem reaches_evaluateAs (h : Closed env ρ R) (view : Value → Option α) (context : Context) :
    Reaches R (Block.consult (env.evaluateAs view context)) :=
  h.reaches_consult (Environment.reaches_evaluateAs (h.moves.evaluate context) view)

theorem reaches_evaluateInt (h : Closed env ρ R) : Reaches R (Block.evaluateInt env) :=
  .get_bind fun _ => h.reaches_evaluateAs Value.toInt? _

theorem reaches_evaluate (h : Closed env ρ R) : Reaches R (Block.evaluate env) :=
  .get_bind fun _ => h.reaches_consult (h.moves.evaluate _)

theorem reaches_alignStart (h : Closed env ρ R) :
    Reaches R (alignStart : Assembling σ Slot Unit) :=
  h.align

section State

variable [IsPreorder σ ρ]

theorem reaches_operands (h : Closed env ρ R) (mnemonic : String) (reader : Reader α) :
    Reaches R (operands env mnemonic reader) := by
  rw [operands_eq_within]
  refine .get_bind fun b => Reaches.within (R := Reading.Onward ρ) ?_ fun b _ hr =>
    h.consult b hr.1 hr.2
  exact reader.reaches_run (h.moves.evaluate _) mnemonic

theorem reaches_modifyCursor (h : Closed env ρ R) {f : Cursor → Cursor}
    (hf : ∀ s : Cursor, s.Onward (f s)) :
    Reaches R (modifyCursor f : Assembling σ Slot Unit) :=
  fun b => h.consult b (hf b.cursor) (Std.Refl.refl b.state)

theorem reaches_list (h : Closed env ρ R) (rows : List String) : Reaches R (list env rows) := by
  intro b
  refine h.consult b (.refl b.cursor) ?_
  generalize b.state = w
  induction rows generalizing w with
  | nil => exact Std.Refl.refl w
  | cons row rows ih => exact IsTrans.trans _ _ _ (h.moves.listing row w) (ih _)

end State

variable [IsPreorder (Block σ Slot) R]

theorem reaches_failAt (offset : Nat) (fault : Fault) :
    Reaches R (failAt offset fault : Assembling σ Slot α) :=
  fun b => (Std.Refl.refl b : R b b)

theorem reaches_evaluateAddress (h : Closed env ρ R) : Reaches R (evaluateAddress env) := by
  refine .get_bind fun _ => h.reaches_evaluate.bind fun value => ?_
  split
  · refine .get_bind fun b => ?_
    split
    · exact .pure _
    · exact reaches_failAt _ _
  · exact .pure _

theorem reaches_emitNoOperations (h : Closed env ρ R) (count : Nat) :
    Reaches R (emitNoOperations env count) := by
  induction count with
  | zero => exact .pure _
  | succ count ih => exact (h.emit _).bind fun _ => ih

theorem reaches_emitString (h : Closed env ρ R) (start : Nat) (bytes : List Byte) :
    Reaches R (emitString env start bytes) :=
  .ite (reaches_failAt _ _) (h.emit _)

/-! ## Labels -/

/-- The block behind the dot of a label, aligned if that is due. -/
theorem of_atLabel (h : Closed env ρ R) (b : Block σ Slot) :
    R { b with cursor := b.cursor.advance 1 } b.atLabel := by
  rw [atLabel]
  split
  · exact h.align { b with cursor := b.cursor.advance 1 }
  · exact Std.Refl.refl (r := R) _

theorem reaches_bindSlot [DecidableEq Slot] (h : Closed env ρ R) (start : Nat)
    (named : Slot × VariableKind) : Reaches R (bindSlot env start named) := by
  refine .get_bind fun b => .ite (reaches_failAt _ _) (.ite (reaches_failAt _ _) ?_)
  exact (h.reaches_request (h.moves.store _ _)).bind fun _ b =>
    h.note b b.address b.emitted b.fresh (named.1 :: b.labels) (.inl rfl)

/-- All that a label does from behind its dot on. -/
theorem leads_label [DecidableEq Slot] (h : Closed env ρ R) (b : Block σ Slot) :
    Leads (label env) b (fun _ => R { b with cursor := b.cursor.advance 1 })
      (fun _ => R { b with cursor := b.cursor.advance 1 }) := by
  have hrest : Reaches R (Block.consult env.slot >>= bindSlot env b.cursor.pos) :=
    (h.reaches_consult h.moves.slot).bind (h.reaches_bindSlot b.cursor.pos)
  rw [Leads, label_eq]
  exact hrest.leads (h.of_atLabel b)

variable [IsPreorder σ ρ]

/-! ## Statements -/

theorem reaches_align (h : Closed env ρ R) : Reaches R (Block.align env) := by
  refine h.reaches_alignStart.bind fun _ => ?_
  refine (h.reaches_modifyCursor Cursor.onward_skipBlanks).bind fun _ => .get_bind fun b => ?_
  refine .ite (h.reaches_evaluateInt.bind fun n => ?_) (.pure _)
  exact .ite (h.reaches_emitNoOperations _) (reaches_failAt _ _)

/-- A directive, if it is none that sets the options or these may change. -/
theorem reaches_directive (h : Closed env ρ R) (d : Directive)
    (hoptions : d = .options → ∀ (b : Block σ Slot) (o : Options),
      R b { b with placement := b.placement.withOptions o }) :
    Reaches R (directive env d) := by
  cases d with
  | align => exact h.reaches_align
  | data =>
    refine .get_bind fun _ => h.reaches_evaluate.bind fun value => ?_
    split
    · exact h.reaches_emitString _ _
    · exact h.emit _
  | byte | half => exact h.reaches_evaluateInt.bind fun _ => h.emit _
  | word =>
    exact h.reaches_evaluateAddress.bind fun _ => h.reaches_alignStart.bind fun _ => h.emit _
  | quad => exact h.reaches_evaluateAddress.bind fun _ => h.emit _
  | string =>
    exact .get_bind fun _ =>
      (h.reaches_evaluateAs Value.toBytes? _).bind fun _ => h.reaches_emitString _ _
  | options => exact h.reaches_evaluateInt.bind fun n b => hoptions rfl b (.ofInt n.toInt)

theorem reaches_instruction (h : Closed env ρ R) (mnemonic : String) (reader : Reader Encoding) :
    Reaches R (instruction env mnemonic reader) :=
  h.reaches_alignStart.bind fun _ => (h.reaches_operands _ _).bind fun _ => h.emit _

/-- What a mnemonic stands for, if it is not that the options are set or these may change. -/
theorem reaches_perform (h : Closed env ρ R) (m : Mnemonic)
    (hoptions : m.meaning = .directive .options → ∀ (b : Block σ Slot) (o : Options),
      R b { b with placement := b.placement.withOptions o }) :
    Reaches R (perform env m) := by
  have hsettle : Reaches R (settle : Assembling σ Slot Unit) :=
    fun b => h.note b b.address b.emitted false b.labels (.inl rfl)
  rw [perform]
  split
  · next hm => exact h.reaches_directive _ fun _ => hoptions hm
  · next d hd hm => exact hsettle.bind fun _ => h.reaches_directive d fun heq => absurd heq hd
  · exact hsettle.bind fun _ => h.reaches_instruction _ _
  · exact hsettle.bind fun _ => h.reaches_instruction _ _

theorem leads_statement (h : Closed env ρ R) (b : Block σ Slot)
    (hoptions : (Mnemonic.lookup b.cursor).1.map Mnemonic.meaning = some (.directive .options) →
      ∀ (b : Block σ Slot) (o : Options), R b { b with placement := b.placement.withOptions o }) :
    Leads (statement env) b (fun _ => R b) (fun _ => R b) := by
  have hlookup : R b { b with cursor := (Mnemonic.lookup b.cursor).2 } :=
    h.consult b (Mnemonic.onward_lookup b.cursor) (Std.Refl.refl b.state)
  rw [Leads, statement_eq]
  rcases hm : (Mnemonic.lookup b.cursor).1 with _ | m
  · exact hlookup
  · rw [hm] at hoptions
    exact (h.reaches_perform m fun heq => hoptions (congrArg some heq)).leads hlookup

/-! ## The ends of statements -/

theorem reaches_closeStatement (h : Closed env ρ R) (stop : Nat) :
    Reaches R (closeStatement env stop) := by
  have hmodify (f : σ → σ) (hf : ∀ w, ρ w (f w)) :
      Reaches R (modifyState f : Assembling σ Slot Unit) :=
    fun b => h.consult b (.refl b.cursor) (hf b.state)
  have hemitted : Reaches R (modify fun b => { b with emitted := [] } : Assembling σ Slot Unit) :=
    fun b => h.note b b.address [] b.fresh b.labels (.inl rfl)
  refine .get_bind fun b => .ite ((h.reaches_list _).bind fun _ => ?_) ?_
  · exact .ite ((hmodify _ (h.moves.flush _ _)).bind fun _ => hemitted) hemitted
  · exact .ite ((hmodify _ (h.moves.flush _ _)).bind fun _ => hemitted) hemitted

/-- The end of a block leaves the standard options. -/
theorem leads_finish (h : Closed env ρ R) (stop : Nat) (b : Block σ Slot)
    {E : Failure → Block σ Slot → Prop} (hE : ∀ failure b', R b b' → E failure b') :
    Leads (finish env stop) b
      (fun _ b' => ∃ c, R b c ∧ b' = { c with placement := c.placement.withOptions .standard })
      E :=
  .get_bind (.ite
    (fun _ => ((h.reaches_closeStatement stop b).mono (fun _ _ hc => hc) hE).bind
      fun _ c hc => .modify ⟨c, hc, rfl⟩)
    fun _ => .modify ⟨b, Std.Refl.refl b, rfl⟩)

theorem reaches_openStatement (h : Closed env ρ R) :
    Reaches R (openStatement : Assembling σ Slot Unit) := fun b =>
  IsTrans.trans b { b with cursor := b.cursor.skipBlanks } _
    (h.consult b b.cursor.onward_skipBlanks (Std.Refl.refl b.state))
    (h.note _ b.placement.logical [] b.fresh b.labels (.inr rfl))

/-! ## Items -/

/-- All that an item does that sets no options, or may do so. At the end of a block the standard
options are set. -/
theorem leads_item [DecidableEq Slot] (h : Closed env ρ R) (b : Block σ Slot)
    (hoptions : b.upcoming = .statement (some (.directive .options)) →
      ∀ (b : Block σ Slot) (o : Options), R b { b with placement := b.placement.withOptions o }) :
    Leads (item env) b
      (fun next b' => (next = .more ∧ R b b') ∨
        next = .stop ∧ ∃ c, R b c ∧ b' = { c with placement := c.placement.withOptions .standard })
      (fun _ => R b) := by
  have hcursor {c : Block σ Slot} (hc : R b c) {s : Cursor} (hs : c.cursor.Onward s) :
      R b { c with cursor := s } :=
    IsTrans.trans _ _ _ hc (h.consult c hs (Std.Refl.refl c.state))
  have hblanks : R b b.atItem := h.consult b b.cursor.onward_skipBlanks (Std.Refl.refl b.state)
  -- the closing bracket, a separator, a comment, a label and a statement
  refine Block.leads_item (fun f hf _ => ?_) (fun _ _ => ?_) (fun _ _ _ => ?_) (fun _ _ => ?_)
    fun _ hitem => ?_
  · have hf := hcursor hblanks (hf b.atItem.cursor)
    refine .modify_bind ((h.leads_finish _ _ fun _ _ hb' => IsTrans.trans _ _ _ hf hb').bind
      fun _ b' hb' => .pure (.inr ⟨rfl, ?_⟩))
    obtain ⟨c, hc, rfl⟩ := hb'
    exact ⟨c, IsTrans.trans _ _ _ hf hc, rfl⟩
  · have hend := hcursor hblanks (onward_takeSeparator b.atItem.cursor)
    exact .modify_bind (((h.reaches_closeStatement _).leads hend).bind fun _ c hc =>
      (h.reaches_openStatement.leads hc).bind fun _ _ hb' => .pure (.inl ⟨rfl, hb'⟩))
  · exact .inl ⟨rfl, hcursor hblanks (b.atItem.cursor.onward_skipWhile _)⟩
  · have hdot := hcursor hblanks (b.atItem.cursor.onward_advance 1)
    exact (h.leads_label b.atItem).mono
      (fun _ _ hb' => .inl ⟨rfl, IsTrans.trans _ _ _ hdot hb'⟩)
      fun _ _ hb' => IsTrans.trans _ _ _ hdot hb'
  · exact (h.leads_statement b.atItem fun heq => hoptions (hitem.trans (congrArg _ heq))).mono
      (fun _ _ hb' => .inl ⟨rfl, IsTrans.trans _ _ _ hblanks hb'⟩)
      fun _ _ hb' => IsTrans.trans _ _ _ hblanks hb'

/-- A step that sets no options, or may do so. -/
theorem leads_step [DecidableEq Slot] (h : Closed env ρ R) (b : Block σ Slot)
    (hoptions : b.upcoming = .statement (some (.directive .options)) →
      ∀ (b : Block σ Slot) (o : Options), R b { b with placement := b.placement.withOptions o }) :
    Leads (step env) b
      (fun next b' => (next = .more ∧ R b b') ∨
        next = .stop ∧ ∃ c, R b c ∧ b' = { c with placement := c.placement.withOptions .standard })
      (fun _ => R b) :=
  .get_bind (.ite (fun _ => (Std.Refl.refl b : R b b)) fun _ => h.leads_item b hoptions)

/-- A step, if the options may change. -/
theorem reaches_step [DecidableEq Slot] (h : Closed env ρ R)
    (hoptions : ∀ (b : Block σ Slot) (o : Options),
      R b { b with placement := b.placement.withOptions o }) : Reaches R (step env) := by
  intro b
  refine (h.leads_step b fun _ => hoptions).mono (fun next b' hb' => ?_) fun _ _ hb' => hb'
  rcases hb' with ⟨-, hb'⟩ | ⟨-, c, hc, rfl⟩
  · exact hb'
  · exact IsTrans.trans _ _ _ hc (hoptions c .standard)

/-- A run, if the options may change. -/
theorem reaches_steps [DecidableEq Slot] (h : Closed env ρ R)
    (hoptions : ∀ (b : Block σ Slot) (o : Options),
      R b { b with placement := b.placement.withOptions o }) (n : Nat) :
    Reaches R (steps env n) := by
  induction n with
  | zero => exact .pure _
  | succ n ih =>
    refine (h.reaches_step hoptions).bind fun next => ?_
    cases next with
    | more => exact ih
    | stop => exact .pure _

end Closed

end Block

end InlineA64
