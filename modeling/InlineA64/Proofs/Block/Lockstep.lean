import InlineA64.Proofs.Block.Labels
import InlineA64.Proofs.Encoder.Steady

/-!
# Two runs over one text

Two blocks are `Block.Parallel` if they are at one place in one text, at one address, and have bound
the same labels. The variables can have different values, as long as they are numbers; and the
options, the memory and the listing can be anything. Every step preserves this if it succeeds in
both blocks (`Block.parallel_of_step`), with one exception: the operand of `ALIGN` decides how many
bytes are emitted, so it has to have one value in both.
-/

namespace InlineA64

theorem Lockstep.of_preserves {ε ε' σ τ α β γ δ : Type} {S : σ → τ → Prop} {x : EStateM ε σ α}
    {y : EStateM ε' τ β} {view : σ → γ} {view' : τ → δ} (hx : Preserves view x)
    (hy : Preserves view' y)
    (h : ∀ ⦃s t s' t'⦄, S s t → view s' = view s → view' t' = view' t → S s' t') :
    Lockstep S (fun _ _ => True) x y :=
  fun _ _ _ _ _ _ hS ha hb => ⟨trivial, h hS (hx ha) (hy hb)⟩

namespace Block

open Machine (environment)

/-- Two blocks are at one place, and all variables are numbers. -/
structure Parallel (b b' : Block Machine Name) : Prop where
  cursor : b.cursor = b'.cursor
  logical : b.placement.logical = b'.placement.logical
  fresh : b.fresh = b'.fresh
  labels : b.labels = b'.labels
  numeric : b.state.Numeric ∧ b'.state.Numeric

variable {α β : Type}

/-! ## Consulting the environment -/

theorem lockstep_modifyCursor (f : Cursor → Cursor) :
    Lockstep Parallel Eq (modifyCursor f) (modifyCursor f) :=
  .modify fun _ _ h => { h with cursor := congrArg f h.cursor }

theorem lockstep_consult {R : α → β → Prop} {f : EStateM Failure (Cursor × Machine) α}
    {g : EStateM Failure (Cursor × Machine) β}
    (h : Lockstep (SameText fun w w' : Machine => w.Numeric ∧ w'.Numeric) R f g) :
    Lockstep Parallel R (consult f) (consult g) := by
  rw [consult_eq_within, consult_eq_within]
  refine h.within (fun _ _ hb => ⟨hb.cursor, hb.numeric⟩) fun b b' p p' hb hp => ?_
  exact { hb with cursor := by simp only [hb.cursor, hp.1], numeric := hp.2 }

theorem lockstep_evaluate :
    Lockstep Parallel Value.SameForm (evaluate environment) (evaluate environment) :=
  Lockstep.get.bind fun _ _ _ => lockstep_consult (Machine.lockstep_evaluate _ _)

theorem lockstep_evaluateInt :
    Lockstep Parallel (fun _ _ => True) (evaluateInt environment) (evaluateInt environment) :=
  Lockstep.get.bind fun _ _ _ =>
    lockstep_consult (Environment.lockstep_evaluateInt (Machine.lockstep_evaluate _ _))

theorem lockstep_operands (mnemonic : String) {R : α → β → Prop} {x : Reader α} {y : Reader β}
    (h : x.Agree R y) :
    Lockstep Parallel R (operands environment mnemonic x) (operands environment mnemonic y) := by
  rw [operands_eq_within, operands_eq_within]
  refine Lockstep.get.bind fun b b' _ => ?_
  have hrun : Lockstep (Reading.SamePlace fun w w' : Machine => w.Numeric ∧ w'.Numeric) R
      (x.run ⟨environment, b.placement.context, mnemonic⟩)
      (y.run ⟨environment, b'.placement.context, mnemonic⟩) :=
    h.run _ _ rfl (Machine.lockstep_evaluate _ _)
  exact hrun.within (fun _ _ hc => ⟨hc.cursor, rfl, hc.numeric⟩) fun _ _ _ _ hc hr =>
    { hc with cursor := hr.cursor, numeric := hr.state }

/-! ## Output -/

theorem lockstep_write (address address' : UInt64) (bytes bytes' : List Byte) :
    Lockstep Parallel Eq (request (environment.write address bytes))
      (request (environment.write address' bytes')) := by
  intro b b' u c v c' hb hu hv
  obtain ⟨w, hw, rfl⟩ := request_eq_ok.mp hu
  obtain ⟨w', hw', rfl⟩ := request_eq_ok.mp hv
  -- memory is all that a write changes, and the variables stay numbers
  obtain ⟨image, -, rfl⟩ := Machine.write_eq_ok hw
  obtain ⟨image', -, rfl⟩ := Machine.write_eq_ok hw'
  exact ⟨rfl, { hb with numeric := hb.numeric }⟩

/-- What is emitted does not matter for the place, only how much it is. -/
theorem lockstep_emit {bytes bytes' : List Byte} (h : bytes.length = bytes'.length) :
    Lockstep Parallel Eq (emit environment bytes) (emit environment bytes') := by
  refine Lockstep.get.bind fun _ _ _ => (lockstep_write _ _ _ _).bind fun _ _ _ => ?_
  exact .modify fun b b' hb => { hb with
    logical := by simp only [Placement.advance, hb.logical, h] }

theorem lockstep_emitNumber (count : Nat) (m n : UInt64) :
    Lockstep Parallel Eq (emitNumber environment count m) (emitNumber environment count n) :=
  lockstep_emit (by rw [length_bytesOfNat, length_bytesOfNat])

theorem lockstep_emitString (start start' : Nat) (bytes : List Byte) :
    Lockstep Parallel Eq (emitString environment start bytes)
      (emitString environment start' bytes) :=
  .ite (fun _ => .of_error_left failAt_eq_error) fun _ => lockstep_emit rfl

theorem lockstep_emitNoOperations (count : Nat) :
    Lockstep Parallel Eq (emitNoOperations environment count)
      (emitNoOperations environment count) := by
  induction count with
  | zero => exact .pure rfl
  | succ count ih => exact (lockstep_emit rfl).bind fun _ _ _ => ih

theorem lockstep_alignStart : Lockstep Parallel Eq alignStart alignStart :=
  .modify fun b b' h => { h with
    logical := by simp only [Placement.align, Placement.advance, h.logical] }

/-! ## Directives -/

theorem lockstep_evaluateAddress :
    Lockstep Parallel (fun _ _ => True) (evaluateAddress environment)
      (evaluateAddress environment) := by
  refine Lockstep.get.bind fun _ _ _ => lockstep_evaluate.bind fun v w hvw => ?_
  rcases v with m | f | name <;> rcases w with n | g | name' <;> cases hvw
  case string.string =>
    refine Lockstep.get.bind fun b b' hb => ?_
    -- what is called for has to be known in both, but can be at different addresses
    rcases haddress : addressOf? environment b.state name with _ | address
    · exact .of_error_left failAt_eq_error
    · rcases haddress' : addressOf? environment b'.state name with _ | address'
      · exact .of_error_right failAt_eq_error
      · exact .pure trivial
  all_goals exact .pure trivial

theorem lockstep_data : Lockstep Parallel Eq (data environment) (data environment) := by
  refine Lockstep.get.bind fun _ _ _ => lockstep_evaluate.bind fun v w hvw => ?_
  rcases v with m | f | name <;> rcases w with n | g | name' <;> cases hvw
  case string.string => exact lockstep_emitString _ _ _
  all_goals exact lockstep_emitNumber _ _ _

theorem lockstep_string : Lockstep Parallel Eq (string environment) (string environment) := by
  refine Lockstep.get.bind fun _ _ _ => ?_
  refine (lockstep_consult (Environment.lockstep_evaluateBytes
    (Machine.lockstep_evaluate _ _))).bind fun bytes _ hbytes => ?_
  subst hbytes
  exact lockstep_emitString _ _ _

/-- A directive other than `ALIGN` takes the same text and emits as many bytes in both blocks. -/
theorem lockstep_directive {d : Directive} (h : d ≠ .align) :
    Lockstep Parallel Eq (directive environment d) (directive environment d) := by
  cases d with
  | align => exact absurd rfl h
  | data => exact lockstep_data
  | byte | half => exact lockstep_evaluateInt.bind fun _ _ _ => lockstep_emitNumber _ _ _
  | word =>
    refine lockstep_evaluateAddress.bind fun _ _ _ => ?_
    exact lockstep_alignStart.bind fun _ _ _ => lockstep_emitNumber _ _ _
  | quad => exact lockstep_evaluateAddress.bind fun _ _ _ => lockstep_emitNumber _ _ _
  | string => exact lockstep_string
  | options =>
    refine lockstep_evaluateInt.bind fun _ _ _ => ?_
    exact .modify fun _ _ hb => { hb with logical := hb.logical }

/-! ## Alignment -/

/-- The operand of `ALIGN` behind the cursor is missing, or it is a decimal and nothing else. -/
def plainOperand (s : Cursor) : Bool :=
  let s := s.skipBlanks
  !(s.peek.isDigit && s.peek != '0'.toUInt8) || Expression.plainDecimal s

variable {b b' c c' : Block Machine Name} {u u' : Unit}

/-- A plain decimal has the same value in any two blocks. -/
theorem evaluateInt_of_plain (hb : Parallel b b') (hdigit : b.cursor.peek.isDigit)
    (hplain : Expression.plainDecimal b.cursor) {m n : Int64}
    (h : evaluateInt environment b = .ok m c) (h' : evaluateInt environment b' = .ok n c') :
    m = n := by
  have hread {b c : Block Machine Name} {m : Int64} (h : evaluateInt environment b = .ok m c) :
      ∃ v s, Expression.read ⟨b.placement.context, b.state.vars⟩ b.cursor = .ok v s ∧
        v.toInt? = some m := by
    obtain ⟨s, w, hconsult, -⟩ := consult_eq_ok.mp h
    obtain ⟨v, hv, hm⟩ := Environment.evaluateAs_eq_ok.mp hconsult
    exact ⟨v, s, (Machine.evaluate_eq_ok.mp hv).1, hm⟩
  obtain ⟨v, s, hv, hm⟩ := hread h
  obtain ⟨v', s', hv', hn⟩ := hread h'
  rw [← hb.cursor, Expression.read_eq_of_plainDecimal _ _ hdigit hplain, hv] at hv'
  cases hv'
  exact Option.some.inj (hm.symm.trans hn)

/-- Two blocks stay parallel over an alignment by a plain operand. -/
theorem parallel_of_align (hb : Parallel b b') (hplain : plainOperand b.cursor)
    (h : align environment b = .ok u c) (h' : align environment b' = .ok u' c') :
    Parallel c c' := by
  rw [align] at h h'
  obtain ⟨_, b₁, h₁, h⟩ := bind_eq_ok.mp h
  obtain ⟨_, b₁', h₁', h'⟩ := bind_eq_ok.mp h'
  obtain ⟨_, b₂, h₂, h⟩ := bind_eq_ok.mp h
  obtain ⟨_, b₂', h₂', h'⟩ := bind_eq_ok.mp h'
  have hb₂ : Parallel b₂ b₂' :=
    (lockstep_modifyCursor _ (lockstep_alignStart hb h₁ h₁').2 h₂ h₂').2
  have hcursor : b₂.cursor = b.cursor.skipBlanks := by
    rw [modify_eq_ok.mp h₂, modify_eq_ok.mp h₁]
  rw [plainOperand, ← hcursor] at hplain
  rw [get_bind] at h h'
  rw [← hb₂.cursor, ← hb₂.logical] at h'
  split at h
  · next hdigit =>
    rw [if_pos hdigit] at h'
    obtain ⟨m, d, hm, h⟩ := bind_eq_ok.mp h
    obtain ⟨n, d', hn, h'⟩ := bind_eq_ok.mp h'
    have hd : Parallel d d' := (lockstep_evaluateInt hb₂ hm hn).2
    -- the operand is the same number, so as many instructions are filled in
    have hmn : m = n := by
      rw [hdigit, Bool.not_true, Bool.false_or] at hplain
      rw [Bool.and_eq_true] at hdigit
      exact evaluateInt_of_plain hb₂ hdigit.1 hplain hm hn
    subst hmn
    split at h
    · next hmem =>
      rw [if_pos hmem] at h'
      exact (lockstep_emitNoOperations _ hd h h').2
    · cases h
  · next hdigit =>
    rw [if_neg hdigit] at h'
    rw [(pure_eq_ok.mp h).2, (pure_eq_ok.mp h').2]
    exact hb₂

/-! ## Statements -/

theorem lockstep_settle : Lockstep Parallel Eq settle settle :=
  .modify fun _ _ h => { h with fresh := rfl }

/-- An instruction takes the same text in both blocks, and emits a word. -/
theorem lockstep_instruction (mnemonic : String) {reader : Reader Encoding}
    (h : reader.Steady) :
    Lockstep Parallel Eq (instruction environment mnemonic reader)
      (instruction environment mnemonic reader) := by
  refine lockstep_alignStart.bind fun _ _ _ => (lockstep_operands mnemonic h).bind fun _ _ _ => ?_
  refine lockstep_emit ?_
  rw [bytesOfWord, bytesOfWord, length_bytesOfNat, length_bytesOfNat]

/-- Two blocks stay parallel over a statement. -/
theorem parallel_of_statement (hb : Parallel b b')
    (hplain : ∀ m s, Mnemonic.lookup b.cursor = (some m, s) → m.meaning = .directive .align →
      plainOperand s)
    (h : statement environment b = .ok u c) (h' : statement environment b' = .ok u' c') :
    Parallel c c' := by
  rw [statement, get_bind, get_bind] at h h'
  rw [← hb.cursor] at h'
  rcases hlookup : Mnemonic.lookup b.cursor with ⟨found, cursor⟩
  rw [hlookup] at h h'
  obtain ⟨_, b₁, h₁, h⟩ := bind_eq_ok.mp h
  obtain ⟨_, b₁', h₁', h'⟩ := bind_eq_ok.mp h'
  have hb₁ : Parallel b₁ b₁' := (lockstep_modifyCursor _ hb h₁ h₁').2
  cases found with
  | none => cases h
  | some m =>
    dsimp only at h h'
    by_cases halign : m.meaning = .directive .align
    -- an alignment is the one statement whose size a value decides
    · rw [halign] at h h'
      obtain ⟨_, b₂, h₂, h⟩ := bind_eq_ok.mp h
      obtain ⟨_, b₂', h₂', h'⟩ := bind_eq_ok.mp h'
      refine parallel_of_align (lockstep_settle hb₁ h₂ h₂').2 ?_ h h'
      rw [modify_eq_ok.mp h₂, modify_eq_ok.mp h₁]
      exact hplain m cursor hlookup halign
    · refine (?_ : Lockstep Parallel Eq _ _) hb₁ h h' |>.2
      split
      · exact lockstep_directive (by decide)
      · next d hd =>
        refine lockstep_settle.bind fun _ _ _ => lockstep_directive fun heq => ?_
        exact halign (by rw [hd, heq])
      · refine lockstep_settle.bind fun _ _ _ => lockstep_instruction _ ?_
        exact Instruction.steady_encoder _
      · refine lockstep_settle.bind fun _ _ _ => lockstep_instruction _ ?_
        exact .failLeft _ _ _

/-! ## Items -/

/-- What decides the place of a block, and the variables. -/
def place (b : Block Machine Name) :
    Cursor × UInt64 × Bool × List Name × Bindings Name Variable :=
  (b.cursor, b.placement.logical, b.fresh, b.labels, b.state.vars)

theorem unseen_place : Unseen environment place :=
  ⟨fun _ _ _ => rfl, fun _ _ => rfl, fun _ _ => rfl, fun _ _ => rfl⟩

/-- Two blocks stay parallel over anything that leaves the places of both alone. -/
theorem lockstep_of_place {x : Assembling Machine Name α} {y : Assembling Machine Name β}
    (hx : Preserves place x) (hy : Preserves place y) :
    Lockstep Parallel (fun _ _ => True) x y := by
  refine .of_preserves hx hy fun b b' c c' hb hc hc' => ?_
  simp only [place, Prod.mk.injEq] at hc hc'
  obtain ⟨hcursor, hlogical, hfresh, hlabels, hvars⟩ := hc
  obtain ⟨hcursor', hlogical', hfresh', hlabels', hvars'⟩ := hc'
  refine ⟨?_, ?_, ?_, ?_, ?_⟩
  · rw [hcursor, hcursor', hb.cursor]
  · rw [hlogical, hlogical', hb.logical]
  · rw [hfresh, hfresh', hb.fresh]
  · rw [hlabels, hlabels', hb.labels]
  · unfold Machine.Numeric
    rw [hvars, hvars']
    exact hb.numeric

theorem parallel_atLabel (hb : Parallel b b') : Parallel b.atLabel b'.atLabel := by
  rw [atLabel, atLabel]
  dsimp only
  rw [← hb.fresh]
  split
  · exact { hb with
      cursor := by simp only [hb.cursor]
      logical := by simp only [Placement.align, Placement.advance, hb.logical]
      fresh := rfl }
  · exact { hb with
      cursor := by simp only [hb.cursor]
      fresh := rfl }

/-- Two blocks bind the same label to the same address. -/
theorem parallel_of_label (hb : Parallel b b') (h : label environment b = .ok u c)
    (h' : label environment b' = .ok u' c') : Parallel c c' := by
  obtain ⟨name, s, hname, -, rfl⟩ := label_machine h
  obtain ⟨name', s', hname', -, rfl⟩ := label_machine h'
  have hat : Parallel b.atLabel b'.atLabel := parallel_atLabel hb
  rw [← hat.cursor, hname] at hname'
  cases hname'
  exact {
    cursor := by simp only [hat.cursor]
    logical := hat.logical
    fresh := hat.fresh
    labels := by simp only [hb.labels]
    numeric := ⟨hb.numeric.1.bindLabel _ _, hb.numeric.2.bindLabel _ _⟩ }

theorem lockstep_openStatement : Lockstep Parallel Eq openStatement openStatement :=
  .modify fun _ _ h => { h with cursor := congrArg Cursor.skipBlanks h.cursor }

theorem lockstep_label :
    Lockstep Parallel (fun _ _ => True) (label environment) (label environment) :=
  fun _ _ _ _ _ _ hb h h' => ⟨trivial, parallel_of_label hb h h'⟩

/-- The byte starts a statement, and not anything else that an item can be. -/
def startsStatement (b : Byte) : Bool :=
  !(b == 0 || b == ']'.toUInt8 || b.isBreak || b == ':'.toUInt8 || b == ';'.toUInt8 ||
    b == Byte.remToken || b == '.'.toUInt8)

/-- The cursor behind the name of the `ALIGN` directive, if the item at the cursor is one. -/
def alignOperand? (s : Cursor) : Option Cursor :=
  let s := s.skipBlanks
  if startsStatement s.peek then
    match Mnemonic.lookup s with
    | (some m, operand) => if m.meaning = .directive .align then some operand else none
    | (none, _) => none
  else none

/-- Two blocks stay parallel over an item, and go on or stop alike. -/
theorem parallel_of_item (hb : Parallel b b')
    (hplain : ∀ s, alignOperand? b.cursor = some s → plainOperand s) {next next' : Next}
    (h : item environment b = .ok next c) (h' : item environment b' = .ok next' c') :
    next = next' ∧ Parallel c c' := by
  have hstop {x : Assembling Machine Name Unit} (n : Next) {R : Unit → Unit → Prop}
      (hx : Lockstep Parallel R x x) :
      Lockstep Parallel Eq (x >>= fun _ => pure n) (x >>= fun _ => pure n) :=
    hx.bind fun _ _ _ => .pure rfl
  have hfinish (stop : Nat) : Lockstep Parallel (fun _ _ => True) (finish environment stop)
      (finish environment stop) :=
    lockstep_of_place (preserves_finish unseen_place _) (preserves_finish unseen_place _)
  rw [item, modifyCursor, modify_bind, get_bind] at h h'
  dsimp only at h h'
  rw [← hb.cursor] at h'
  have hb₁ : Parallel { b with cursor := b.cursor.skipBlanks }
      { b' with cursor := b.cursor.skipBlanks } := { hb with cursor := rfl }
  by_cases hstarts : startsStatement b.cursor.skipBlanks.peek
  -- only a statement can be an alignment, so only here the operands have to be plain
  · have hlookup : ∀ m s, Mnemonic.lookup b.cursor.skipBlanks = (some m, s) →
        m.meaning = .directive .align → plainOperand s := by
      intro m s hm halign
      refine hplain s ?_
      rw [alignOperand?, if_pos hstarts, hm]
      exact if_pos halign
    simp only [startsStatement, Bool.not_eq_true', Bool.or_eq_false_iff] at hstarts
    obtain ⟨⟨⟨⟨⟨⟨hend, hbracket⟩, hbreak⟩, hcolon⟩, hsemicolon⟩, hrem⟩, hdot⟩ := hstarts
    simp only [hend, hbracket, hbreak, hcolon, hsemicolon, hrem, hdot, Bool.or_false,
      Bool.false_eq_true, if_false] at h h'
    obtain ⟨_, d, hd, h⟩ := bind_eq_ok.mp h
    obtain ⟨_, d', hd', h'⟩ := bind_eq_ok.mp h'
    obtain ⟨⟨rfl, rfl⟩, rfl, rfl⟩ := And.intro (pure_eq_ok.mp h) (pure_eq_ok.mp h')
    exact ⟨rfl, parallel_of_statement hb₁ hlookup hd hd'⟩
  · refine (?_ : Lockstep Parallel Eq _ _) hb₁ h h'
    refine .ite (fun _ => hstop _ (hfinish _)) fun hend => ?_
    refine .ite (fun _ => ?_) fun hbracket => ?_
    · exact (lockstep_modifyCursor _).bind fun _ _ _ => hstop _ (hfinish _)
    refine .ite (fun _ => ?_) fun hbreak => ?_
    · refine (lockstep_modifyCursor _).bind fun _ _ _ => ?_
      refine (lockstep_of_place (preserves_closeStatement unseen_place _)
        (preserves_closeStatement unseen_place _)).bind fun _ _ _ => hstop _ lockstep_openStatement
    refine .ite (fun _ => hstop _ (lockstep_modifyCursor _)) fun hcomment => ?_
    refine .ite (fun _ => hstop _ lockstep_label) fun hdot => ?_
    simp [startsStatement, *] at hstarts

/-- Two blocks stay parallel over a step, and go on or stop alike. -/
theorem parallel_of_step (hb : Parallel b b')
    (hplain : ∀ s, alignOperand? b.cursor = some s → plainOperand s) {next next' : Next}
    (h : step environment b = .ok next c) (h' : step environment b' = .ok next' c') :
    next = next' ∧ Parallel c c' := by
  rw [step, get_bind] at h h'
  split at h
  · cases h
  split at h'
  · cases h'
  exact parallel_of_item hb hplain h h'

end Block

end InlineA64
