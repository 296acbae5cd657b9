import InlineA64.Proofs.Block.Run
import InlineA64.Proofs.Watched

/-!
# Blocks under watch

The assembler under watch. It is written down like the assembler itself, with the cursor under watch
after whatever moves it, and with each slice of the text taken by its bounds: the text of a
statement, its label and what stands behind that, the name of a label, and what is shown of an
unknown mnemonic.

From a block whose statement starts before the cursor, and the cursor inside of the text
(`Block.Sound`), it does what the assembler does (`Block.agrees_runWatched`).
-/

namespace InlineA64

variable {σ Slot α : Type}

/-! ## Slices of statements -/

/-- A leading label with its dot and the rest of a statement, cut out of the statement by their
bounds. -/
def Listing.leadingLabel? (text : List Byte) : Option (List Byte × List Byte) :=
  if text.head? = some '.'.toUInt8 then do
    let behind ← slice? text 1 text.length
    let stop := 1 + behind.findIdx fun b => !isLabelByte b
    let label ← slice? text 0 stop
    let rest ← slice? text stop text.length
    return (label, rest.dropWhile (· == 0x20))
  else some ([], text)

/-- The rows for a statement, its label being cut out by bounds. -/
def Listing.rows? (address : UInt64) (bytes text : List Byte) : Option (List String) := do
  let (label, rest) ← leadingLabel? text
  let page : Page := ⟨[], addressColumns address (bytes.take 4)⟩
  let page := if label.isEmpty then page else page.write labelColumn (spelled label)
  return (page.write textColumn (spelled rest)).finish ++
    furtherRows (address + 4) (groups (bytes.drop 4))

theorem Listing.leadingLabel?_eq (text : List Byte) :
    leadingLabel? text = some (leadingLabel text) := by
  cases text with
  | nil => rfl
  | cons b rest =>
    rw [leadingLabel?, leadingLabel, List.head?_cons]
    by_cases hdot : b = '.'.toUInt8
    · -- the bytes of the label end inside of what is behind the dot
      have hstop : rest.findIdx (fun b => !isLabelByte b) ≤ rest.length := List.findIdx_le_length
      have hlength : (b :: rest).length = rest.length + 1 := List.length_cons
      rw [if_pos (congrArg some hdot), if_pos (beq_iff_eq.mpr hdot),
        slice?_eq (by omega) (Nat.le_refl _)]
      simp only [Option.bind_eq_bind, Option.bind_some, List.take_length, List.drop_one,
        List.tail_cons, Nat.add_comm 1]
      rw [slice?_eq (Nat.zero_le _) (by omega), slice?_eq (by omega) (Nat.le_refl _)]
      simp [List.takeWhile_eq_take_findIdx_not, List.dropWhile_eq_drop_findIdx_not]
    · rw [if_neg (fun h => hdot (Option.some.inj h)), if_neg (mt beq_iff_eq.mp hdot)]

theorem Listing.rows?_eq (address : UInt64) (bytes text : List Byte) :
    rows? address bytes text = some (rows address bytes text) := by
  rw [rows?, leadingLabel?_eq]
  rfl

/-! ## Readers -/

/-- Run a reader with the cursor under watch after each request. -/
def Reader.runWatched (around : Surroundings σ Slot) :
    Reader α → EStateM Crash (Reading σ) α
  | done a => pure a
  | fail fault at? => fun r => .error (.failure (r.failure fault at?)) r
  | ask request next => do
    let answer ← watched (fun r => r.cursor.pos ≤ r.cursor.text.size) (request.answer around)
    runWatched around (next answer)

namespace Block

/-- What is shown of an unknown mnemonic, cut out of the text by its bounds. -/
def unknownText? (s : Cursor) (start : Nat) : Option String := do
  let rest ← slice? s.text.toList start s.text.size
  let shown ← slice? rest 0 (rest.findIdx fun b => !isMnemonicByte b)
  return Utf8.decode shown

theorem unknownText?_eq {s : Cursor} {start : Nat} (h : start ≤ s.text.size) :
    unknownText? s start = some (unknownText s start) := by
  rw [unknownText?, unknownText, Cursor.slice?_eq h (Nat.le_refl _)]
  dsimp only [Option.bind_eq_bind, Option.bind_some]
  rw [slice?_eq (Nat.zero_le _) List.findIdx_le_length, List.takeWhile_eq_take_findIdx_not]
  simp

/-! ## The assembler under watch -/

/-- An action on a block under watch. -/
abbrev Watching (σ Slot : Type) := EStateM Crash (Block σ Slot)

/-- Do something that has to leave the cursor inside of the text. -/
def act (x : Assembling σ Slot α) : Watching σ Slot α :=
  watched (fun b => b.cursor.pos ≤ b.cursor.text.size) x

namespace Watched

/-- `Block.operands` under watch. -/
def operands (env : Environment σ Slot) (mnemonic : String) (reader : Reader α) :
    Watching σ Slot α := fun b =>
  match reader.runWatched ⟨env, b.placement.context, mnemonic⟩ ⟨b.cursor, b.state, []⟩ with
  | .ok a r => .ok a { b with cursor := r.cursor, state := r.state }
  | .error crash r => .error crash { b with cursor := r.cursor, state := r.state }

/-- `Block.align` under watch. -/
def align (env : Environment σ Slot) : Watching σ Slot Unit := do
  act alignStart
  act (modifyCursor Cursor.skipBlanks)
  let b ← get
  if b.cursor.peek.isDigit && b.cursor.peek != '0'.toUInt8 then
    let n ← act (evaluateInt env)
    if alignments.contains n then
      act (emitNoOperations env ((Placement.padTo n.toUInt64 b.placement.logical).toNat / 4))
    else act (failAt b.cursor.pos (.malformed .alignment))

/-- `Block.directive` under watch. All directives but one move the cursor once. -/
def directive (env : Environment σ Slot) : Directive → Watching σ Slot Unit
  | .align => align env
  | d => act (Block.directive env d)

/-- `Block.instruction` under watch. -/
def instruction (env : Environment σ Slot) (mnemonic : String) (reader : Reader Encoding) :
    Watching σ Slot Unit := do
  act alignStart
  let encoding ← operands env mnemonic reader
  act (emit env (bytesOfWord encoding.word))

/-- `Block.statement` under watch. -/
def statement (env : Environment σ Slot) : Watching σ Slot Unit := do
  let start := (← get).cursor.pos
  let (found, cursor) := Mnemonic.lookup (← get).cursor
  act (modifyCursor fun _ => cursor)
  match found with
  | none =>
    let shown ← present (unknownText? cursor start)
    act (failAt start (.unknownMnemonic shown))
  | some m =>
    match m.meaning with
    | .directive .options => directive env .options
    | .directive d => do
      act settle
      directive env d
    | .instruction i => do
      act settle
      instruction env m.name i.encoder
    | .unsupported => do
      act settle
      instruction env m.name (Reader.failHere (.unsupported m.name))

/-- `Block.bindSlot` under watch. -/
def bindSlot [DecidableEq Slot] (env : Environment σ Slot) (start : Nat)
    (named : Slot × VariableKind) : Watching σ Slot Unit := do
  let b ← get
  if named.2 = .string then act (failAt start .typeMismatch)
  else
    let name ← present (slice? b.cursor.text.toList (start + 1) b.cursor.pos)
    if isBound env b named.1 then act (failAt start (.multipleLabel (Utf8.decode name)))
    else
      act (request (env.store named.1 b.placement.logical))
      act (modify fun b => { b with labels := named.1 :: b.labels })

/-- `Block.label` under watch. -/
def label [DecidableEq Slot] (env : Environment σ Slot) : Watching σ Slot Unit := do
  let start := (← get).cursor.pos
  act (modifyCursor (·.advance 1))
  if (← get).fresh then act alignStart
  let named ← act (consult env.slot)
  bindSlot env start named

/-- `Block.closeStatement` under watch. -/
def closeStatement (env : Environment σ Slot) (stop : Nat) : Watching σ Slot Unit := do
  let b ← get
  if b.placement.options.list then
    let text ← present (slice? b.cursor.text.toList b.start stop)
    let rows ← present (Listing.rows? b.address b.emitted text)
    act (list env rows)
  if !b.placement.options.offset && b.placement.logical != b.address then
    act (modifyState (env.flush b.address b.placement.logical))
  act (modify fun b => { b with emitted := [] })

/-- `Block.finish` under watch. -/
def finish (env : Environment σ Slot) (stop : Nat) : Watching σ Slot Unit := do
  let b ← get
  let text ← present (slice? b.cursor.text.toList b.start stop)
  if b.placement.logical != b.address || !text.all Byte.isWhite then
    closeStatement env stop
  act (modifyPlacement (·.withOptions .standard))

/-- `Block.item` under watch. -/
def item [DecidableEq Slot] (env : Environment σ Slot) : Watching σ Slot Next := do
  act (modifyCursor Cursor.skipBlanks)
  let s := (← get).cursor
  let b := s.peek
  if b == 0 then
    finish env s.pos
    return .stop
  else if b == ']'.toUInt8 then
    act (modifyCursor (·.advance 1))
    finish env s.pos
    return .stop
  else if b.isBreak || b == ':'.toUInt8 then
    act (modifyCursor takeSeparator)
    closeStatement env s.pos
    act openStatement
    return .more
  else if b == ';'.toUInt8 || b == Byte.remToken then
    act (modifyCursor (·.skipWhile continuesComment))
    return .more
  else if b == '.'.toUInt8 then
    label env
    return .more
  else
    statement env
    return .more

/-- `Block.step` under watch. -/
def step [DecidableEq Slot] (env : Environment σ Slot) : Watching σ Slot Next := do
  let b ← get
  if b.placement.atLimit then
    act (failAt b.cursor.pos (.addressOutOfRange b.placement.writeAddress b.placement.limit))
  else item env

/-- `Block.steps` under watch. -/
def steps [DecidableEq Slot] (env : Environment σ Slot) : (fuel : Nat) → Watching σ Slot Next
  | 0 => pure .more
  | fuel + 1 => do
    match ← step env with
    | .more => steps env fuel
    | .stop => pure .stop

/-- `Block.run` under watch. -/
def run [DecidableEq Slot] (env : Environment σ Slot) : Watching σ Slot Next := do
  act openStatement
  steps env ((← get).cursor.remaining + 1)

end Watched

/-! ## Blocks that are sound -/

/-- The statement starts before the cursor, and the cursor is inside of the text. -/
structure Sound (b : Block σ Slot) : Prop where
  start_le : b.start ≤ b.cursor.pos
  inside : b.cursor.pos ≤ b.cursor.text.size

/-- The cursor has moved onward, and the block is sound if it was. -/
structure Follows (b b' : Block σ Slot) : Prop where
  onward : b.Onward b'
  sound : b.Sound → b'.Sound

instance : IsPreorder (Block σ Slot) Follows where
  refl b := ⟨.refl b.cursor, id⟩
  trans _ _ _ h h' := ⟨h.onward.trans h'.onward, h'.sound ∘ h.sound⟩

variable {env : Environment σ Slot} {b b' : Block σ Slot}

/-- A block stays sound if the statement goes on, or another one starts at the cursor. -/
theorem Follows.of_onward (h : b.Onward b')
    (hstart : b'.start = b.start ∨ b'.start = b'.cursor.pos) : b.Follows b' := by
  refine ⟨h, fun hb => ?_⟩
  have hinside : b'.cursor.pos ≤ b'.cursor.text.size := by
    rw [h.text]
    exact h.inside hb.inside
  have hpos := h.pos_le hb.inside
  have hle := hb.start_le
  exact ⟨by omega, hinside⟩

theorem follows_withOptions (b : Block σ Slot) (o : Options) :
    b.Follows { b with placement := b.placement.withOptions o } :=
  .of_onward (.refl b.cursor) (.inl rfl)

/-- Whatever happens to a block, it stays sound. -/
theorem closed_follows (env : Environment σ Slot) : Closed env (fun _ _ => True) Follows where
  moves := env.moves_trivially
  consult _ _ _ h _ := .of_onward h (.inl rfl)
  note b _ _ _ _ _ h := .of_onward (.refl b.cursor) h
  align b := .of_onward (.refl b.cursor) (.inl rfl)
  emit bytes := by
    have hstate (b : Block σ Slot) (w : σ) : b.Follows { b with state := w } :=
      .of_onward (.refl b.cursor) (.inl rfl)
    refine .get_bind fun _ => Reaches.bind ?_ fun _ b =>
      .modify (.of_onward (.refl b.cursor) (.inl rfl))
    rw [request_eq_within]
    exact fun b => .within (.of_forall (fun _ => hstate b) fun _ => hstate b)

/-! ## Agreement -/

theorem reaches_modify {f : Block σ Slot → Block σ Slot}
    (hf : ∀ b, (f b).cursor = b.cursor ∧ (f b).start = b.start) :
    Reaches Follows (modify f : Assembling σ Slot PUnit) := fun b =>
  Follows.of_onward (by rw [Onward, (hf b).1]; exact .refl b.cursor) (.inl (hf b).2)

/-- An action that keeps a block sound does the same under watch. -/
theorem agrees_act {x : Assembling σ Slot α} (h : Reaches Follows x) (hb : b.Sound) :
    Agrees (act x) x b :=
  .of_watched ((h b).mono (fun _ _ hc => (hc.sound hb).inside) fun _ _ hc => (hc.sound hb).inside)

/-- What follows an action that keeps a block sound. -/
theorem agrees_act_bind {β : Type} {x : Assembling σ Slot α} {f' : α → Watching σ Slot β}
    {f : α → Assembling σ Slot β} (h : Reaches Follows x) (hb : b.Sound)
    (hf : ∀ a c, b.Follows c → Agrees (f' a) (f a) c) : Agrees (act x >>= f') (x >>= f) b :=
  (agrees_act h hb).bind fun a c hc => hf a c ((h b).of_eq_ok hc)

/-- What follows a move of the cursor. -/
theorem agrees_modifyCursor_bind {β : Type} {g : Cursor → Cursor} {f' : Unit → Watching σ Slot β}
    {f : Unit → Assembling σ Slot β} (hg : b.cursor.Onward (g b.cursor)) (hb : b.Sound)
    (hf : Sound { b with cursor := g b.cursor } →
      Agrees (f' ()) (f ()) { b with cursor := g b.cursor }) :
    Agrees (act (modifyCursor g) >>= f') (modifyCursor g >>= f) b := by
  have hfollows : b.Follows { b with cursor := g b.cursor } := .of_onward hg (.inl rfl)
  refine Agrees.bind (.of_watched (hfollows.sound hb).inside) fun _ c hc => ?_
  obtain rfl := modify_eq_ok.mp hc
  exact hf (hfollows.sound hb)

end Block

/-- Whatever a reader asks for, the cursor stays inside of the text. -/
theorem Reader.agrees_runWatched {env : Environment σ Slot} {context : Context} {mnemonic : String}
    (x : Reader α) {r : Reading σ} (hr : r.cursor.pos ≤ r.cursor.text.size) :
    Agrees (x.runWatched ⟨env, context, mnemonic⟩) (x.run ⟨env, context, mnemonic⟩) r := by
  induction x generalizing r with
  | done a => exact .pure a
  | fail fault at? => rfl
  | ask request next ih =>
    have hanswer : Reaches (Reading.Onward fun _ _ => True)
        (request.answer ⟨env, context, mnemonic⟩) :=
      request.reaches_answer (env.moves_trivially.evaluate context) mnemonic
    have hinside {r' : Reading σ} (h : Reading.Onward (fun _ _ => True) r r') :
        r'.cursor.pos ≤ r'.cursor.text.size := by
      rw [h.1.text]
      exact h.1.inside hr
    -- the answer moves the cursor onward, so the rest of the reader starts inside of the text too
    exact .bind (.of_watched ((hanswer r).mono (fun _ _ => hinside) fun _ _ => hinside))
      fun answer r' h => ih answer (hinside ((hanswer r).of_eq_ok h))

namespace Block

variable {env : Environment σ Slot} {b : Block σ Slot} {stop : Nat}

theorem agrees_operands (mnemonic : String) (reader : Reader α) (hb : b.Sound) :
    Agrees (Watched.operands env mnemonic reader) (operands env mnemonic reader) b := by
  let around : Surroundings σ Slot := ⟨env, b.placement.context, mnemonic⟩
  have hrun : Agrees (reader.runWatched around) (reader.run around) ⟨b.cursor, b.state, []⟩ :=
    reader.agrees_runWatched hb.inside
  rw [Agrees, unwatched] at hrun
  rw [Agrees, unwatched, Watched.operands, operands, hrun]
  rcases reader.run around ⟨b.cursor, b.state, []⟩ with ⟨a, r⟩ | ⟨failure, r⟩
  · rfl
  · rfl

theorem agrees_align (hb : b.Sound) : Agrees (Watched.align env) (align env) b := by
  have hclosed := closed_follows env
  refine agrees_act_bind hclosed.reaches_alignStart hb fun _ b₁ h₁ => ?_
  refine agrees_modifyCursor_bind b₁.cursor.onward_skipBlanks (h₁.sound hb) fun hb₂ => ?_
  refine .get_bind (.ite (fun _ => ?_) fun _ => .pure _)
  refine agrees_act_bind hclosed.reaches_evaluateInt hb₂ fun n b₃ h₃ => ?_
  have hb₃ := h₃.sound hb₂
  exact .ite (fun _ => agrees_act (hclosed.reaches_emitNoOperations _) hb₃) fun _ =>
    agrees_act (Closed.reaches_failAt _ _) hb₃

theorem agrees_directive (d : Directive) (hb : b.Sound) :
    Agrees (Watched.directive env d) (directive env d) b := by
  have hdirective : Reaches Follows (directive env d) :=
    (closed_follows env).reaches_directive d fun _ => follows_withOptions
  cases d with
  | align => exact agrees_align hb
  | _ => exact agrees_act hdirective hb

theorem agrees_instruction (mnemonic : String) (reader : Reader Encoding) (hb : b.Sound) :
    Agrees (Watched.instruction env mnemonic reader) (instruction env mnemonic reader) b := by
  have hclosed := closed_follows env
  refine agrees_act_bind hclosed.reaches_alignStart hb fun _ b₁ h₁ => ?_
  refine (agrees_operands mnemonic reader (h₁.sound hb)).bind fun encoding b₂ h₂ => ?_
  have hfollows := (hclosed.reaches_operands mnemonic reader b₁).of_eq_ok h₂
  exact agrees_act (hclosed.emit _) (hfollows.sound (h₁.sound hb))

theorem agrees_statement (hb : b.Sound) :
    Agrees (Watched.statement env) (statement env) b := by
  have hclosed := closed_follows env
  have hlookup : b.Onward { b with cursor := (Mnemonic.lookup b.cursor).2 } :=
    Mnemonic.onward_lookup b.cursor
  have hsettle : Reaches Follows (settle : Assembling σ Slot Unit) :=
    reaches_modify fun _ => ⟨rfl, rfl⟩
  refine .get_bind (.get_bind ?_)
  rcases hm : Mnemonic.lookup b.cursor with ⟨found, s⟩
  rw [hm] at hlookup
  refine agrees_modifyCursor_bind hlookup hb fun hb₁ => ?_
  cases found with
  | none =>
    refine .present_bind (unknownText?_eq ?_) (agrees_act (Closed.reaches_failAt _ _) hb₁)
    rw [hlookup.text]
    exact hb.inside
  | some m =>
    dsimp only
    generalize m.meaning = meaning
    -- all but the setting of options settle the block first
    cases meaning with
    | directive d =>
      cases d with
      | options => exact agrees_directive _ hb₁
      | _ => exact agrees_act_bind hsettle hb₁ fun _ _ h => agrees_directive _ (h.sound hb₁)
    | instruction i =>
      exact agrees_act_bind hsettle hb₁ fun _ _ h => agrees_instruction _ _ (h.sound hb₁)
    | unsupported =>
      exact agrees_act_bind hsettle hb₁ fun _ _ h => agrees_instruction _ _ (h.sound hb₁)

/-! ## The ends of statements -/

/-- The text of a statement ends inside of the text, and not before it starts. -/
theorem agrees_closeStatement (hb : b.Sound) (hstart : b.start ≤ stop)
    (hstop : stop ≤ b.cursor.text.size) :
    Agrees (Watched.closeStatement env stop) (closeStatement env stop) b := by
  have hclosed := closed_follows env
  have hflush (f : σ → σ) : Reaches Follows (modifyState f : Assembling σ Slot Unit) :=
    reaches_modify fun _ => ⟨rfl, rfl⟩
  have hemitted {c : Block σ Slot} (hc : c.Sound) : Agrees
      (act (modify fun b => { b with emitted := [] } : Assembling σ Slot Unit))
      (modify fun b => { b with emitted := [] }) c :=
    agrees_act (reaches_modify fun _ => ⟨rfl, rfl⟩) hc
  -- the text of the statement is cut out only if it is listed
  refine .get_bind (.ite (fun _ => ?_) fun _ => ?_)
  · refine .present_bind (Cursor.slice?_eq hstart hstop) ?_
    refine .present_bind (Listing.rows?_eq _ _ _) ?_
    refine agrees_act_bind (hclosed.reaches_list _) hb fun _ c hc => ?_
    refine .ite (fun _ => ?_) fun _ => hemitted (hc.sound hb)
    exact agrees_act_bind (hflush _) (hc.sound hb) fun _ _ h => hemitted (h.sound (hc.sound hb))
  · refine .ite (fun _ => ?_) fun _ => hemitted hb
    exact agrees_act_bind (hflush _) hb fun _ _ h => hemitted (h.sound hb)

theorem agrees_finish (hb : b.Sound) (hstart : b.start ≤ stop)
    (hstop : stop ≤ b.cursor.text.size) :
    Agrees (Watched.finish env stop) (finish env stop) b := by
  have hoptions : Reaches Follows
      (modifyPlacement (·.withOptions .standard) : Assembling σ Slot Unit) :=
    reaches_modify fun _ => ⟨rfl, rfl⟩
  refine .get_bind (.present_bind (Cursor.slice?_eq hstart hstop) (.ite (fun _ => ?_) fun _ => ?_))
  · refine (agrees_closeStatement hb hstart hstop).bind fun _ c hc => agrees_act hoptions ?_
    exact (((closed_follows env).reaches_closeStatement stop b).of_eq_ok hc).sound hb
  · exact agrees_act hoptions hb

/-! ## Labels -/

variable [DecidableEq Slot]

/-- The name of a label ends behind its dot. -/
theorem agrees_bindSlot {start : Nat} (named : Slot × VariableKind) (hb : b.Sound)
    (hstart : start < b.cursor.pos) :
    Agrees (Watched.bindSlot env start named) (bindSlot env start named) b := by
  have hstore : Reaches Follows (request (env.store named.1 b.placement.logical) :
      Assembling σ Slot Unit) :=
    (closed_follows env).reaches_request (env.moves_trivially.store _ _)
  refine .get_bind (.ite (fun _ => agrees_act (Closed.reaches_failAt _ _) hb) fun _ => ?_)
  refine .present_bind (Cursor.slice?_eq hstart hb.inside) (.ite (fun _ => ?_) fun _ => ?_)
  · exact agrees_act (Closed.reaches_failAt _ _) hb
  · exact agrees_act_bind hstore hb fun _ _ h =>
      agrees_act (reaches_modify fun _ => ⟨rfl, rfl⟩) (h.sound hb)

theorem agrees_label (hb : b.Sound) (hpeek : b.cursor.peek ≠ 0) :
    Agrees (Watched.label env) (label env) b := by
  have hclosed := closed_follows env
  have hnamed : Reaches Follows (consult env.slot : Assembling σ Slot _) :=
    hclosed.reaches_consult env.moves_trivially.slot
  have hpos : b.cursor.pos < (b.cursor.advance 1).pos := by
    have hlt := Cursor.pos_lt_of_peek hpeek
    simp only [Cursor.advance]
    omega
  refine .get_bind (agrees_modifyCursor_bind (b.cursor.onward_advance 1) hb fun hdot => ?_)
  -- whether the code is aligned or not, the name is read from behind the dot on
  have hname {c : Block σ Slot} (hc : Follows { b with cursor := b.cursor.advance 1 } c) :
      Agrees (act (consult env.slot) >>= Watched.bindSlot env b.cursor.pos)
        (consult env.slot >>= bindSlot env b.cursor.pos) c := by
    refine agrees_act_bind hnamed (hc.sound hdot) fun named c' hc' => ?_
    have hbehind : Follows { b with cursor := b.cursor.advance 1 } c' := IsTrans.trans _ _ _ hc hc'
    exact agrees_bindSlot named (hbehind.sound hdot)
      (Nat.lt_of_lt_of_le hpos (hbehind.onward.pos_le hdot.inside))
  refine .get_bind (.ite (fun _ => ?_) fun _ => hname (Std.Refl.refl _))
  exact agrees_act_bind hclosed.reaches_alignStart hdot fun _ _ hc => hname hc

/-! ## Items -/

theorem agrees_item (hb : b.Sound) : Agrees (Watched.item env) (item env) b := by
  have hclosed := closed_follows env
  refine agrees_modifyCursor_bind b.cursor.onward_skipBlanks hb fun hitem => .get_bind ?_
  change Sound b.atItem at hitem
  -- where a statement ends the cursor has moved on, in the same text
  have hend {s : Cursor} (hs : b.atItem.cursor.Onward s) : b.atItem.cursor.pos ≤ s.text.size := by
    rw [hs.text]
    exact hitem.inside
  refine .ite (fun _ => ?_) fun hzero => .ite (fun _ => ?_) fun _ => .ite (fun _ => ?_) fun _ =>
    .ite (fun _ => ?_) fun _ => .ite (fun _ => ?_) fun _ => ?_
  · exact (agrees_finish hitem hitem.start_le hitem.inside).bind fun _ _ _ => .pure _
  · have hadvance := b.atItem.cursor.onward_advance 1
    exact agrees_modifyCursor_bind hadvance hitem fun hsound =>
      (agrees_finish hsound hitem.start_le (hend hadvance)).bind fun _ _ _ => .pure _
  · have htake := onward_takeSeparator b.atItem.cursor
    refine agrees_modifyCursor_bind htake hitem fun hsound =>
      (agrees_closeStatement hsound hitem.start_le (hend htake)).bind fun _ c hc => ?_
    have hc := ((hclosed.reaches_closeStatement _ _).of_eq_ok hc).sound hsound
    exact (agrees_act hclosed.reaches_openStatement hc).bind fun _ _ _ => .pure _
  · exact agrees_modifyCursor_bind (b.atItem.cursor.onward_skipWhile _) hitem fun _ => .pure _
  · exact (agrees_label hitem (ne_of_beq_false (Bool.eq_false_iff.mpr hzero))).bind
      fun _ _ _ => .pure _
  · exact (agrees_statement hitem).bind fun _ _ _ => .pure _

theorem agrees_step (hb : b.Sound) : Agrees (Watched.step env) (step env) b :=
  .get_bind (.ite (fun _ => agrees_act (Closed.reaches_failAt _ _) hb) fun _ => agrees_item hb)

theorem agrees_steps (fuel : Nat) (hb : b.Sound) :
    Agrees (Watched.steps env fuel) (steps env fuel) b := by
  have hclosed := closed_follows env
  -- a sound block is what one item hands on to the next
  induction fuel generalizing b with
  | zero => exact .pure _
  | succ fuel ih =>
    refine (agrees_step hb).bind fun next c hc => ?_
    have hsound := ((hclosed.reaches_step follows_withOptions b).of_eq_ok hc).sound hb
    cases next with
    | more => exact ih hsound
    | stop => exact .pure _

/-- Under watch a block is assembled as it is without, from wherever in a text. -/
theorem agrees_run (placement : Placement) (state : σ) {s : Cursor} (hs : s.pos ≤ s.text.size) :
    Agrees (Watched.run env) (run env) (.ofPlacement placement state s) := by
  have hsound : Sound (.ofPlacement placement state s : Block σ Slot) := ⟨Nat.le_refl _, hs⟩
  exact agrees_act_bind (closed_follows env).reaches_openStatement hsound fun _ _ h =>
    .get_bind (agrees_steps _ (h.sound hsound))

end Block

end InlineA64
