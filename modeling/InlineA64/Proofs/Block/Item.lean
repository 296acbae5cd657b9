import InlineA64.Proofs.Block.Frame
import InlineA64.Proofs.Cursor

/-!
# Items

An item of a block is told by the first byte of it, and a statement by its mnemonic. `Cursor.item`
tells which item stands at a cursor, and `Block.handle` what is done with it, which is all that
`Block.item` does (`Block.item_eq`). `Block.leads_item` tells what there is to show of each item to
follow `Block.item` through all of its ways.
-/

namespace InlineA64

/-- The items of a block. -/
inductive Item where
  /-- The end of the block. -/
  | close
  /-- The end of a statement. -/
  | separator
  /-- A comment, up to the end of the statement. -/
  | comment
  /-- A label. -/
  | label
  /-- A mnemonic of this meaning with its operands, or something that is no mnemonic. -/
  | statement (meaning? : Option Meaning)
deriving DecidableEq, Repr

/-- The item at a cursor that does not stand at a blank. -/
def Cursor.item (s : Cursor) : Item :=
  let b := s.peek
  if b == 0 || b == ']'.toUInt8 then .close
  else if b.isBreak || b == ':'.toUInt8 then .separator
  else if b == ';'.toUInt8 || b == Byte.remToken then .comment
  else if b == '.'.toUInt8 then .label
  else .statement ((Mnemonic.lookup s).1.map Mnemonic.meaning)

/-- Statements apart, one byte tells the item. -/
theorem Cursor.item_congr {s s' : Cursor} (hpeek : s'.peek = s.peek)
    (h : ∀ meaning?, s.item ≠ .statement meaning?) : s'.item = s.item := by
  rw [item, item, hpeek]
  refine ite_congr rfl (fun _ => rfl) fun hclose => ite_congr rfl (fun _ => rfl) fun hseparator =>
    ite_congr rfl (fun _ => rfl) fun hcomment => ite_congr rfl (fun _ => rfl) fun hlabel => ?_
  rw [item] at h
  rw [if_neg hclose, if_neg hseparator, if_neg hcomment, if_neg hlabel] at h
  exact absurd rfl (h _)

theorem Cursor.peek_ne_zero_of_item {s : Cursor} (h : s.item ≠ .close) : s.peek ≠ 0 :=
  fun hzero => h (by rw [item, hzero]; rfl)

/-- One byte tells that the item is a statement, but not which. -/
theorem Cursor.exists_item_statement {s s' : Cursor} (hpeek : s'.peek = s.peek)
    {meaning? : Option Meaning} (h : s.item = .statement meaning?) :
    ∃ meaning?', s'.item = .statement meaning?' := by
  refine Classical.byContradiction fun hnone => ?_
  have hsame : s.item = s'.item :=
    item_congr hpeek.symm fun meaning?' hitem => hnone ⟨meaning?', hitem⟩
  exact hnone ⟨meaning?, hsame.symm.trans h⟩

/-- A comment starts with a byte that goes on with it. -/
theorem Cursor.continuesComment_of_item {s : Cursor} (h : s.item = .comment) :
    Block.continuesComment s.peek = true := by
  rw [item] at h
  split at h
  · cases h
  split at h
  · cases h
  split at h
  · next hcomment =>
    rw [Bool.or_eq_true, beq_iff_eq, beq_iff_eq] at hcomment
    rcases hcomment with hpeek | hpeek <;> rw [hpeek] <;> rfl
  split at h <;> cases h

/-- A statement is one of the mnemonic that is looked up. -/
theorem Cursor.meaning?_of_item {s : Cursor} {meaning? : Option Meaning}
    (h : s.item = .statement meaning?) :
    meaning? = (Mnemonic.lookup s).1.map Mnemonic.meaning := by
  rw [item] at h
  split at h
  · cases h
  split at h
  · cases h
  split at h
  · cases h
  split at h
  · cases h
  · exact (Item.statement.inj h).symm

/-- A statement stands where no statement ends and no label starts. -/
theorem Cursor.item_eq_statement {s : Cursor} (hends : s.peek.endsStatement = false)
    (hdot : s.peek ≠ '.'.toUInt8) :
    s.item = .statement ((Mnemonic.lookup s).1.map Mnemonic.meaning) := by
  simp only [Byte.endsStatement, Bool.or_eq_false_iff] at hends
  obtain ⟨⟨⟨⟨⟨hzero, hbreak⟩, hcolon⟩, hbracket⟩, hsemicolon⟩, hrem⟩ := hends
  simp only [item, hzero, hbreak, hcolon, hbracket, hsemicolon, hrem,
    beq_eq_false_iff_ne.mpr hdot, Bool.or_self, Bool.false_eq_true, if_false]

namespace Block

variable {σ Slot : Type}

/-- The block when the blanks before an item have been skipped. -/
def atItem (b : Block σ Slot) : Block σ Slot :=
  { b with cursor := b.cursor.skipBlanks }

/-- The next item of a block. -/
def upcoming (b : Block σ Slot) : Item :=
  b.atItem.cursor.item

/-- Do what a mnemonic stands for. -/
def perform (env : Environment σ Slot) (m : Mnemonic) : Assembling σ Slot Unit :=
  match m.meaning with
  | .directive .options => directive env .options
  | .directive d => do
    settle
    directive env d
  | .instruction i => do
    settle
    instruction env m.name i.encoder
  | .unsupported => do
    settle
    instruction env m.name (Reader.failHere (.unsupported m.name))

variable {env : Environment σ Slot} {b : Block σ Slot}

theorem statement_eq (env : Environment σ Slot) (b : Block σ Slot) : statement env b =
    match (Mnemonic.lookup b.cursor).1 with
    | none => failAt b.cursor.pos
        (.unknownMnemonic (unknownText (Mnemonic.lookup b.cursor).2 b.cursor.pos))
        { b with cursor := (Mnemonic.lookup b.cursor).2 }
    | some m => perform env m { b with cursor := (Mnemonic.lookup b.cursor).2 } := by
  rw [statement, get_bind, get_bind]
  rcases Mnemonic.lookup b.cursor with ⟨_ | m, cursor⟩
  · rfl
  · rfl

section Handling

variable [DecidableEq Slot]

/-- What is done with an item at the cursor, where the statement before it stops at `stop`. -/
def handle (env : Environment σ Slot) (stop : Nat) : Item → Assembling σ Slot Next
  | .close => do
    modifyCursor fun s => if s.peek == 0 then s else s.advance 1
    finish env stop
    return .stop
  | .separator => do
    modifyCursor takeSeparator
    closeStatement env stop
    openStatement
    return .more
  | .comment => do
    modifyCursor (·.skipWhile continuesComment)
    return .more
  | .label => do
    label env
    return .more
  | .statement _ => do
    statement env
    return .more

/-- An item is dealt with as what it is. -/
theorem item_eq (env : Environment σ Slot) (b : Block σ Slot) :
    item env b = handle env b.atItem.cursor.pos b.upcoming b.atItem := by
  rw [item, modifyCursor, modify_bind]
  change (get >>= _ : Assembling σ Slot Next) b.atItem =
    handle env b.atItem.cursor.pos b.atItem.cursor.item b.atItem
  generalize b.atItem = c
  -- the run and the classification test the first byte in one order
  rw [get_bind, Cursor.item]
  by_cases hzero : (c.cursor.peek == 0) = true
  · rw [if_pos hzero, hzero, Bool.true_or, if_pos rfl, handle, modifyCursor, modify_bind,
      if_pos hzero]
  rw [if_neg hzero, Bool.eq_false_iff.mpr hzero, Bool.false_or]
  by_cases hbracket : (c.cursor.peek == ']'.toUInt8) = true
  · rw [if_pos hbracket, if_pos hbracket, handle, modifyCursor, modifyCursor, modify_bind,
      modify_bind, if_neg hzero]
  rw [if_neg hbracket, if_neg hbracket]
  by_cases hseparator : (c.cursor.peek.isBreak || c.cursor.peek == ':'.toUInt8) = true
  · rw [if_pos hseparator, if_pos hseparator, handle]
  rw [if_neg hseparator, if_neg hseparator]
  by_cases hcomment : (c.cursor.peek == ';'.toUInt8 || c.cursor.peek == Byte.remToken) = true
  · rw [if_pos hcomment, if_pos hcomment, handle]
  rw [if_neg hcomment, if_neg hcomment]
  by_cases hlabel : (c.cursor.peek == '.'.toUInt8) = true
  · rw [if_pos hlabel, if_pos hlabel, handle]
  · rw [if_neg hlabel, if_neg hlabel, handle]

/-- Below the limit a step deals with the next item. -/
theorem step_of_upcoming {i : Item} (h : b.upcoming = i) (hlimit : b.placement.atLimit = false) :
    step env b = handle env b.atItem.cursor.pos i b.atItem := by
  rw [step, get_bind, hlimit, if_neg Bool.false_ne_true, item_eq, h]

theorem step_of_label {b' : Block σ Slot} (h : b.upcoming = .label)
    (hlimit : b.placement.atLimit = false) (hlabel : label env b.atItem = .ok () b') :
    step env b = .ok .more b' := by
  rw [step_of_upcoming h hlimit, handle, bind_of_ok hlabel]
  rfl

theorem step_of_label_error {failure : Failure} {b' : Block σ Slot} (h : b.upcoming = .label)
    (hlimit : b.placement.atLimit = false) (hlabel : label env b.atItem = .error failure b') :
    step env b = .error failure b' := by
  rw [step_of_upcoming h hlimit, handle, bind_of_error hlabel]

end Handling

variable [DecidableEq Slot] {Q : Next → Block σ Slot → Prop} {E : Failure → Block σ Slot → Prop}

theorem leads_step_of_statement {meaning? : Option Meaning}
    (h : b.upcoming = .statement meaning?) (hlimit : b.placement.atLimit = false)
    (hstatement : Leads (statement env) b.atItem (fun _ => Q .more) E) :
    Leads (step env) b Q E :=
  .of_eq (step_of_upcoming h hlimit) (hstatement.bind fun _ _ hq => hq)

/-- To follow an item is to follow the end of the block, a separator, a comment, a label and a
statement. -/
theorem leads_item
    (hclose : ∀ f : Cursor → Cursor, (∀ s : Cursor, s.Onward (f s)) → b.upcoming = .close →
      Leads (do
        modifyCursor f
        finish env b.atItem.cursor.pos
        return Next.stop) b.atItem Q E)
    (hseparator : b.atItem.cursor.peek ≠ 0 → b.upcoming = .separator →
      Leads (do
        modifyCursor takeSeparator
        closeStatement env b.atItem.cursor.pos
        openStatement
        return Next.more) b.atItem Q E)
    (hcomment : b.atItem.cursor.peek ≠ 0 → continuesComment b.atItem.cursor.peek = true →
      b.upcoming = .comment →
      Q .more { b.atItem with cursor := b.atItem.cursor.skipWhile continuesComment })
    (hlabel : b.atItem.cursor.peek ≠ 0 → b.upcoming = .label →
      Leads (label env) b.atItem (fun _ => Q .more) E)
    (hstatement : b.atItem.cursor.peek ≠ 0 →
      b.upcoming = .statement ((Mnemonic.lookup b.atItem.cursor).1.map Mnemonic.meaning) →
      Leads (statement env) b.atItem (fun _ => Q .more) E) :
    Leads (item env) b Q E := by
  refine .of_eq (item_eq env b) ?_
  have hne : b.upcoming ≠ .close → b.atItem.cursor.peek ≠ 0 := Cursor.peek_ne_zero_of_item
  cases hitem : b.upcoming with
  | close =>
    refine hclose _ (fun s => ?_) hitem
    split
    · exact .refl s
    · exact s.onward_advance 1
  | separator => exact hseparator (hne (hitem ▸ nofun)) hitem
  | comment =>
    exact .modify_bind (.pure (hcomment (hne (hitem ▸ nofun))
      (Cursor.continuesComment_of_item hitem) hitem))
  | label => exact (hlabel (hne (hitem ▸ nofun)) hitem).bind fun _ _ hq => hq
  | statement meaning? =>
    obtain rfl := Cursor.meaning?_of_item hitem
    exact (hstatement (hne (hitem ▸ nofun)) hitem).bind fun _ _ hq => hq

end Block

end InlineA64
