import InlineA64.Proofs.Block.Item
import InlineA64.Proofs.Block.Record

/-!
# Effects of items

All that an item does to the position of a block, and all the calls it makes, whatever the
environment is: `Effect` for the items that succeed and `Failing` for those that do not. A statement
that lays something out evaluates its operands at `Item.seen` and writes from `Item.placed` on; the
two differ for words of data, which are aligned when their operand has been evaluated.

* `Block.leads_item_effect`: every item has one of these effects.
-/

namespace InlineA64

variable {σ Slot α : Type}

/-! ## What items lay out -/

/-- The calls that write chunks of bytes one behind the other from an address on. -/
def Call.writes : UInt64 → List (List Byte) → List (Call Slot)
  | _, [] => []
  | address, bytes :: chunks =>
    .write address bytes :: writes (address + UInt64.ofNat bytes.length) chunks

theorem Call.writes_append (address : UInt64) (chunks chunks' : List (List Byte)) :
    (writes address (chunks ++ chunks') : List (Call Slot)) = writes address chunks ++
      writes (address + UInt64.ofNat chunks.flatten.length) chunks' := by
  induction chunks generalizing address with
  | nil =>
    have hzero : UInt64.ofNat 0 = 0 := rfl
    simp only [List.nil_append, writes, List.flatten_nil, List.length_nil, hzero, UInt64.add_zero]
  | cons bytes chunks ih =>
    simp only [List.cons_append, writes, ih, List.flatten_cons, List.length_append,
      UInt64.ofNat_add, UInt64.add_assoc]

namespace Item

/-- The item is placed at a word. -/
def aligns : Item → Bool
  | statement (some (.instruction _)) | statement (some .unsupported)
  | statement (some (.directive .align)) | statement (some (.directive .word)) => true
  | _ => false

/-- The item is an instruction or a directive other than `OPT`. -/
def lays : Item → Bool
  | statement (some (.directive .options)) => false
  | statement (some _) => true
  | _ => false

/-- Where an item is placed. -/
def placed (item : Item) (p : Position) : Position :=
  if item.aligns then p.aligned else p

/-- Where the operands of an item are evaluated. -/
def seen : Item → Position → Position
  | statement (some (.directive .word)), p => p
  | item, p => item.placed p

/-- The chunks of bytes that an item can lay out. -/
def Emits : Item → List (List Byte) → Prop
  | statement (some (.instruction _)), chunks => ∃ word, chunks = [Block.bytesOfWord word]
  | statement (some (.directive .align)), chunks =>
    ∃ count ≤ 31, chunks = List.replicate count (Block.bytesOfWord Block.noOperation)
  | statement (some (.directive .data)), chunks
  | statement (some (.directive .string)), chunks =>
    ∃ bytes, bytes.length ≤ Block.longestString ∧ chunks = [bytes]
  | statement (some (.directive .byte)), chunks => ∃ n, chunks = [Block.bytesOfNat 1 n]
  | statement (some (.directive .half)), chunks => ∃ n, chunks = [Block.bytesOfNat 2 n]
  | statement (some (.directive .word)), chunks => ∃ n, chunks = [Block.bytesOfNat 4 n]
  | statement (some (.directive .quad)), chunks => ∃ n, chunks = [Block.bytesOfNat 8 n]
  | _, _ => False

end Item

/-- Operands are evaluated at `seen`, then chunks of bytes are written from `placed` on. -/
inductive Lays (emits : List (List Byte) → Prop) (seen placed : Position) :
    List (Call Slot) → Position → Prop
  | intro (n : Nat) {chunks : List (List Byte)} : emits chunks → Lays emits seen placed
      (.replicate n (.evaluate seen.placement.context) ++
        Call.writes placed.placement.writeAddress chunks) (placed.moved chunks.flatten.length)

/-- Operands are evaluated at `seen` and one is at fault, or chunks of bytes are written from
`placed` on and one is refused. -/
inductive Breaks (emits : List (List Byte) → Prop) (seen placed : Position) :
    List (Call Slot) → Position → Prop
  | operand (n : Nat) :
      Breaks emits seen placed (.replicate n (.evaluate seen.placement.context)) seen
  | refused (n : Nat) {done rest : List (List Byte)} {bytes : List Byte} :
      emits (done ++ bytes :: rest) → Breaks emits seen placed
        (.replicate n (.evaluate seen.placement.context) ++
          Call.writes placed.placement.writeAddress (done ++ [bytes]))
        (placed.moved done.flatten.length)

/-- What an item that succeeds does: its calls, and the position behind it. -/
inductive Effect : Item → Position → List (Call Slot) → Position → Prop
  | close (p : Position) : Effect .close p p.flushes (p.withOptions .standard)
  | separator (p : Position) : Effect .separator p p.flushes p.opened
  | comment (p : Position) : Effect .comment p [] p
  | label (p : Position) (slot : Slot) :
      Effect .label p [.store slot p.labelled.placement.logical] p.labelled
  | options (p : Position) (options : Options) :
      Effect (.statement (some (.directive .options))) p [.evaluate p.placement.context]
        (p.withOptions options)
  | lay {item : Item} {p p' : Position} {calls : List (Call Slot)} :
      Lays item.Emits (item.seen p.settled) (item.placed p.settled) calls p' →
        Effect item p calls p'

/-- What an item that fails does: its calls, and the position it leaves. -/
inductive Failing : Item → Position → List (Call Slot) → Position → Prop
  | label (p : Position) : Failing .label p [] p.labelled
  | store (p : Position) (slot : Slot) :
      Failing .label p [.store slot p.labelled.placement.logical] p.labelled
  | unknown (p : Position) : Failing (.statement none) p [] p
  | options (p : Position) :
      Failing (.statement (some (.directive .options))) p [.evaluate p.placement.context] p
  | lay {item : Item} {p p' : Position} {calls : List (Call Slot)} : item.lays = true →
      Breaks item.Emits (item.seen p.settled) (item.placed p.settled) calls p' →
        Failing item p calls p'

/-- The failure is that of a write that is refused. -/
def Environment.RefusesToWrite (env : Environment σ Slot) (failure : Failure) : Prop :=
  ∃ address bytes state state', env.write address bytes state = .error failure state'

namespace Block

variable {env : Environment σ Slot} {emits : List (List Byte) → Prop} {seen placed : Position}

/-! ## Writing -/

/-- All chunks have been written. -/
def Laid (chunks : List (List Byte)) (b b' : Block (Recorded σ Slot) Slot) : Prop :=
  After b (Call.writes b.placement.writeAddress chunks)
    (b.position.moved chunks.flatten.length) b'

/-- The chunks have been written up to one that was refused. -/
def Refused (chunks : List (List Byte)) (b b' : Block (Recorded σ Slot) Slot) : Prop :=
  ∃ done bytes rest, chunks = done ++ bytes :: rest ∧
    After b (Call.writes b.placement.writeAddress (done ++ [bytes]))
      (b.position.moved done.flatten.length) b'

theorem Laid.writeAddress {chunks : List (List Byte)} {b b₁ : Block (Recorded σ Slot) Slot}
    (h : Laid chunks b b₁) : b₁.placement.writeAddress =
      b.placement.writeAddress + UInt64.ofNat chunks.flatten.length := by
  rw [h.placement, Position.writeAddress_moved]
  rfl

theorem Laid.append {chunks chunks' : List (List Byte)} {b b₁ b₂ : Block (Recorded σ Slot) Slot}
    (h : Laid chunks b b₁) (h' : Laid chunks' b₁ b₂) : Laid (chunks ++ chunks') b b₂ := by
  have hcalls := h.trans h'
  rwa [h.writeAddress, ← Call.writes_append, h.position, Position.moved_moved,
    ← List.length_append, ← List.flatten_append] at hcalls

theorem Laid.refused {chunks chunks' : List (List Byte)} {b b₁ b₂ : Block (Recorded σ Slot) Slot}
    (h : Laid chunks b b₁) (h' : Refused chunks' b₁ b₂) : Refused (chunks ++ chunks') b b₂ := by
  obtain ⟨done, bytes, rest, rfl, h'⟩ := h'
  have hcalls := h.trans h'
  rw [h.writeAddress, ← Call.writes_append, h.position, Position.moved_moved,
    ← List.length_append, ← List.flatten_append, ← List.append_assoc] at hcalls
  exact ⟨chunks ++ done, bytes, rest, (List.append_assoc ..).symm, hcalls⟩

theorem leads_emit (bytes : List Byte) (b : Block (Recorded σ Slot) Slot) :
    Leads (emit env.recorded bytes) b (fun _ => Laid [bytes] b) (fun _ => Refused [bytes] b) := by
  refine .get_bind (Leads.bind ((after_request (env.called_write _ bytes) b).mono (fun _ _ h => h)
    fun _ _ h => ?_) fun _ b₁ h => .modify ?_)
  · -- a write that is refused leaves the block where it is
    exact ⟨[], bytes, [], rfl, h.calls, by
      rw [h.position, List.flatten_nil, List.length_nil, Position.moved_zero]⟩
  · refine ⟨h.calls, ?_⟩
    rw [List.flatten_singleton, ← h.position]
    rfl

theorem leads_emitNoOperations (count : Nat) (b : Block (Recorded σ Slot) Slot) :
    Leads (emitNoOperations env.recorded count) b
      (fun _ => Laid (.replicate count (bytesOfWord noOperation)) b)
      (fun _ => Refused (.replicate count (bytesOfWord noOperation)) b) := by
  induction count generalizing b with
  | zero =>
    refine Leads.pure ⟨(List.append_nil _).symm, ?_⟩
    rw [List.replicate_zero, List.flatten_nil, List.length_nil, Position.moved_zero]
  | succ count ih =>
    -- the first word, and the others from behind it on
    rw [List.replicate_succ, ← List.singleton_append]
    refine Leads.bind ((leads_emit _ b).mono (fun _ _ h => h) fun _ b₁ h => ?_) fun _ b₁ h =>
      (ih b₁).mono (fun _ b₂ h' => h.append h') fun _ b₂ h' => h.refused h'
    obtain ⟨done, bytes, rest, heq, h⟩ := h
    exact ⟨done, bytes, rest ++ .replicate count (bytesOfWord noOperation), by
      rw [heq, List.append_assoc, List.cons_append], h⟩

/-- Once writing has begun, an action fails only because a write is refused. -/
theorem leads_emit_refuses (bytes : List Byte) (b : Block (Recorded σ Slot) Slot) :
    Leads (emit env.recorded bytes) b (fun _ _ => True)
      fun failure _ => env.RefusesToWrite failure := by
  refine .get_bind (Leads.bind (Q := fun _ _ => True) ?_ fun _ _ _ => .modify trivial)
  rw [request_eq_within]
  refine .within (.within ?_)
  rw [Leads]
  split
  · trivial
  · next hwrite => exact ⟨_, _, _, _, hwrite⟩

theorem leads_emitNoOperations_refuses (count : Nat) (b : Block (Recorded σ Slot) Slot) :
    Leads (emitNoOperations env.recorded count) b (fun _ _ => True)
      fun failure _ => env.RefusesToWrite failure := by
  induction count generalizing b with
  | zero => exact .pure trivial
  | succ count ih => exact (leads_emit_refuses _ b).bind fun _ b₁ _ => ih b₁

/-! ## Statements -/

/-- The statement has been performed from where `b` stands. -/
def Performed (item : Item) (b b' : Block (Recorded σ Slot) Slot) : Prop :=
  ∃ calls p, Lays item.Emits (item.seen b.position) (item.placed b.position) calls p ∧
    After b calls p b'

/-- The statement has failed from where `b` stands. -/
def Broken (item : Item) (b b' : Block (Recorded σ Slot) Slot) : Prop :=
  ∃ calls p, Breaks item.Emits (item.seen b.position) (item.placed b.position) calls p ∧
    After b calls p b'

theorem Broken.of_operand {item : Item} {b b' : Block (Recorded σ Slot) Slot} {n : Nat}
    (h : After b (.replicate n (.evaluate (item.seen b.position).placement.context))
      (item.seen b.position) b') : Broken item b b' :=
  ⟨_, _, .operand n, h⟩

/-- Where operands have been evaluated and the block stands where the item is placed, what is
written is laid out. -/
theorem leads_lay {item : Item} {x : Assembling (Recorded σ Slot) Slot Unit} {n : Nat}
    {chunks : List (List Byte)} {b b₁ : Block (Recorded σ Slot) Slot}
    (hb : After b (.replicate n (.evaluate (item.seen b.position).placement.context))
      (item.placed b.position) b₁)
    (hx : Leads x b₁ (fun _ => Laid chunks b₁) (fun _ => Refused chunks b₁))
    (hemits : item.Emits chunks) :
    Leads x b₁ (fun _ => Performed item b) (fun _ => Broken item b) := by
  refine hx.mono (fun _ b' h => ⟨_, _, .intro n hemits, ?_⟩) fun _ b' h => ?_
  · have hcalls := hb.trans h
    rwa [hb.placement, hb.position] at hcalls
  · obtain ⟨done, bytes, rest, rfl, h⟩ := h
    have hcalls := hb.trans h
    rw [hb.placement, hb.position] at hcalls
    exact ⟨_, _, .refused n hemits, hcalls⟩

theorem After.alignStart {b b₁ : Block (Recorded σ Slot) Slot} {calls : List (Call Slot)}
    {p : Position} (h : After b calls p b₁) {E : Failure → Block (Recorded σ Slot) Slot → Prop} :
    Leads Block.alignStart b₁ (fun _ => After b calls p.aligned) E :=
  ⟨h.calls, h.position ▸ rfl⟩

theorem After.openStatement {b b₁ : Block (Recorded σ Slot) Slot} {calls : List (Call Slot)}
    {p : Position} (h : After b calls p b₁) {E : Failure → Block (Recorded σ Slot) Slot → Prop} :
    Leads Block.openStatement b₁ (fun _ => After b calls p.opened) E :=
  ⟨h.calls, h.position ▸ rfl⟩

theorem leads_emitString (start : Nat) (bytes : List Byte) {item : Item}
    {b b₁ : Block (Recorded σ Slot) Slot} {n : Nat}
    (hseen : item.seen b.position = item.placed b.position)
    (hb : After b (.replicate n (.evaluate (item.seen b.position).placement.context))
      (item.placed b.position) b₁)
    (hemits : bytes.length ≤ longestString → item.Emits [bytes]) :
    Leads (emitString env.recorded start bytes) b₁ (fun _ => Performed item b)
      (fun _ => Broken item b) := by
  refine .ite (fun _ => ?_) fun h =>
    leads_lay hb (leads_emit bytes b₁) (hemits (Nat.le_of_not_lt h))
  rw [← hseen] at hb
  exact Broken.of_operand hb

theorem after_evaluateAddress (b : Block (Recorded σ Slot) Slot) :
    Leads (evaluateAddress env.recorded) b
      (fun _ b' => After b [.evaluate b.placement.context] b.position b')
      (fun _ b' => After b [.evaluate b.placement.context] b.position b') := by
  refine .get_bind ((after_evaluate b).bind fun value b₁ h => ?_)
  split
  · refine .get_bind ?_
    split
    · exact h
    · exact h
  · exact h

/-- At most 31 words fill up to an alignment. -/
theorem padTo_alignment_le {n : Int64} (hn : alignments.contains n = true) (address : UInt64) :
    (Placement.padTo n.toUInt64 address).toNat / 4 ≤ 31 := by
  -- the alignments are a short list, so their bounds can be checked one by one
  have hall : alignments.all (fun n => 0 < n.toUInt64.toNat ∧ n.toUInt64.toNat ≤ 128) = true := by
    decide
  obtain ⟨hpos, hle⟩ :=
    of_decide_eq_true (List.all_eq_true.mp hall n (List.contains_iff_mem.mp hn))
  have hlt : (Placement.padTo n.toUInt64 address).toNat < n.toUInt64.toNat := by
    rw [Placement.padTo, UInt64.toNat_mod]
    exact Nat.mod_lt _ hpos
  omega

theorem leads_align (b : Block (Recorded σ Slot) Slot) :
    Leads (align env.recorded) b (fun _ => Performed (.statement (some (.directive .align))) b)
      (fun _ => Broken (.statement (some (.directive .align))) b) := by
  have hstart : After b [] b.position b := .of_calls rfl
  refine hstart.alignStart.bind fun _ b₁ h₁ => Leads.bind
    (Q := fun _ => After b [] b.position.aligned) (.modify ⟨h₁.calls, h₁.position⟩) fun _ c hc => ?_
  -- the operand is evaluated where the block has been aligned
  have hoperand {b' : Block (Recorded σ Slot) Slot}
      (h : After c [.evaluate c.placement.context] c.position b') :
      After b [.evaluate b.position.aligned.placement.context] b.position.aligned b' := by
    have hcalls := hc.trans h
    rwa [hc.placement, hc.position] at hcalls
  refine .get_bind (.ite (fun _ => ?_) fun _ => ?_)
  · refine Leads.bind ((after_evaluateInt c).mono (fun _ _ h => hoperand h)
      fun _ _ h => .of_operand (n := 1) (hoperand h)) fun n b₃ h => .ite (fun hn => ?_) fun _ => ?_
    · exact leads_lay (n := 1) h (leads_emitNoOperations _ b₃)
        ⟨_, padTo_alignment_le hn c.placement.logical, rfl⟩
    · exact Broken.of_operand (n := 1) h
  · -- without an operand there is nothing to fill up
    have hnone : Leads (emitNoOperations env.recorded 0) c _ _ := leads_emitNoOperations 0 c
    exact leads_lay (n := 0) hc hnone ⟨0, by decide, rfl⟩

/-- A directive that lays something out. -/
theorem leads_directive (d : Directive) (hd : d ≠ .options)
    (b : Block (Recorded σ Slot) Slot) :
    Leads (directive env.recorded d) b (fun _ => Performed (.statement (some (.directive d))) b)
      (fun _ => Broken (.statement (some (.directive d))) b) := by
  cases d with
  | align => exact leads_align b
  | data =>
    refine .get_bind (Leads.bind ((after_evaluate b).mono (fun _ _ h => h)
      fun _ _ h => .of_operand (n := 1) h) fun value b₁ h => ?_)
    split
    · exact leads_emitString (n := 1) _ _ rfl h fun hle => ⟨_, hle, rfl⟩
    · exact leads_lay (n := 1) h (leads_emit _ b₁) ⟨_, by rw [length_bytesOfNat]; decide, rfl⟩
  | byte | half =>
    refine Leads.bind ((after_evaluateInt b).mono (fun _ _ h => h)
      fun _ _ h => .of_operand (n := 1) h) fun value b₁ h => ?_
    exact leads_lay (n := 1) h (leads_emit _ b₁) ⟨_, rfl⟩
  | word =>
    -- the address is evaluated first, and the block is aligned then
    refine Leads.bind ((after_evaluateAddress b).mono (fun _ _ h => h)
      fun _ _ h => .of_operand (n := 1) h) fun value b₁ h => h.alignStart.bind fun _ b₂ h₂ => ?_
    exact leads_lay (n := 1) h₂ (leads_emit _ b₂) ⟨_, rfl⟩
  | quad =>
    refine Leads.bind ((after_evaluateAddress b).mono (fun _ _ h => h)
      fun _ _ h => .of_operand (n := 1) h) fun value b₁ h => ?_
    exact leads_lay (n := 1) h (leads_emit _ b₁) ⟨_, rfl⟩
  | string =>
    refine .get_bind (Leads.bind ((after_consult (env.called_evaluateAs _ _) b).mono
      (fun _ _ h => h) fun _ _ h => .of_operand (n := 1) h) fun bytes b₁ h => ?_)
    exact leads_emitString (n := 1) _ _ rfl h fun hle => ⟨_, hle, rfl⟩
  | options => exact absurd rfl hd

theorem leads_instruction (mnemonic : String) (i : Instruction)
    (b : Block (Recorded σ Slot) Slot) :
    Leads (instruction env.recorded mnemonic i.encoder) b
      (fun _ => Performed (.statement (some (.instruction i))) b)
      (fun _ => Broken (.statement (some (.instruction i))) b) := by
  have hstart : After b [] b.position b := .of_calls rfl
  refine hstart.alignStart.bind fun _ b₁ h₁ => ?_
  -- the operands are evaluated where the block has been aligned
  have hoperands {b' : Block (Recorded σ Slot) Slot}
      (h : ∃ n, After b₁ (.replicate n (.evaluate b₁.placement.context)) b₁.position b') :
      ∃ n, After b (.replicate n (.evaluate b.position.aligned.placement.context))
        b.position.aligned b' := by
    obtain ⟨n, h⟩ := h
    have hcalls := h₁.trans h
    rw [h₁.placement, h₁.position] at hcalls
    exact ⟨n, hcalls⟩
  refine Leads.bind ((after_operands mnemonic i.encoder b₁).mono (fun _ _ h => hoperands h)
    fun _ _ h => ?_) fun encoding b₂ ⟨n, h⟩ => ?_
  · obtain ⟨n, h⟩ := hoperands h
    exact Broken.of_operand h
  · exact leads_lay h (leads_emit _ b₂) ⟨_, rfl⟩

theorem leads_unsupported (mnemonic : String) (fault : Fault) (b : Block (Recorded σ Slot) Slot)
    {Q : Unit → Block (Recorded σ Slot) Slot → Prop} :
    Leads (instruction env.recorded mnemonic (Reader.failHere fault)) b Q
      (fun _ => Broken (.statement (some .unsupported)) b) := by
  have hstart : After b [] b.position b := .of_calls rfl
  refine hstart.alignStart.bind fun _ b₁ h₁ => ?_
  exact (Broken.of_operand (n := 0) ⟨h₁.calls, h₁.position⟩ :
    Broken (.statement (some .unsupported)) b b₁)

/-! ## Items -/

/-- What an item does that succeeds. -/
def Done (item : Item) (b b' : Block (Recorded σ Slot) Slot) : Prop :=
  ∃ calls p, Effect item b.position calls p ∧ After b calls p b'

/-- What an item does that fails. -/
def Failed (item : Item) (b b' : Block (Recorded σ Slot) Slot) : Prop :=
  ∃ calls p, Failing item b.position calls p ∧ After b calls p b'

theorem Done.of_same {item : Item} {b c b' : Block (Recorded σ Slot) Slot} (h : Done item c b')
    (hposition : c.position = b.position) (hcalls : c.state.calls = b.state.calls) :
    Done item b b' := by
  obtain ⟨calls, p, heffect, h⟩ := h
  rw [hposition] at heffect
  exact ⟨calls, p, heffect, by rw [h.calls, hcalls], h.position⟩

theorem Failed.of_same {item : Item} {b c b' : Block (Recorded σ Slot) Slot}
    (h : Failed item c b') (hposition : c.position = b.position)
    (hcalls : c.state.calls = b.state.calls) : Failed item b b' := by
  obtain ⟨calls, p, heffect, h⟩ := h
  rw [hposition] at heffect
  exact ⟨calls, p, heffect, by rw [h.calls, hcalls], h.position⟩

/-- Doing what a mnemonic stands for has the effect of the statement. -/
theorem leads_perform (m : Mnemonic) (b : Block (Recorded σ Slot) Slot) :
    Leads (perform env.recorded m) b (fun _ => Done (.statement (some m.meaning)) b)
      (fun _ => Failed (.statement (some m.meaning)) b) := by
  -- but for options, the block is settled first
  have hsettled {item : Item} (hlays : item.lays = true)
      {x : Assembling (Recorded σ Slot) Slot Unit}
      (h : Leads x { b with fresh := false } (fun _ => Performed item { b with fresh := false })
        (fun _ => Broken item { b with fresh := false })) :
      Leads x { b with fresh := false } (fun _ => Done item b) (fun _ => Failed item b) :=
    h.mono (fun _ _ ⟨calls, p, h, hafter⟩ => ⟨calls, p, .lay h, hafter.calls, hafter.position⟩)
      fun _ _ ⟨calls, p, h, hafter⟩ => ⟨calls, p, .lay hlays h, hafter.calls, hafter.position⟩
  rw [perform]
  split
  · next hm =>
    rw [hm]
    exact Leads.bind ((after_evaluateInt b).mono (fun _ _ h => h)
      fun _ _ h => ⟨_, _, .options b.position, h⟩) fun n b₁ h =>
        .modify ⟨_, _, .options b.position (.ofInt n.toInt), h.calls, by rw [← h.position]; rfl⟩
  · next d hd hm =>
    rw [hm]
    refine .modify_bind (hsettled ?_ (leads_directive d hd _))
    cases d with
    | options => exact absurd rfl hd
    | _ => rfl
  · next i hm =>
    rw [hm]
    exact .modify_bind (hsettled rfl (leads_instruction m.name i _))
  · next hm =>
    rw [hm]
    exact .modify_bind (hsettled rfl (leads_unsupported m.name _ _))

theorem leads_statement_effect (b : Block (Recorded σ Slot) Slot) :
    Leads (statement env.recorded) b
      (fun _ => Done (.statement ((Mnemonic.lookup b.cursor).1.map Mnemonic.meaning)) b)
      (fun _ => Failed (.statement ((Mnemonic.lookup b.cursor).1.map Mnemonic.meaning)) b) := by
  rw [Leads, statement_eq]
  rcases Mnemonic.lookup b.cursor with ⟨_ | m, cursor⟩
  · exact ⟨_, _, .unknown b.position, (List.append_nil _).symm, rfl⟩
  · exact (leads_perform m { b with cursor }).mono
      (fun _ _ h => h.of_same rfl rfl) fun _ _ h => h.of_same rfl rfl

theorem calls_of_list (rows : List String) (w : Recorded σ Slot) :
    (rows.foldl (fun state row => env.recorded.listing row state) w).calls = w.calls := by
  induction rows generalizing w with
  | nil => rfl
  | cons row rows ih => exact ih (env.recorded.listing row w)

/-- What is flushed at the end of a statement goes from its start up to the end of the code. -/
theorem after_closeStatement (stop : Nat) (b : Block (Recorded σ Slot) Slot)
    {E : Failure → Block (Recorded σ Slot) Slot → Prop} :
    Leads (closeStatement env.recorded stop) b (fun _ => After b b.position.flushes b.position)
      E := by
  refine .get_bind ?_
  -- listing shows in no call, so what remains to be done is to flush
  have hflush {c : Block (Recorded σ Slot) Slot} (hcalls : c.state.calls = b.state.calls)
      (hposition : c.position = b.position) :
      Leads (if (!b.placement.options.offset && b.placement.logical != b.address) = true then
          modifyState (env.recorded.flush b.address b.placement.logical) >>= fun _ =>
            modify fun b => { b with emitted := [] }
        else modify fun b => { b with emitted := [] } : Assembling (Recorded σ Slot) Slot Unit) c
        (fun _ => After b b.position.flushes b.position) E := by
    refine .ite (fun h => .modify_bind (.modify ⟨?_, hposition⟩)) fun h => .modify ⟨?_, hposition⟩
    · rw [Position.flushes]
      exact (congrArg (· ++ _) hcalls).trans (congrArg _ (if_pos h).symm)
    · rw [Position.flushes]
      exact hcalls.trans ((List.append_nil _).symm.trans (congrArg _ (if_neg h).symm))
  refine .ite (fun _ => .modify_bind ?_) fun _ => hflush rfl rfl
  exact hflush (calls_of_list _ b.state) rfl

theorem after_finish (stop : Nat) (b : Block (Recorded σ Slot) Slot)
    {E : Failure → Block (Recorded σ Slot) Slot → Prop} :
    Leads (finish env.recorded stop) b
      (fun _ => After b b.position.flushes (b.position.withOptions .standard)) E := by
  refine .get_bind (.ite (fun _ => ?_) fun h => .modify ⟨?_, rfl⟩)
  · exact (after_closeStatement stop b).bind fun _ b₁ h =>
      .modify ⟨h.calls, by rw [← h.position]; rfl⟩
  · -- without code in the statement there is nothing to flush
    have hsame : (b.placement.logical != b.address) = false := by
      rw [Bool.or_eq_true, not_or] at h
      exact Bool.eq_false_iff.mpr h.1
    have hnone : (b.position.flushes : List (Call Slot)) = [] := by
      rw [Position.flushes, position, hsame, Bool.and_false, if_neg Bool.false_ne_true]
    rw [hnone, List.append_nil]

theorem position_atLabel (b : Block σ Slot) : b.atLabel.position = b.position.labelled := by
  rcases b with ⟨placement, state, cursor, start, address, emitted, _ | _, labels⟩
  · rfl
  · rfl

variable [DecidableEq Slot]

theorem leads_label_effect (b : Block (Recorded σ Slot) Slot) :
    Leads (label env.recorded) b (fun _ => Done .label b) (fun _ => Failed .label b) := by
  have hstart : After b [] b.position.labelled b.atLabel :=
    ⟨by rw [atLabel_state, List.append_nil], position_atLabel b⟩
  -- to read the name is no call
  have hname : Leads (consult env.recorded.slot) b.atLabel
      (fun _ => After b [] b.position.labelled) (fun _ => After b [] b.position.labelled) := by
    rw [consult_eq_within]
    exact .within ((env.called_slot _).mono
      (fun _ _ h => ⟨h.trans hstart.calls, hstart.position⟩)
      fun _ _ h => ⟨h.trans hstart.calls, hstart.position⟩)
  rw [Leads, label_eq]
  refine Leads.bind (hname.mono (fun _ _ h => h) fun _ _ h => ⟨_, _, .label b.position, h⟩)
    fun named b₁ h => ?_
  have hfail : Failed .label b b₁ := ⟨_, _, .label b.position, h⟩
  -- the address is that of the block as it stands there
  have hstore {b' : Block (Recorded σ Slot) Slot}
      (h' : After b₁ [.store named.1 b₁.placement.logical] b₁.position b') :
      After b [.store named.1 b.position.labelled.placement.logical] b.position.labelled b' := by
    have hcalls := h.trans h'
    rwa [h.placement, h.position] at hcalls
  refine .get_bind (.ite (fun _ => hfail) fun _ => .ite (fun _ => hfail) fun _ => ?_)
  refine Leads.bind ((after_request (env.called_store _ _) b₁).mono (fun _ _ h => hstore h)
    fun _ _ h => ⟨_, _, .store b.position named.1, hstore h⟩) fun _ b₂ h => .modify ?_
  exact ⟨_, _, .label b.position named.1, h.calls, h.position⟩

/-- Every item has an effect on record: of an item that succeeds, if it is the last one or not, and
of an item that fails. -/
theorem leads_item_effect (b : Block (Recorded σ Slot) Slot) :
    Leads (item env.recorded) b
      (fun next b' => Done b.upcoming b b' ∧ (next = .stop ↔ b.upcoming = .close))
      (fun _ => Failed b.upcoming b) := by
  -- only the end of a block is its last item
  have hmore {item : Item} (hitem : b.upcoming = item) (hclose : item ≠ .close) :
      Next.more = .stop ↔ b.upcoming = .close := by
    rw [hitem]
    exact iff_of_false nofun hclose
  refine leads_item (fun f _ hitem => ?_) (fun _ hitem => ?_) (fun _ _ hitem => ?_)
    (fun _ hitem => ?_) fun _ hitem => ?_
  · refine .modify_bind ((after_finish _ _).bind fun _ b₁ h => .pure ⟨?_, iff_of_true rfl hitem⟩)
    rw [hitem]
    exact ⟨_, _, .close b.position, h.calls, h.position⟩
  · refine .modify_bind ((after_closeStatement _ _).bind fun _ b₁ h =>
      h.openStatement.bind fun _ b₂ h => .pure ⟨?_, hmore hitem nofun⟩)
    rw [hitem]
    exact ⟨_, _, .separator b.position, h.calls, h.position⟩
  · refine ⟨?_, hmore hitem nofun⟩
    rw [hitem]
    exact ⟨_, _, .comment b.position, (List.append_nil _).symm, rfl⟩
  · rw [hitem]
    exact (leads_label_effect b.atItem).mono
      (fun _ _ h => ⟨h.of_same rfl rfl, hitem ▸ hmore hitem nofun⟩) fun _ _ h => h.of_same rfl rfl
  · rw [hitem]
    exact (leads_statement_effect b.atItem).mono
      (fun _ _ h => ⟨h.of_same rfl rfl, hitem ▸ hmore hitem nofun⟩) fun _ _ h => h.of_same rfl rfl

end Block

end InlineA64
