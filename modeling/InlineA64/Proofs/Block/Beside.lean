import InlineA64.Proofs.Block.Evaluation
import InlineA64.Proofs.Block.Mnemonic
import InlineA64.Proofs.Block.Run
import InlineA64.Proofs.Block.Standing
import InlineA64.Proofs.Embeds.Reader

/-!
# Blocks beside each other

Two blocks can be assembled side by side, the text of the second being that of the first with more
before and behind it. If what they come to is related in a way that each thing a block does keeps
(`Simulation`), and every expression that the first evaluates has a value in the second that comes
to the same (`Evaluation.CarriesWhere`), then each item that succeeds in the first does so in the
second, and what the two come to is related again (`Block.tracks_item`). So it is of the items of a
run (`Block.Beside.proceeds`), up to the last (`Block.Beside.complete`).
-/

namespace InlineA64

open Cursor (Embeds)
open Machine (environment)

variable {before behind : Array Byte} {S R : Standing → Standing → Prop}

/-- Data and instructions keep the relation `S` of what two blocks come to: what is written to the
memory of the first can be written to that of the second. -/
structure DataSimulation (S : Standing → Standing → Prop) : Prop where
  aligned {k k' : Standing} : S k k' → S (k.onPosition .aligned) (k'.onPosition .aligned)
  wrote {k k' : Standing} {bytes : List Byte} {image : Image} : S k k' →
    k.machine.image.write k.position.placement.writeAddress bytes = .ok image →
    ∃ image', k'.machine.image.write k'.position.placement.writeAddress bytes = .ok image' ∧
      S (k.wrote bytes.length image) (k'.wrote bytes.length image')
  rangeCheck {k k' : Standing} : S k k' → k'.position.placement.options.rangeCheck = true →
    k.position.placement.options.rangeCheck = true
  padding {k k' : Standing} {n : Int64} : S k k' → Block.alignments.contains n = true →
    Placement.padTo n.toUInt64 k.position.placement.logical =
      Placement.padTo n.toUInt64 k'.position.placement.logical
  symbols {k k' : Standing} : S k k' → k.machine.symbols = k'.machine.symbols
  systemCalls {k k' : Standing} : S k k' → k.machine.systemCalls = k'.machine.systemCalls

/-- All that an item does keeps the relation `R` of what two blocks come to, if each label that is
bound is one of those allowed. Data and instructions come only when it has been noted that they
do. -/
structure Simulation (Allowed : Name → Prop) (R : Standing → Standing → Prop) : Prop where
  data : DataSimulation fun k k' => R k k' ∧ k.position.fresh = false
  settled {k k' : Standing} : R k k' → R (k.onPosition .settled) (k'.onPosition .settled)
  labelled {k k' : Standing} : R k k' → R (k.onPosition .labelled) (k'.onPosition .labelled)
  opened {k k' : Standing} : R k k' → R (k.onPosition .opened) (k'.onPosition .opened)
  flushed {k k' : Standing} : R k k' → R k.flushed k'.flushed
  bound {k k' : Standing} {name : Name} : R k k' → Allowed name → k.Free name →
    k'.Free name ∧ R (k.bind name) (k'.bind name)
  atLimit {k k' : Standing} : R k k' → k.position.placement.atLimit = false →
    k'.position.placement.atLimit = false

/-- An expression has a value, which comes to the same, wherever a block stands beside one in which
it is evaluated. -/
def Evaluation.CarriesWhere (before behind : Array Byte) (S : Standing → Standing → Prop)
    (e : Evaluation) : Prop :=
  ∀ k k', S k k' → e.scope = k.scope → e.Carries before behind k'.scope

theorem Reader.scope_of_mem_evaluations {α : Type} (x : Reader α) {context : Context}
    {mnemonic : String} {r : Reading Machine} {e : Evaluation}
    (h : e ∈ x.evaluations context mnemonic r) : e.scope = ⟨context, r.state.vars⟩ := by
  induction x generalizing r with
  | done a => cases h
  | fail fault at? => cases h
  | ask q next ih =>
    rw [evaluations, List.mem_append] at h
    rcases h with h | h
    · rw [Option.mem_toList] at h
      cases q <;> cases h <;> rfl
    · rcases hanswer : q.answer ⟨environment, context, mnemonic⟩ r with ⟨a, r'⟩ | ⟨e, r'⟩
      · rw [hanswer] at h
        have hvars := q.preserves_answer Machine.environment_keeps context mnemonic hanswer
        rw [ih a h, (Prod.mk.inj hvars).1]
      · rw [hanswer] at h
        cases h

/-- The separator between statements, which is no end of the text. No line feed may follow a
carriage return that is the last byte. -/
theorem Cursor.Embeds.takeSeparator {s s' : Cursor} (h : Embeds before behind s s')
    (hpeek : s.peek ≠ 0)
    (hfeed : s.peek = 0x0d → s.pos + 1 = s.text.size → ∀ c ∈ behind[0]?, c ≠ 0x0a) :
    Embeds before behind (Block.takeSeparator s) (Block.takeSeparator s') := by
  have hnext := h.advance_one hpeek
  have hfeeds : (s'.peek == 0x0d && (s'.advance 1).peek == 0x0a) =
      (s.peek == 0x0d && (s.advance 1).peek == 0x0a) := by
    rw [h.peek_eq hpeek]
    by_cases hreturn : s.peek = 0x0d
    · rcases Nat.lt_or_eq_of_le hnext.inside with hlt | hend
      · rw [hnext.peek_of_lt hlt]
      · -- what follows the return is behind the text
        have hsize : s.pos + 1 = s.text.size := by
          have hpos := pos_lt_of_peek hpeek
          simp only [Cursor.advance] at hend
          omega
        have hzero : (s.advance 1).peek = 0 := byteAt_of_size_le (Nat.le_of_eq hend.symm)
        rw [hzero, hnext.peek_of_end hend]
        rcases hc : behind[0]? with _ | c
        · rfl
        · rw [Option.getD_some, beq_eq_false_iff_ne.mpr (hfeed hreturn hsize c hc)]
          rfl
    · rw [beq_eq_false_iff_ne.mpr hreturn, Bool.false_and, Bool.false_and]
  rw [Block.takeSeparator, Block.takeSeparator, hfeeds]
  split
  · next hfeed =>
    refine hnext.advance_one fun hpeek => ?_
    rw [hpeek, Bool.and_eq_true] at hfeed
    cases hfeed.2
  · exact hnext

namespace Block

/-- Two blocks are at one place, in a text and in a longer one around it, and what they come to is
related. -/
structure Beside (before behind : Array Byte) (S : Standing → Standing → Prop)
    (b b' : Block Machine Name) : Prop where
  cursor : Embeds before behind b.cursor b'.cursor
  standing : S b.standing b'.standing

variable {b b' c : Block Machine Name}

/-! ## Data and instructions -/

section Data

variable (hS : DataSimulation S) (h : Beside before behind S b b')

section Evaluating

variable (hcarries : b.operand.CarriesWhere before behind S)
include h hcarries

theorem tracks_evaluate : Tracks (evaluate environment) b (evaluate environment) b'
    fun v c v' c' => v = v' ∧ Beside before behind S c c' := by
  have hcarried : b.operand.Carries before behind ⟨b'.placement.context, b'.state.vars⟩ :=
    hcarries b.standing b'.standing h.standing rfl
  have hthere := Machine.tracks_evaluate (e := b.operand) (w := b.state) rfl hcarried h.cursor
  refine .get_bind ?_
  rw [consult_eq_within, consult_eq_within]
  refine .within (hthere.mono ?_)
  rintro v ⟨s, w⟩ v' ⟨s', w'⟩ ⟨hv, hs, honward, rfl, rfl⟩
  exact ⟨hv, h.cursor.advanceTo hs honward.text, h.standing⟩

theorem tracks_evaluateAs {α : Type} (view : Value → Option α) :
    Tracks (consult (environment.evaluateAs view b.placement.context)) b
      (consult (environment.evaluateAs view b'.placement.context)) b'
      fun a c a' c' => a = a' ∧ Beside before behind S c c' := by
  intro a c hconsult
  obtain ⟨s, w, ha, rfl⟩ := consult_eq_ok.mp hconsult
  obtain ⟨v, hv, ha⟩ := Environment.evaluateAs_eq_ok.mp ha
  obtain ⟨v', c', hevaluate, rfl, hc⟩ :=
    tracks_evaluate h hcarries (consult_eq_ok.mpr ⟨s, w, hv, rfl⟩)
  obtain ⟨s', w', hv', rfl⟩ := consult_eq_ok.mp hevaluate
  exact ⟨a, _, consult_eq_ok.mpr ⟨s', w', Environment.evaluateAs_eq_ok.mpr ⟨v, hv', ha⟩, rfl⟩,
    rfl, hc⟩

theorem tracks_evaluateInt : Tracks (evaluateInt environment) b (evaluateInt environment) b'
    fun n c n' c' => n = n' ∧ Beside before behind S c c' :=
  .get_bind (tracks_evaluateAs h hcarries Value.toInt?)

end Evaluating

include hS h

theorem tracks_emit (bytes : List Byte) : Tracks (emit environment bytes) b
    (emit environment bytes) b' fun _ c _ c' => Beside before behind S c c' := by
  intro u c hc
  obtain ⟨image, himage, hcursor, hstanding⟩ := emit_eq_ok hc
  obtain ⟨image', himage', hS'⟩ := hS.wrote h.standing himage
  obtain ⟨c', hc', hcursor', hstanding'⟩ := exists_emit himage'
  refine ⟨(), c', hc', ?_, ?_⟩
  · rw [hcursor, hcursor']
    exact h.cursor
  · rw [hstanding, hstanding']
    exact hS'

theorem tracks_emitNoOperations {count count' : Nat} (hcount : count = count') :
    Tracks (emitNoOperations environment count) b (emitNoOperations environment count') b'
      fun _ c _ c' => Beside before behind S c c' := by
  subst hcount
  -- the induction is on the no-operations that are left to write
  induction count generalizing b b' with
  | zero => exact .pure h
  | succ count ih => exact (tracks_emit hS h _).bind fun _ _ _ _ hc => ih hc

theorem tracks_emitString (start start' : Nat) (bytes : List Byte) :
    Tracks (emitString environment start bytes) b (emitString environment start' bytes) b'
      fun _ c _ c' => Beside before behind S c c' :=
  .ite Iff.rfl (fun _ => .of_eq_error rfl) fun _ => tracks_emit hS h bytes

theorem tracks_alignStart : Tracks (alignStart : Assembling Machine Name Unit) b alignStart b'
    fun _ c _ c' => Beside before behind S c c' :=
  .modify ⟨h.cursor, hS.aligned h.standing⟩

theorem addressOf?_congr (name : List Byte) :
    addressOf? environment b.state name = addressOf? environment b'.state name := by
  have hsymbols : b.state.symbols = b'.state.symbols := hS.symbols h.standing
  have hsystemCalls : b.state.systemCalls = b'.state.systemCalls := hS.systemCalls h.standing
  simp only [addressOf?, environment, hsymbols, hsystemCalls]

section Operand

variable (hcarries : b.operand.CarriesWhere before behind S)
include hcarries

theorem tracks_evaluateAddress :
    Tracks (evaluateAddress environment) b (evaluateAddress environment) b'
      fun n c n' c' => n = n' ∧ Beside before behind S c c' := by
  refine .get_bind ((tracks_evaluate h hcarries).bind fun v c v' c' ⟨hv, hc⟩ => ?_)
  subst hv
  split
  · refine .get_bind ?_
    rw [← addressOf?_congr hS hc]
    split
    · exact .pure ⟨rfl, hc⟩
    · exact .of_eq_error rfl
  · exact .pure ⟨rfl, hc⟩

theorem tracks_data : Tracks (data environment) b (data environment) b'
    fun _ c _ c' => Beside before behind S c c' := by
  refine .get_bind ((tracks_evaluate h hcarries).bind fun v c v' c' ⟨hv, hc⟩ => ?_)
  subst hv
  split
  · exact tracks_emitString hS hc _ _ _
  · exact tracks_emit hS hc _

theorem tracks_string : Tracks (string environment) b (string environment) b'
    fun _ c _ c' => Beside before behind S c c' := by
  refine .get_bind ((tracks_evaluateAs h hcarries _).bind fun bytes c bytes' c' ⟨hbytes, hc⟩ => ?_)
  subst hbytes
  exact tracks_emitString hS hc _ _ _

end Operand

theorem tracks_align
    (hcarries : ∀ e ∈ b.directiveEvaluations .align, e.CarriesWhere before behind S) :
    Tracks (align environment) b (align environment) b'
      fun _ c _ c' => Beside before behind S c c' := by
  have halignment : Beside before behind S b.atAlignment b'.atAlignment :=
    ⟨h.cursor.skipBlanks, hS.aligned h.standing⟩
  have hdigit : (b'.atAlignment.cursor.peek.isDigit && b'.atAlignment.cursor.peek != '0'.toUInt8) =
      (b.atAlignment.cursor.peek.isDigit && b.atAlignment.cursor.peek != '0'.toUInt8) :=
    halignment.cursor.test_peek (f := fun byte => byte.isDigit && byte != '0'.toUInt8) (by decide)
  refine .modify_bind (.modify_bind (.get_bind (?_ : Tracks _ b.atAlignment _ b'.atAlignment _)))
  refine .ite (iff_of_eq (congrArg (· = true) hdigit.symm)) (fun hnumber => ?_) fun _ =>
    .pure halignment
  -- only where a number follows is there an operand to be evaluated
  have hmem : b.atAlignment.operand ∈ b.directiveEvaluations .align := by
    rw [directiveEvaluations]
    exact (if_pos hnumber).symm ▸ List.mem_singleton_self _
  refine (tracks_evaluateInt halignment (hcarries _ hmem)).bind fun n c n' c' ⟨hn, hc⟩ => ?_
  subst hn
  refine .ite Iff.rfl (fun hn => ?_) fun _ => .of_eq_error rfl
  have hpad := hS.padding halignment.standing hn
  exact tracks_emitNoOperations hS hc (congrArg (·.toNat / 4) hpad)

theorem tracks_directive {d : Directive} (hd : d ≠ .options)
    (hcarries : ∀ e ∈ b.directiveEvaluations d, e.CarriesWhere before behind S) :
    Tracks (directive environment d) b (directive environment d) b'
      fun _ c _ c' => Beside before behind S c c' := by
  cases d with
  | align => exact tracks_align hS h hcarries
  | data => exact tracks_data hS h (hcarries _ (List.mem_singleton_self _))
  | byte | half =>
    refine (tracks_evaluateInt h (hcarries _ (List.mem_singleton_self _))).bind
      fun n c n' c' ⟨hn, hc⟩ => ?_
    subst hn
    exact tracks_emit hS hc _
  | word =>
    refine (tracks_evaluateAddress hS h (hcarries _ (List.mem_singleton_self _))).bind
      fun n c n' c' ⟨hn, hc⟩ => ?_
    subst hn
    -- the padding comes behind the value, which both runs have by now
    exact (tracks_alignStart hS hc).bind fun _ _ _ _ hc => tracks_emit hS hc _
  | quad =>
    refine (tracks_evaluateAddress hS h (hcarries _ (List.mem_singleton_self _))).bind
      fun n c n' c' ⟨hn, hc⟩ => ?_
    subst hn
    exact tracks_emit hS hc _
  | string => exact tracks_string hS h (hcarries _ (List.mem_singleton_self _))
  | options => exact absurd rfl hd

theorem tracks_operands {α : Type} {mnemonic : String} {reader : Reader α}
    (hcarries : ∀ e ∈ reader.evaluations b.placement.context mnemonic ⟨b.cursor, b.state, []⟩,
      e.CarriesWhere before behind S) :
    Tracks (operands environment mnemonic reader) b (operands environment mnemonic reader) b'
      fun a c a' c' => a = a' ∧ Beside before behind S c c' := by
  have hreading : Reading.Beside before behind b.state b'.state ⟨b.cursor, b.state, []⟩
      ⟨b'.cursor, b'.state, []⟩ := ⟨h.cursor, rfl, rfl, rfl⟩
  have hrun : Tracks (reader.run ⟨environment, b.placement.context, mnemonic⟩) _
      (reader.run ⟨environment, b'.placement.context, mnemonic⟩) _ _ :=
    reader.tracks_run (hS.rangeCheck h.standing) hreading fun e he =>
      hcarries e he b.standing b'.standing h.standing (reader.scope_of_mem_evaluations he)
  rw [operands_eq_within]
  refine .get_bind (.within (hrun.mono ?_))
  rintro a ⟨s, w, marks⟩ a' ⟨s', w', marks'⟩ ⟨ha, hr⟩
  -- a reader leaves the machine alone, so that only the cursor has moved
  obtain rfl : w = b.state := hr.left
  obtain rfl : w' = b'.state := hr.right
  exact ⟨ha, hr.cursor, h.standing⟩

theorem tracks_instruction {mnemonic : String} {reader : Reader Encoding}
    (hcarries : ∀ e ∈ reader.evaluations b.placement.align.context mnemonic ⟨b.cursor, b.state, []⟩,
      e.CarriesWhere before behind S) :
    Tracks (instruction environment mnemonic reader) b (instruction environment mnemonic reader) b'
      fun _ c _ c' => Beside before behind S c c' := by
  have haligned : Beside before behind S
      { b with
        placement := b.placement.align, address := b.placement.align.logical, emitted := [] }
      { b' with
        placement := b'.placement.align, address := b'.placement.align.logical, emitted := [] } :=
    ⟨h.cursor, hS.aligned h.standing⟩
  refine .modify_bind ?_
  refine (tracks_operands hS haligned hcarries).bind ?_
  rintro encoding c _ c' ⟨rfl, hc⟩
  exact tracks_emit hS hc _

end Data

/-! ## Items -/

/-- The byte `c` right behind the text does not become part of the next item, and does not hide its
mnemonic. -/
structure Delimits (b : Block Machine Name) (c : Byte) : Prop where
  comment : b.upcoming = .comment →
    (b.atItem.cursor.skipWhile continuesComment).pos = b.atItem.cursor.text.size →
    continuesComment c = false
  separator : b.upcoming = .separator → b.atItem.cursor.peek = 0x0d →
    b.atItem.cursor.pos + 1 = b.atItem.cursor.text.size → c ≠ 0x0a
  mnemonic : ∀ m t, Mnemonic.lookup b.atItem.cursor = (some m, t) → m.missedBeforeRem = true →
    t.pos = t.text.size → c ≠ Byte.remToken

theorem delimits_colon (b : Block Machine Name) : b.Delimits ':'.toUInt8 where
  comment _ _ := rfl
  separator _ _ _ := by decide
  mnemonic _ _ _ _ _ := by decide

/-- What two blocks come to is related behind an item: they have been closed if it was the last. -/
def Behind (R : Standing → Standing → Prop) : Next → Standing → Standing → Prop
  | .more => R
  | .stop => fun k k' => ∃ l l', R l l' ∧ k = l.closed ∧ k' = l'.closed

variable {Allowed : Name → Prop}

/-- What two blocks come to may have any options set on both sides. -/
def Optional (R : Standing → Standing → Prop) : Prop :=
  ∀ (options : Options) (k k' : Standing), R k k' →
    R (k.onPosition (·.withOptions options)) (k'.onPosition (·.withOptions options))

section Items

variable (hR : Simulation Allowed R) (h : Beside before behind R b b')
include hR h

theorem tracks_perform {m : Mnemonic} (hm : m.meaning = .directive .options → Optional R)
    (hcarries : ∀ e ∈ evaluationsOf m b, e.CarriesWhere before behind R) :
    Tracks (perform environment m) b (perform environment m) b'
      fun _ c _ c' => Beside before behind R c c' := by
  -- behind `settle` the blocks have had data or an instruction
  let S k k' := R k k' ∧ k.position.fresh = false
  have hsettled : Beside before behind S { b with fresh := false } { b' with fresh := false } :=
    ⟨h.cursor, hR.settled h.standing, rfl⟩
  have hmono {e : Evaluation} (he : e ∈ evaluationsOf m b) : e.CarriesWhere before behind S :=
    fun k k' hk hscope => hcarries e he k k' hk.1 hscope
  have hbeside {c c' : Block Machine Name} (hc : Beside before behind S c c') :
      Beside before behind R c c' := ⟨hc.cursor, hc.standing.1⟩
  rw [evaluationsOf] at hmono
  rw [perform]
  split
  · next hmeaning =>
    refine (tracks_evaluateInt h (hcarries _ ?_)).bind ?_
    · rw [evaluationsOf, hmeaning]
      exact List.mem_singleton_self _
    · rintro n c _ c' ⟨rfl, hc⟩
      exact .modify ⟨hc.cursor, hm hmeaning (.ofInt n.toInt) _ _ hc.standing⟩
  · next d hd hmeaning =>
    rw [hmeaning] at hmono
    refine .modify_bind ((tracks_directive hR.data hsettled hd fun e he => hmono ?_).mono
      fun _ _ _ _ => hbeside)
    cases d <;> exact he
  · next i hmeaning =>
    rw [hmeaning] at hmono
    exact .modify_bind ((tracks_instruction hR.data hsettled fun e he => hmono he).mono
      fun _ _ _ _ => hbeside)
  · exact .modify_bind ((tracks_instruction hR.data hsettled fun e he =>
      (List.not_mem_nil he).elim).mono
      fun _ _ _ _ => hbeside)

theorem tracks_statement
    (hmissed : ∀ m t, Mnemonic.lookup b.cursor = (some m, t) → m.missedBeforeRem = true →
      t.pos = t.text.size → Byte.remToken ∉ behind[0]?)
    (hm : b.cursor.item = .statement (some (.directive .options)) → Optional R)
    (hstatement : b.cursor.item = .statement ((Mnemonic.lookup b.cursor).1.map Mnemonic.meaning))
    (hcarries : ∀ m t, Mnemonic.lookup b.cursor = (some m, t) →
      ∀ e ∈ evaluationsOf m { b with cursor := t }, e.CarriesWhere before behind R) :
    Tracks (statement environment) b (statement environment) b'
      fun _ c _ c' => Beside before behind R c c' := by
  intro u c hc
  -- a statement that succeeds has a mnemonic, and the text behind cannot make it a longer one
  rcases hlookup : Mnemonic.lookup b.cursor with ⟨_ | m, t⟩
  · rw [statement_eq, hlookup] at hc
    cases hc
  · rw [statement_eq, hlookup] at hc
    obtain ⟨t', hlookup', ht⟩ := lookup_of_perform h.cursor hlookup hc (hmissed m t hlookup)
    have hmeaning (hmeaning : m.meaning = .directive .options) : Optional R := by
      rw [hstatement, hlookup, Option.map_some, hmeaning] at hm
      exact hm rfl
    have hthere : Beside before behind R { b with cursor := t } { b' with cursor := t' } :=
      ⟨ht, h.standing⟩
    rw [statement_eq, hlookup']
    exact tracks_perform hR hthere hmeaning (hcarries m t hlookup) hc

theorem tracks_label (hpeek : b.cursor.peek ≠ 0)
    (hallowed : ∀ name s, Expression.name (b.cursor.advance 1) = .ok name s → Allowed name) :
    Tracks (label environment) b (label environment) b'
      fun _ c _ c' => Beside before behind R c c' := by
  intro u c hc
  -- the name of the label is read behind the dot, when the block has been aligned for it
  have hlabel : Beside before behind R b.atLabel b'.atLabel := by
    refine ⟨?_, ?_⟩
    · rw [cursor_atLabel, cursor_atLabel]
      exact h.cursor.advance_one hpeek
    · rw [standing_atLabel, standing_atLabel]
      exact hR.labelled h.standing
  obtain ⟨name, s, hstarts, hname, hkind, hfree, hc⟩ := label_eq_ok_iff.mp hc
  obtain ⟨_, s', hname', rfl, hs, honward⟩ := Expression.takes_name hlabel.cursor hname
  rw [← hlabel.cursor.test_peek (f := Byte.startsName) (by decide)] at hstarts
  rw [cursor_atLabel] at hname
  obtain ⟨hfree', hbind⟩ := hR.bound hlabel.standing (hallowed name s hname) hfree
  refine ⟨(), _, label_eq_ok_iff.mpr ⟨name, s', hstarts, hname', hkind, hfree', rfl⟩, ?_, ?_⟩
  · rw [hc]
    exact hlabel.cursor.advanceTo hs honward.text
  · rw [hc, standing_bindAt, standing_bindAt]
    exact hbind

theorem tracks_closeStatement (stop stop' : Nat) :
    Tracks (closeStatement environment stop) b (closeStatement environment stop') b'
      fun _ c _ c' => Beside before behind R c c' := by
  refine .of_leads (leads_closeStatement stop b) (leads_closeStatement stop' b') ?_
  rintro _ c _ c' ⟨hcursor, hstanding⟩ ⟨hcursor', hstanding'⟩
  refine ⟨?_, ?_⟩
  · rw [hcursor, hcursor']
    exact h.cursor
  · rw [hstanding, hstanding']
    exact hR.flushed h.standing

theorem tracks_finish (stop stop' : Nat) :
    Tracks (finish environment stop) b (finish environment stop') b'
      fun _ c _ c' => Beside before behind (Behind R .stop) c c' := by
  refine .of_leads (leads_finish stop b) (leads_finish stop' b') ?_
  rintro _ c _ c' ⟨hcursor, hstanding⟩ ⟨hcursor', hstanding'⟩
  refine ⟨?_, b.standing.flushed, b'.standing.flushed, hR.flushed h.standing, hstanding, hstanding'⟩
  rw [hcursor, hcursor']
  exact h.cursor

theorem tracks_openStatement : Tracks (openStatement : Assembling Machine Name Unit) b
    openStatement b' fun _ c _ c' => Beside before behind R c c' :=
  .modify ⟨h.cursor.skipBlanks, hR.opened h.standing⟩

/-- An item that succeeds where its expressions carry over does so beside itself. -/
theorem tracks_item (hdelimits : ∀ c ∈ behind[0]?, b.Delimits c)
    (hpeek : b'.atItem.cursor.peek = b.atItem.cursor.peek)
    (hoptions : b.upcoming = .statement (some (.directive .options)) → Optional R)
    (hcarries : ∀ e ∈ b.evaluations, e.CarriesWhere before behind R)
    (hallowed : b.upcoming = .label → ∀ name s,
      Expression.name (b.atItem.cursor.advance 1) = .ok name s → Allowed name) :
    Tracks (item environment) b (item environment) b'
      fun next c next' c' => next = next' ∧ Beside before behind (Behind R next) c c' := by
  have hthere : Beside before behind R b.atItem b'.atItem := ⟨h.cursor.skipBlanks, h.standing⟩
  have hne : b.upcoming ≠ .close → b.atItem.cursor.peek ≠ 0 := Cursor.peek_ne_zero_of_item
  -- the first byte tells both blocks which item stands there
  have hsame (hother : ∀ meaning?, b.upcoming ≠ .statement meaning?) :
      b'.upcoming = b.upcoming := Cursor.item_congr hpeek hother
  -- a cursor that is moved on on both sides
  have hmoved {f : Cursor → Cursor}
      (hf : Embeds before behind (f b.atItem.cursor) (f b'.atItem.cursor)) :
      Beside before behind R { b.atItem with cursor := f b.atItem.cursor }
        { b'.atItem with cursor := f b'.atItem.cursor } := ⟨hf, h.standing⟩
  refine .of_eq (item_eq environment b) (item_eq environment b') ?_
  cases hitem : b.upcoming with
  | close =>
    rw [hsame (hitem ▸ nofun), hitem]
    have hbehind := hmoved (f := fun s => if s.peek == 0 then s else s.advance 1) <| by
      rw [hpeek]
      split
      · exact hthere.cursor
      · next hzero => exact hthere.cursor.advance_one fun hpeek => hzero (beq_iff_eq.mpr hpeek)
    refine .modify_bind ?_
    exact (tracks_finish hR hbehind _ _).bind fun _ _ _ _ hc => .pure ⟨rfl, hc⟩
  | separator =>
    rw [hsame (hitem ▸ nofun), hitem]
    have hbehind := hmoved (f := takeSeparator) (hthere.cursor.takeSeparator (hne (hitem ▸ nofun))
      fun hreturn hend c hc => (hdelimits c hc).separator hitem hreturn hend)
    refine .modify_bind ?_
    refine (tracks_closeStatement hR hbehind _ _).bind fun _ _ _ _ hc => ?_
    exact (tracks_openStatement hR hc).bind fun _ _ _ _ hc => .pure ⟨rfl, hc⟩
  | comment =>
    rw [hsame (hitem ▸ nofun), hitem]
    have hbehind := hmoved (f := (·.skipWhile continuesComment))
      (hthere.cursor.skipWhile_of_end rfl fun hend c hc => (hdelimits c hc).comment hitem hend)
    exact .modify_bind (.pure ⟨rfl, hbehind⟩)
  | label =>
    rw [hsame (hitem ▸ nofun), hitem]
    exact (tracks_label hR hthere (hne (hitem ▸ nofun)) (hallowed hitem)).bind
      fun _ _ _ _ hc => .pure ⟨rfl, hc⟩
  | statement meaning? =>
    obtain ⟨_, hitem'⟩ : ∃ meaning?', b'.upcoming = .statement meaning?' :=
      Cursor.exists_item_statement hpeek hitem
    obtain rfl := Cursor.meaning?_of_item hitem
    rw [hitem']
    have hmissed (m : Mnemonic) (t : Cursor)
        (hlookup : Mnemonic.lookup b.atItem.cursor = (some m, t))
        (hm : m.missedBeforeRem = true) (hend : t.pos = t.text.size) :
        Byte.remToken ∉ behind[0]? := fun hrem =>
      (hdelimits _ hrem).mnemonic m t hlookup hm hend rfl
    refine (tracks_statement hR hthere hmissed hoptions hitem fun m t hlookup e he => ?_).bind
      fun _ _ _ _ hc => .pure ⟨rfl, hc⟩
    exact hcarries e (evaluations_of_lookup hitem hlookup ▸ he)

end Items

/-! ## Runs -/

/-- An item with more behind it is not the end of the text, and one that is a label binds it. -/
theorem cases_of_item {next : Next} (h : item environment b = .ok next c) :
    (next = .more → b.atItem.cursor.peek ≠ 0) ∧
      (b.upcoming = .label → label environment b.atItem = .ok () c) := by
  have hother {i : Item} (hitem : b.upcoming = i) (hne : i ≠ .label) {P : Prop} :
      b.upcoming = .label → P := fun h => absurd (hitem.symm.trans h) hne
  refine Leads.of_eq_ok (E := fun _ _ => True)
    (Q := fun next c => (next = .more → b.atItem.cursor.peek ≠ 0) ∧
      (b.upcoming = .label → label environment b.atItem = .ok () c))
    (leads_item (fun f _ hitem => ?_) (fun hne hitem => ?_) (fun hne _ hitem => ?_)
      (fun hne hitem => ?_) fun hne hitem => ?_) h
  · exact .modify_bind ((leads_finish _ _).mono (fun _ _ h => h) (fun _ _ _ => trivial) |>.bind
      fun _ _ _ => .pure ⟨nofun, hother hitem nofun⟩)
  · exact .of_forall (fun _ _ => ⟨fun _ => hne, hother hitem nofun⟩) fun _ _ => trivial
  · exact ⟨fun _ => hne, hother hitem nofun⟩
  · exact Leads.self.mono (fun _ _ h => ⟨fun _ => hne, fun _ => h⟩) fun _ _ _ => trivial
  · exact .of_forall (fun _ _ => ⟨fun _ => hne, hother hitem nofun⟩) fun _ _ => trivial

/-- The next item of a block may set the options if it does, each expression that it has evaluated
has a value beside it that comes to the same, and what is behind the text is no part of it. -/
structure Plain (before behind : Array Byte) (R : Standing → Standing → Prop)
    (b : Block Machine Name) : Prop where
  options : b.upcoming = .statement (some (.directive .options)) → Optional R
  carries : ∀ e ∈ b.evaluations, e.CarriesWhere before behind R
  delimits : ∀ c ∈ behind[0]?, b.Delimits c

variable {next : Next}

/-- A step that succeeds where an item is plain does so beside itself, if the text does not end
there, or ends on both sides. -/
theorem Beside.step (hR : Simulation Allowed R) (h : Beside before behind R b b')
    (hplain : b.Plain before behind R) (hstep : Block.step environment b = .ok next c)
    (hlabels : ∀ name ∈ c.labels, Allowed name)
    (hend : next = .stop → b'.atItem.cursor.peek = b.atItem.cursor.peek) :
    ∃ c', Block.step environment b' = .ok next c' ∧ Beside before behind (Behind R next) c c' := by
  obtain ⟨hlimit, hitem⟩ := step_eq_ok.mp hstep
  obtain ⟨hmore, hlabel⟩ := cases_of_item hitem
  -- an item with more behind it is seen alike, and for the last one it is assumed
  have hpeek : b'.atItem.cursor.peek = b.atItem.cursor.peek := by
    cases next with
    | more => exact h.cursor.skipBlanks.peek_eq (hmore rfl)
    | stop => exact hend rfl
  have hallowed : b.upcoming = .label → ∀ name s,
      Expression.name (b.atItem.cursor.advance 1) = .ok name s → Allowed name := by
    intro hupcoming name s hname
    obtain ⟨name', s', -, hname', -, -, hc⟩ := label_eq_ok_iff.mp (hlabel hupcoming)
    rw [cursor_atLabel, hname] at hname'
    cases hname'
    exact hlabels name (by rw [hc]; exact List.mem_cons_self)
  obtain ⟨_, c', hitem', rfl, hc⟩ :=
    tracks_item hR h hplain.delimits hpeek hplain.options hplain.carries hallowed hitem
  exact ⟨c', step_eq_ok.mpr ⟨hR.atLimit h.standing hlimit, hitem'⟩, hc⟩

/-- A run can be followed beside itself as far as its items are plain. -/
theorem Beside.proceeds (hR : Simulation Allowed R) (h : Beside before behind R b b')
    (hplain : ∀ a ∈ stages environment b, a.Plain before behind R)
    (hproceeds : Proceeds environment b c) (hlabels : ∀ name ∈ c.labels, Allowed name) :
    ∃ c', Proceeds environment b' c' ∧ Beside before behind R c c' := by
  induction hproceeds with
  | refl => exact ⟨b', .refl, h⟩
  | tail hproceeds hstep ih =>
    -- a label that was bound before the last item is bound behind it
    obtain ⟨c₁', hproceeds', hc₁⟩ := ih fun name hname => hlabels name (get?_of_step hstep hname).1
    obtain ⟨c', hstep', hc⟩ :=
      hc₁.step hR (hplain _ (mem_stages hproceeds hstep)) hstep hlabels nofun
    exact ⟨c', .tail hproceeds' hstep', hc⟩

/-- With nothing behind the text, a run can be followed beside itself to its end. -/
theorem Beside.complete (hR : Simulation Allowed R) (h : Beside before #[] R b b')
    (hplain : ∀ a ∈ stages environment b, a.Plain before #[] R)
    (hcomplete : Block.complete environment b = .ok .stop c)
    (hlabels : ∀ name ∈ c.labels, Allowed name) :
    ∃ c', Block.complete environment b' = .ok .stop c' ∧
      Beside before #[] (Behind R .stop) c c' := by
  obtain ⟨a, hproceeds, hlast, -⟩ := exists_last environment b
  have hstep := hlast.symm.trans hcomplete
  obtain ⟨a', hproceeds', ha⟩ :=
    h.proceeds hR hplain hproceeds fun name hname => hlabels name (get?_of_step hstep hname).1
  obtain ⟨c', hstep', hc⟩ := ha.step hR (hplain _ (mem_stages hproceeds hstep)) hstep hlabels
    fun _ => ha.cursor.skipBlanks.peek_eq_of_empty
  exact ⟨c', by rw [complete_of_proceeds hproceeds', complete_of_stop hstep'], hc⟩

/-- With nothing behind the text, a block that succeeds does so beside itself. -/
theorem Beside.assemble {placement placement' : Placement} {w w' : Machine} {s s' : Cursor}
    (hR : Simulation Allowed R)
    (h : Beside before #[] R (opened placement w s) (opened placement' w' s'))
    (hplain : ∀ a ∈ stages environment (opened placement w s), a.Plain before #[] R)
    (hlabels : ∀ c, Block.complete environment (opened placement w s) = .ok .stop c →
      ∀ name ∈ c.labels, Allowed name)
    (hok : (Block.assemble environment placement w s).failure = none) :
    ∃ k k', R k k' ∧ (Block.assemble environment placement w s).Closes k ∧
      (Block.assemble environment placement' w' s').Closes k' ∧
      Embeds before #[] (Block.assemble environment placement w s).cursor
        (Block.assemble environment placement' w' s').cursor := by
  obtain ⟨c, hcomplete⟩ := complete_of_assemble hok
  obtain ⟨c', hcomplete', hcursor, k, k', hk, hc, hc'⟩ :=
    h.complete hR hplain hcomplete (hlabels c hcomplete)
  rw [assemble_of_ok hcomplete, assemble_of_ok hcomplete']
  exact ⟨k, k', hk, closes_of_standing hc, closes_of_standing hc', hcursor⟩

end Block

end InlineA64
