import InlineA64.Proofs.Block.Beside
import InlineA64.Proofs.Block.Layout

/-!
# Blocks in two parts

A block that is assembled in two parts, one behind the other, comes to the same as the two with a
colon between them (`Block.parts_match_whole`). What tells the second part from the end of the
whole is that it starts anew (`Block.Resumes`): none of its labels are bound yet, and those before
its first instruction are aligned.
-/

namespace InlineA64

open Cursor (Embeds)
open Machine (environment)

/-- Where code is placed at a multiple of four and a statement starts, aligning changes nothing. -/
theorem Position.aligned_opened {p : Position} (h : p.placement.logical.toNat % 4 = 0) :
    p.opened.aligned = p.opened := by
  have halign : p.opened.placement.align = p.opened.placement := Placement.align_of_mod h
  rw [aligned, halign]
  rfl

/-- The machine that has had ranges flushed before. -/
def Machine.preceded (w : Machine) (ranges : Array (UInt64 × UInt64)) : Machine :=
  { w with flushed := ranges ++ w.flushed }

theorem Machine.preceded_bindLabel (w : Machine) (ranges : Array (UInt64 × UInt64)) (name : Name)
    (address : UInt64) :
    (w.preceded ranges).bindLabel name address = (w.bindLabel name address).preceded ranges := by
  have hvars : (w.preceded ranges).vars = w.vars := rfl
  rw [bindLabel, bindLabel, declare, declare, hvars]
  split <;> rfl

namespace Block

/-- The second of two blocks comes to what the first does, but it may have bound labels and had
instructions before the first has started, and the first may have had ranges flushed. The options of
both are fixed. -/
structure Resumes (o : Options) (names : List Name) (ranges : Array (UInt64 × UInt64))
    (k k' : Standing) : Prop where
  placement : k'.position.placement = k.position.placement
  address : k'.position.address = k.position.address
  options : k.position.placement.options = o
  fresh : k'.position.fresh = k.position.fresh ∨
    k'.position.fresh = false ∧ k.position.aligned = k.position
  labels : k'.labels = k.labels ++ names
  machine : k.machine = k'.machine.preceded ranges

variable {o : Options} {names : List Name} {ranges : Array (UInt64 × UInt64)} {k k' : Standing}

namespace Resumes

theorem fresh_eq (h : Resumes o names ranges k k') (hfresh : k.position.fresh = false) :
    k'.position.fresh = k.position.fresh :=
  h.fresh.elim id fun hsecond => hsecond.1.trans hfresh.symm

theorem aligned (h : Resumes o names ranges k k')
    (hfresh : k'.position.fresh = k.position.fresh) :
    Resumes o names ranges (k.onPosition .aligned) (k'.onPosition .aligned) := by
  have halign : k'.position.placement.align = k.position.placement.align :=
    congrArg Placement.align h.placement
  exact { h with
    placement := halign, address := congrArg Placement.logical halign, fresh := .inl hfresh }

theorem labelled (h : Resumes o names ranges k k') :
    Resumes o names ranges (k.onPosition .labelled) (k'.onPosition .labelled) := by
  rw [Standing.onPosition_labelled, Standing.onPosition_labelled]
  rcases h.fresh with hfresh | ⟨hfresh, haligned⟩
  · rw [hfresh]
    split
    · exact h.aligned hfresh
    · exact h
  · -- the first block aligns its label, which changes nothing
    have hsame : k.onPosition .aligned = k := by rw [Standing.onPosition, haligned]
    rw [hfresh, hsame, ite_self, if_neg Bool.false_ne_true]
    exact h

theorem opened (h : Resumes o names ranges k k') :
    Resumes o names ranges (k.onPosition .opened) (k'.onPosition .opened) where
  placement := h.placement
  address := congrArg Placement.logical h.placement
  options := h.options
  fresh := h.fresh.imp_right fun ⟨hfresh, haligned⟩ => by
    refine ⟨hfresh, ?_⟩
    have hplacement : k.position.placement.align = k.position.placement :=
      congrArg Position.placement haligned
    rw [Standing.onPosition, Position.aligned, Position.opened]
    dsimp only
    rw [hplacement]
  labels := h.labels
  machine := h.machine

theorem flushed (h : Resumes o names ranges k k') :
    Resumes o names ranges k.flushed k'.flushed := by
  have hflushes : k.flushes = ranges ++ k'.flushes := by
    rw [Standing.flushes, Standing.flushes, h.placement, h.address, h.machine]
    split
    · exact (Array.append_push ..).symm
    · rfl
  refine { h with machine := ?_ }
  rw [Standing.flushed, Standing.flushed, hflushes, h.machine]
  rfl

theorem wrote (h : Resumes o names ranges k k') (hfresh : k.position.fresh = false) {count : Nat}
    {image : Image} : Resumes o names ranges (k.wrote count image) (k'.wrote count image) where
  placement := congrArg (Placement.advance · _) h.placement
  address := h.address
  options := h.options
  fresh := .inl (h.fresh_eq hfresh)
  labels := h.labels
  machine := by
    rw [Standing.wrote, Standing.wrote, h.machine]
    rfl

theorem bound (h : Resumes o names ranges k k') {name : Name} (hname : name ∉ names)
    (hfree : k.Free name) : k'.Free name ∧ Resumes o names ranges (k.bind name) (k'.bind name) := by
  -- the second block has not bound the name before it resumed the first
  refine ⟨⟨?_, ?_⟩, { h with labels := ?_, machine := ?_ }⟩
  · rw [h.labels, List.mem_append, not_or]
    exact ⟨hfree.1, hname⟩
  · have hnumber : k'.machine.number? name = k.machine.number? name := by
      rw [h.machine]
      rfl
    rw [h.placement, hnumber]
    exact hfree.2
  · exact congrArg (name :: ·) h.labels
  · rw [Standing.bind, Standing.bind, h.placement, h.machine, Machine.preceded_bindLabel]

/-- A block comes to what it comes to itself. -/
protected theorem self (k : Standing) : Resumes k.position.placement.options [] #[] k k where
  placement := rfl
  address := rfl
  options := rfl
  fresh := .inl rfl
  labels := (List.append_nil _).symm
  machine := by rw [Machine.preceded, Array.empty_append]

end Resumes

/-- All that a block does keeps it so that another one resumes. -/
theorem simulation_resumes : Simulation (· ∉ names) (Resumes o names ranges) where
  data := {
    aligned := fun ⟨h, hfresh⟩ => ⟨h.aligned (h.fresh_eq hfresh), hfresh⟩
    wrote := fun ⟨h, hfresh⟩ hwrite => by
      refine ⟨_, ?_, h.wrote hfresh, hfresh⟩
      rwa [h.machine, ← h.placement] at hwrite
    rangeCheck := fun ⟨h, _⟩ hcheck => by rwa [h.placement] at hcheck
    padding := fun ⟨h, _⟩ _ => by rw [h.placement]
    symbols := fun ⟨h, _⟩ => by rw [h.machine]; rfl
    systemCalls := fun ⟨h, _⟩ => by rw [h.machine]; rfl }
  settled h := { h with fresh := .inl rfl }
  labelled := Resumes.labelled
  opened := Resumes.opened
  flushed := Resumes.flushed
  bound h hname hfree := h.bound hname hfree
  atLimit h hlimit := by rwa [h.placement]

/-- Names stand for the same in both blocks. -/
theorem Resumes.plain {b : Block Machine Name} {before behind : Array Byte}
    (hbehind : ∀ c ∈ behind[0]?, c = ':'.toUInt8)
    (h : b.upcoming ≠ .statement (some (.directive .options))) :
    b.Plain before behind (Resumes o names ranges) where
  options heq := absurd heq h
  carries e _ k k' hk hscope := by
    have hscope' : k'.scope = e.scope := by
      rw [hscope, Standing.scope, Standing.scope, hk.placement, hk.machine]
      rfl
    rw [hscope']
    exact Evaluation.carries_of_value? rfl fun _ _ => id
  delimits c hc := hbehind c hc ▸ b.delimits_colon

/-! ## Two parts -/

variable {b c : Block Machine Name} {next : Next}

/-- No item of a run sets the options. -/
def keepsOptions (b : Block Machine Name) : Bool :=
  (stages environment b).all fun c => c.upcoming != .statement (some (.directive .options))

/-- A run comes to the end of the text: no closing bracket and no byte `0` ends it before. -/
def reachesEnd (b : Block Machine Name) : Bool :=
  (stages environment b).any fun c => c.atItem.cursor.pos == c.cursor.text.size

/-- The labels that have been bound when a run is over. -/
def boundLabels (b : Block Machine Name) : List Name :=
  match complete environment b with
  | .ok _ c | .error _ c => c.labels

theorem plain_of_keepsOptions {before behind : Array Byte}
    (hbehind : ∀ c ∈ behind[0]?, c = ':'.toUInt8) (h : keepsOptions b = true) :
    ∀ c ∈ stages environment b, c.Plain before behind (Resumes o names ranges) := fun c hc =>
  Resumes.plain hbehind (bne_iff_ne.mp (List.all_eq_true.mp h c hc))

variable {placement : Placement} {w : Machine} {s : Cursor}

/-- A block adds to what was flushed before. -/
theorem exists_flushed (hs : s.pos ≤ s.text.size)
    (hoptions : keepsOptions (opened placement w s) = true)
    (hok : (assemble environment placement w s).failure = none) :
    ∃ ranges, (assemble environment placement w s).state.flushed = w.flushed ++ ranges := by
  -- beside the block runs the same one with nothing flushed before
  have hbeside : Beside #[] #[] (Resumes placement.options [] w.flushed)
      (Block.opened placement w s) (Block.opened placement { w with flushed := #[] } s) := by
    refine ⟨(Cursor.embeds_self hs).skipBlanks, rfl, rfl, rfl, .inl rfl, rfl, ?_⟩
    change w.unlisted = { w.unlisted with flushed := w.flushed ++ #[] }
    rw [Array.append_empty]
    rfl
  obtain ⟨l, l', hl, hclosed, -, -⟩ := hbeside.assemble simulation_resumes
    (plain_of_keepsOptions nofun hoptions) (fun _ _ _ _ => List.not_mem_nil) hok
  refine ⟨l'.machine.flushed, ?_⟩
  rw [hclosed.flushed, hl.machine]
  rfl

theorem boundLabels_of_eq_ok (h : complete environment b = .ok next c) :
    boundLabels b = c.labels := by
  rw [boundLabels, h]

/-- What a block comes to that starts where another one is closed. -/
def restarted (k : Standing) : Standing :=
  ⟨⟨k.position.placement, k.position.placement.logical, true⟩, [], k.flushed.machine⟩

/-- A block that starts with the options of the one before it stands where that stood. -/
theorem standing_opened (h : c.standing = k.flushed.closed)
    (hoptions : k.position.placement.options = o) (s : Cursor) :
    (Block.opened (c.placement.withOptions o) c.state s).standing = restarted k := by
  have hplacement : c.placement = k.position.placement.withOptions .standard :=
    congrArg (fun k : Standing => k.position.placement) h
  have hmachine : c.state.unlisted = k.flushed.machine := congrArg Standing.machine h
  have hopened : (Block.opened (c.placement.withOptions o) c.state s).standing =
      ⟨⟨c.placement.withOptions o, c.placement.logical, true⟩, [], c.state.unlisted⟩ := rfl
  rw [hopened, hplacement, hmachine, ← hoptions]
  rfl

/-- The statement behind a colon resumes a block that starts there. -/
theorem Resumes.restarted (h : Resumes o [] #[] k k')
    (hmultiple : k.position.placement.logical.toNat % 4 = 0) :
    Resumes o k.labels #[] (Block.restarted k) (k'.flushed.onPosition .opened) where
  placement := h.placement
  address := congrArg Placement.logical h.placement
  options := h.options
  fresh := by
    cases hfresh : k'.position.fresh with
    | true => exact .inl hfresh
    | false =>
      exact .inr ⟨hfresh, Position.aligned_opened
        (p := ⟨k.position.placement, k.position.placement.logical, true⟩) hmultiple⟩
  labels := h.labels.trans (List.append_nil _)
  machine := h.flushed.machine

/-- Two blocks of which the second resumes the first, with nothing flushed before, end alike. -/
theorem Resumes.same (h : Resumes o names #[] k k') {first second : Outcome Machine}
    (hfirst : first.Closes k) (hsecond : second.Closes k') :
    second.state.image = first.state.image ∧ second.state.vars = first.state.vars ∧
      second.placement = first.placement ∧ second.state.flushed = first.state.flushed := by
  have hmachine : k'.machine = k.machine := by
    rw [h.machine, Machine.preceded, Array.empty_append]
  refine ⟨?_, ?_, ?_, ?_⟩
  · rw [hfirst.image, hsecond.image, hmachine]
  · rw [hfirst.vars, hsecond.vars, hmachine]
  · rw [hfirst.placement, hsecond.placement, h.placement]
  · rw [hfirst.flushed, hsecond.flushed, hmachine]

/-- The bytes behind a text that a colon follows. -/
def colonThen (text : Array Byte) : Array Byte :=
  #[':'.toUInt8] ++ text

theorem getElem?_colonThen (text : Array Byte) : (colonThen text)[0]? = some ':'.toUInt8 :=
  Array.getElem?_append_left Nat.zero_lt_one

theorem eq_of_mem_colonThen (text : Array Byte) : ∀ c ∈ (colonThen text)[0]?, c = ':'.toUInt8 := by
  intro c hc
  rw [getElem?_colonThen] at hc
  exact (Option.some.inj hc).symm

/-- Two texts with a colon between them. -/
def joined (text text' : Array Byte) : Array Byte :=
  text ++ colonThen text'

/-- The text before a colon is inside the whole. -/
theorem embeds_before_colon (text text' : Array Byte) :
    Embeds #[] (colonThen text') (.ofBytes text) (.ofBytes (joined text text')) where
  text := by
    change text ++ colonThen text' = #[] ++ text ++ colonThen text'
    rw [Array.empty_append]
  pos := rfl
  inside := Nat.zero_le _
  stop b hb := eq_of_mem_colonThen text' b hb ▸ by decide

/-- The text behind a colon is inside the whole. -/
theorem embeds_behind_colon {s s' : Cursor} {text : Array Byte}
    (h : Embeds #[] (colonThen text) s s') (hend : s.pos = s.text.size) :
    Embeds (s.text ++ #[':'.toUInt8]) #[] (.ofBytes text) (s'.advance 1) where
  text := by
    change s'.text = s.text ++ #[':'.toUInt8] ++ text ++ #[]
    rw [h.text, Array.append_empty, Array.empty_append, Array.append_assoc]
    rfl
  pos := by
    have hsize := h.size
    have hpos := h.pos
    simp only [Cursor.advance, Cursor.ofBytes, colonThen, Array.size_append, List.size_toArray,
      List.length_cons, List.length_nil] at hsize hpos ⊢
    omega
  inside := Nat.zero_le _
  stop b hb := by simp at hb

/-- Where a run comes to the end of its text, one in a text that goes on behind a colon resumes the
run of what is there. -/
theorem exists_resumed {text : Array Byte} {b' : Block Machine Name}
    (h : Beside #[] (colonThen text) (Resumes o [] #[]) b b') (hoptions : keepsOptions b = true)
    (hend : reachesEnd b = true) :
    ∃ c d' before, complete environment b = .ok .stop c ∧ Proceeds environment b' d' ∧
      (c.placement.logical.toNat % 4 = 0 → Beside before #[] (Resumes o c.labels #[])
        (Block.opened (c.placement.withOptions o) c.state (.ofBytes text)) d') := by
  obtain ⟨a, hmem, hpos⟩ := List.any_eq_true.mp hend
  obtain ⟨hproceeds, next, c, hstep⟩ := of_mem_stages hmem
  rw [beq_iff_eq] at hpos
  obtain ⟨rfl, hclosed⟩ :=
    standing_of_end (Cursor.byteAt_of_size_le (Nat.le_of_eq hpos.symm)) hstep
  have hcomplete := (complete_of_proceeds hproceeds).trans (complete_of_stop hstep)
  -- what is the end of one text is the colon in the other
  obtain ⟨a', hproceeds', ha⟩ := h.proceeds simulation_resumes
    (plain_of_keepsOptions (eq_of_mem_colonThen text) hoptions)
    hproceeds fun _ _ => List.not_mem_nil
  have hpeek : a'.atItem.cursor.peek = ':'.toUInt8 :=
    (ha.cursor.skipBlanks.peek_of_end hpos).trans
      (congrArg (·.getD 0) (getElem?_colonThen text))
  have hplacement : a'.placement = a.placement := ha.standing.placement
  obtain ⟨d', hcolon, hcursor, hstanding⟩ :=
    exists_step_of_colon hpeek (hplacement ▸ (step_eq_ok.mp hstep).1)
  refine ⟨c, d', a.atItem.cursor.text ++ #[':'.toUInt8], hcomplete, hproceeds'.tail hcolon,
    fun hmultiple => ⟨?_, ?_⟩⟩
  · rw [hcursor]
    exact (embeds_behind_colon ha.cursor.skipBlanks hpos).skipBlanks
  · have hlogical : c.placement.logical = a.placement.logical :=
      congrArg (fun k : Standing => k.position.placement.logical) hclosed
    have hlabels : c.labels = a.labels := congrArg Standing.labels hclosed
    rw [hstanding, hlabels, standing_opened hclosed ha.standing.options]
    exact ha.standing.restarted (hlogical ▸ hmultiple)

/-- A block that is assembled in two parts comes to the same as the whole: the first part up to the
end of its text, and the second from there, with the options that the first has begun with. The
second part may start only at a multiple of four and bind no label of the first. -/
theorem parts_match_whole (placement : Placement) (w : Machine) (text text' : Array Byte)
    {first second whole : Outcome Machine}
    (hfirst : assemble environment placement w (.ofBytes text) = first)
    (hsecond : assemble environment (first.placement.withOptions placement.options) first.state
      (.ofBytes text') = second)
    (hwhole : assemble environment placement w (.ofBytes (joined text text')) = whole)
    (hoptions : keepsOptions (opened placement w (.ofBytes text)) = true)
    (hoptions' : keepsOptions (opened (first.placement.withOptions placement.options) first.state
      (.ofBytes text')) = true)
    (hend : reachesEnd (opened placement w (.ofBytes text)) = true)
    (hmultiple : first.placement.logical.toNat % 4 = 0) (hok : second.failure = none)
    (hlabels : ∀ name ∈ boundLabels (opened (first.placement.withOptions placement.options)
      first.state (.ofBytes text')), name ∉ boundLabels (opened placement w (.ofBytes text))) :
    whole.failure = none ∧ whole.state.image = second.state.image ∧
      whole.state.vars = second.state.vars ∧ whole.placement = second.placement ∧
      ∃ ranges ranges', first.state.flushed = w.flushed ++ ranges ∧
        second.state.flushed = first.state.flushed ++ ranges' ∧
        whole.state.flushed = w.flushed ++ (ranges ++ ranges') := by
  have hbeside : Beside #[] (colonThen text') (Resumes placement.options [] #[])
      (opened placement w (.ofBytes text)) (opened placement w (.ofBytes (joined text text'))) :=
    ⟨(embeds_before_colon text text').skipBlanks,
      Resumes.self (opened placement w (.ofBytes text)).standing⟩
  -- the whole comes through the first part to a block that resumes the second
  obtain ⟨c, d', before, hc, hproceeds, hresumed⟩ := exists_resumed hbeside hoptions hend
  obtain rfl := hfirst.symm.trans (assemble_of_ok hc)
  obtain ⟨e, he⟩ := complete_of_assemble (hsecond.symm ▸ hok)
  obtain rfl := hsecond.symm.trans (assemble_of_ok he)
  rw [boundLabels_of_eq_ok hc, boundLabels_of_eq_ok he] at hlabels
  obtain ⟨e', he', -, k, k', hk, hclosed, hclosed'⟩ := (hresumed hmultiple).complete
    simulation_resumes (plain_of_keepsOptions nofun hoptions') he hlabels
  obtain rfl := hwhole.symm.trans (assemble_of_ok ((complete_of_proceeds hproceeds).trans he'))
  obtain ⟨himage, hvars, hplacement, hflushed⟩ :=
    hk.same (closes_of_standing hclosed) (closes_of_standing hclosed')
  -- what either part flushes is added to what was flushed before it
  obtain ⟨ranges, hranges⟩ := exists_flushed (s := .ofBytes text) (Nat.zero_le _) hoptions
    (congrArg Outcome.failure hfirst)
  obtain ⟨ranges', hranges'⟩ := exists_flushed (s := .ofBytes text') (Nat.zero_le _) hoptions'
    (congrArg Outcome.failure hsecond)
  rw [hfirst] at hranges
  rw [hsecond] at hranges'
  refine ⟨rfl, himage, hvars, hplacement, ranges, ranges', hranges, hranges', ?_⟩
  rw [← Array.append_assoc, ← hranges, ← hranges']
  exact hflushed

/-- Two parts with a label before the first instruction of each, the second with data that does not
end at a multiple of four. -/
theorem parts_match_whole_labelled : ∃ first second whole,
    assemble environment (.ofOrigin 0x8000) (.ofBase 0x8000)
      (.ofBytes ".on NOP:B on".toUTF8.data) = first ∧
    assemble environment (first.placement.withOptions (Placement.ofOrigin 0x8000).options)
      first.state (.ofBytes ".off EQUB 1:B off:B on".toUTF8.data) = second ∧
    assemble environment (.ofOrigin 0x8000) (.ofBase 0x8000)
      (.ofBytes (joined ".on NOP:B on".toUTF8.data ".off EQUB 1:B off:B on".toUTF8.data)) = whole ∧
    whole.failure = none ∧ whole.state.image = second.state.image ∧
      whole.state.vars = second.state.vars ∧ whole.placement = second.placement := by
  obtain ⟨hok, himage, hvars, hplacement, -⟩ := parts_match_whole (.ofOrigin 0x8000)
    (.ofBase 0x8000) ".on NOP:B on".toUTF8.data ".off EQUB 1:B off:B on".toUTF8.data rfl rfl rfl
    (by decide +kernel) (by decide +kernel) (by decide +kernel) (by decide +kernel)
    (by decide +kernel) (by decide +kernel)
  exact ⟨_, _, _, rfl, rfl, rfl, hok, himage, hvars, hplacement⟩

end Block

end InlineA64
