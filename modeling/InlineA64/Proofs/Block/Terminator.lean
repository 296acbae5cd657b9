import InlineA64.Proofs.Block.Split

/-!
# What ends a statement

A text that is assembled up to its end comes to the same if a byte follows that ends statements,
whichever it is, but for one slip of the search for mnemonics: a `RET` or a `SEV` with nothing
behind it is not found if the token `REM` follows (`Block.ended_matches_iff`).

The two runs are followed side by side. What follows the text is an item of its own in the second
run, unless a comment at the end of the text goes on over it, or it is the line feed of a carriage
return (`Block.Past`).
-/

namespace InlineA64

open Cursor (Embeds)
open Machine (environment)

variable {before : Array Byte} {c : Byte} {s s' : Cursor}

namespace Cursor

/-- A byte that ends statements ends the block, or a statement, or it starts a comment. -/
theorem item_of_mem_stops (h : s.peek ∈ Byte.stops) :
    s.item = .close ∨ s.item = .separator ∨ s.item = .comment := by
  simp only [Byte.stops, List.mem_cons, List.not_mem_nil, or_false] at h
  rw [item]
  rcases h with h | h | h | h | h | h | h <;> rw [h]
  · exact .inl rfl
  · exact .inr (.inl rfl)
  · exact .inr (.inl rfl)
  · exact .inr (.inl rfl)
  · exact .inl rfl
  · exact .inr (.inr rfl)
  · exact .inr (.inr rfl)

theorem endOfRun_over {p : Byte → Bool} (h : Embeds before #[c] s s') (hc : p c = true)
    {fuel i : Nat} (hi : i + fuel = s.text.size) (hend : s.endOfRun p fuel i = s.text.size) :
    s'.endOfRun p (fuel + 1) (before.size + i) = s'.text.size := by
  have hsize : s'.text.size = before.size + s.text.size + 1 := h.size
  induction fuel generalizing i with
  | zero =>
    obtain rfl : i = s.text.size := hi
    have hbyte : s'.byteAt (before.size + s.text.size) = c := h.byteAt_end
    rw [endOfRun, hbyte, if_pos hc, hsize]
    rfl
  | succ fuel ih =>
    rw [endOfRun] at hend
    rw [endOfRun, h.byteAt_of_lt (by omega : i < s.text.size)]
    split at hend
    · next hp =>
      rw [if_pos hp]
      exact ih (i := i + 1) (by omega) hend
    · omega

/-- A run that comes to the end of the text goes on over a byte behind it that belongs to it. -/
theorem remaining_skipWhile_over {p : Byte → Bool} (h : Embeds before #[c] s s') (hc : p c = true)
    (hend : (s.skipWhile p).pos = s.text.size) : (s'.skipWhile p).remaining = 0 := by
  have hinside := h.inside
  have hrun := endOfRun_over h hc (Nat.add_sub_of_le hinside) hend
  have hremaining : s'.remaining = s.remaining + 1 := h.remaining
  have hpos : (s'.skipWhile p).pos = s'.text.size := by
    rwa [← h.pos, ← remaining, ← hremaining] at hrun
  rw [remaining, hpos]
  exact Nat.sub_self _

/-- A line feed behind a carriage return that is the last byte is taken with it. -/
theorem remaining_takeSeparator_over (h : Embeds before #[0x0a] s s') (hreturn : s.peek = 0x0d)
    (hend : s.pos + 1 = s.text.size) : (Block.takeSeparator s').remaining = 0 := by
  have hne : s.peek ≠ 0 := by
    rw [hreturn]
    decide
  -- behind the return the second text goes on with the line feed, and the separator takes both
  have hnext := h.advance_one hne
  have hpos : (s.advance 1).pos = s.text.size := by
    rw [advance, hend, Nat.min_self]
  have hfeed : (s'.advance 1).peek = 0x0a := hnext.peek_of_end hpos
  have hremaining : (s'.advance 1).remaining = 1 := by
    have hrest : (s'.advance 1).remaining = (s.advance 1).remaining + 1 := hnext.remaining
    rw [hrest, remaining, hpos]
    exact congrArg (· + 1) (Nat.sub_self _)
  have hless : ((s'.advance 1).advance 1).remaining < (s'.advance 1).remaining :=
    remaining_advance_lt (by rw [hfeed]; decide) Nat.one_pos
  have htake : Block.takeSeparator s' = (s'.advance 1).advance 1 := by
    rw [Block.takeSeparator, h.peek_eq hne, hreturn, hfeed]
    rfl
  rw [htake]
  omega

end Cursor

namespace Block

variable {b b' a a' d : Block Machine Name} {k : Standing}

/-! ## The end of the text -/

theorem upcoming_of_remaining (h : b.cursor.remaining = 0) : b.upcoming = .close := by
  have hend : b.cursor.text.size ≤ b.cursor.pos := Nat.le_of_sub_eq_zero h
  have hpeek : b.cursor.peek = 0 := Cursor.byteAt_of_size_le hend
  have hitem : b.atItem.cursor = b.cursor := Cursor.skipBlanks_of_not_blank (by rw [hpeek]; rfl)
  rw [upcoming, hitem, Cursor.item, hpeek]
  rfl

/-- A block runs to its end without fail, and comes to `k` there. -/
def Finishes (b : Block Machine Name) (k : Standing) : Prop :=
  ∃ d, complete environment b = .ok .stop d ∧
    Outcome.Closes ⟨none, d.placement, d.state, d.cursor⟩ k

theorem finishes_of_close (h : b.upcoming = .close) (hlimit : b.placement.atLimit = false) :
    b.Finishes b.standing.flushed := by
  obtain ⟨d, hstep, hstanding⟩ := exists_step_of_close h hlimit
  exact ⟨d, complete_of_stop hstep, closes_of_standing hstanding⟩

theorem finishes_of_more (hstep : step environment b = .ok .more d) (h : d.Finishes k) :
    b.Finishes k := by
  obtain ⟨e, hcomplete, hcloses⟩ := h
  exact ⟨e, (complete_of_more hstep).trans hcomplete, hcloses⟩

/-- A statement that is opened has nothing to flush. -/
theorem flushed_opened (k : Standing) : (k.onPosition .opened).flushed = k.onPosition .opened := by
  have hflushes : (k.onPosition .opened).flushes = k.machine.flushed :=
    if_neg fun h => by
      rw [Bool.and_eq_true, bne_iff_ne] at h
      exact h.2 rfl
  rw [Standing.flushed, hflushes]
  rfl

/-- A byte that ends statements and is the last one of the text adds nothing to what a block comes
to. -/
theorem finishes_of_last (hstop : b.atItem.cursor.peek ∈ Byte.stops)
    (hlast : b.atItem.cursor.remaining = 1) (hlimit : b.placement.atLimit = false) :
    b.Finishes b.standing.flushed := by
  rcases Cursor.item_of_mem_stops hstop with hitem | hitem | hitem
  · exact finishes_of_close hitem hlimit
  · have hne : b.atItem.cursor.peek ≠ 0 := Cursor.peek_ne_zero_of_item (hitem ▸ nofun)
    obtain ⟨d, hstep, hcursor, hstanding⟩ := exists_step_of_separator hitem hlimit
    have hremaining : d.cursor.remaining = 0 := by
      have hless := remaining_takeSeparator_lt hne
      have hle := (takeSeparator b.atItem.cursor).onward_skipBlanks.remaining_le
      rw [hcursor]
      omega
    have hplacement : d.placement = b.placement :=
      congrArg (fun k : Standing => k.position.placement) hstanding
    -- the statement that the separator opens stays empty
    obtain ⟨e, hcomplete, hcloses⟩ :=
      finishes_of_close (upcoming_of_remaining hremaining) (hplacement ▸ hlimit)
    rw [hstanding, flushed_opened] at hcloses
    refine finishes_of_more hstep ⟨e, hcomplete, ?_⟩
    exact ⟨rfl, hcloses.placement, hcloses.image, hcloses.vars, hcloses.flushed⟩
  · have hne : b.atItem.cursor.peek ≠ 0 := Cursor.peek_ne_zero_of_item (hitem ▸ nofun)
    have hcomment := Cursor.continuesComment_of_item hitem
    refine finishes_of_more (step_of_comment hitem hlimit) ?_
    refine finishes_of_close (upcoming_of_remaining ?_) hlimit
    have hless := Cursor.remaining_skipWhile_lt hne hcomment
    change (b.atItem.cursor.skipWhile continuesComment).remaining = 0
    omega

/-! ## Two runs side by side -/

theorem simulation_eq : Simulation (fun _ => True) Eq where
  data := {
    aligned := fun ⟨h, hfresh⟩ => ⟨congrArg _ h, hfresh⟩
    wrote := by
      rintro k _ bytes image ⟨rfl, hfresh⟩ hwrite
      exact ⟨image, hwrite, rfl, hfresh⟩
    rangeCheck := fun ⟨h, _⟩ hcheck => h ▸ hcheck
    padding := fun ⟨h, _⟩ _ => by rw [h]
    symbols := fun ⟨h, _⟩ => by rw [h]
    systemCalls := fun ⟨h, _⟩ => by rw [h] }
  settled := congrArg _
  labelled := congrArg _
  opened := congrArg _
  flushed := congrArg _
  bound h _ hfree := h ▸ ⟨hfree, rfl⟩
  atLimit h hlimit := h ▸ hlimit

theorem plain_of_delimits (h : a.Delimits c) : a.Plain #[] #[c] Eq where
  options _ _ _ _ hk := congrArg _ hk
  carries e _ k k' hk hscope :=
    Evaluation.carries_of_value? (by rw [hscope, hk]) fun name v hv => by rwa [hscope, hk] at hv
  delimits c' hc' := by
    obtain rfl : c = c' := Option.some.inj hc'
    exact h

/-- The next item is a mnemonic that is missed before `REM`, and the text ends with it. -/
def missedAtEnd (b : Block Machine Name) : Bool :=
  (Mnemonic.lookup b.atItem.cursor).1.any Mnemonic.missedBeforeRem &&
    (Mnemonic.lookup b.atItem.cursor).2.pos == (Mnemonic.lookup b.atItem.cursor).2.text.size

theorem missedAtEnd_iff : b.missedAtEnd = true ↔ ∃ m t,
    Mnemonic.lookup b.atItem.cursor = (some m, t) ∧ m.missedBeforeRem = true ∧
      t.pos = t.text.size := by
  rw [missedAtEnd, Bool.and_eq_true, beq_iff_eq, Option.any_eq_true]
  rcases Mnemonic.lookup b.atItem.cursor with ⟨m?, t⟩
  constructor
  · rintro ⟨⟨m, rfl, hmissed⟩, hend⟩
    exact ⟨m, t, rfl, hmissed, hend⟩
  · rintro ⟨m, _, heq, hmissed, hend⟩
    obtain ⟨rfl, rfl⟩ := Prod.mk.inj heq
    exact ⟨⟨m, rfl, hmissed⟩, hend⟩

/-- Two blocks have come to the same and are at the ends of their texts. -/
structure Past (b b' : Block Machine Name) : Prop where
  first : b.upcoming = .close
  second : b'.upcoming = .close
  standing : b.standing = b'.standing

/-- Statements apart, an item that is not the end of the text is of one kind on both sides. -/
theorem upcoming_beside (h : Beside #[] #[c] Eq a a') {i : Item} (hi : a.upcoming = i)
    (hclose : i ≠ .close) (hother : ∀ meaning?, i ≠ .statement meaning?) : a'.upcoming = i := by
  subst hi
  exact Cursor.item_congr (h.cursor.skipBlanks.peek_eq (Cursor.peek_ne_zero_of_item hclose)) hother

/-- A comment that runs up to the end of the text goes on over a byte behind it that belongs to
it. -/
theorem exists_step_over_comment (h : Beside #[] #[c] Eq a a') (hcomment : a.upcoming = .comment)
    (hend : (a.atItem.cursor.skipWhile continuesComment).pos = a.atItem.cursor.text.size)
    (hc : continuesComment c = true) (hstep : step environment a = .ok .more d) :
    ∃ d', step environment a' = .ok .more d' ∧ Past d d' := by
  have hlimit := (step_eq_ok.mp hstep).1
  have hlimit' : a'.placement.atLimit = false := simulation_eq.atLimit h.standing hlimit
  rw [step_of_comment hcomment hlimit] at hstep
  cases hstep
  refine ⟨_, step_of_comment (upcoming_beside h hcomment nofun nofun) hlimit', ?_, ?_, h.standing⟩
  · refine upcoming_of_remaining ?_
    change a.atItem.cursor.text.size - (a.atItem.cursor.skipWhile continuesComment).pos = 0
    rw [hend, Nat.sub_self]
  · exact upcoming_of_remaining (Cursor.remaining_skipWhile_over h.cursor.skipBlanks hc hend)

/-- A carriage return that ends the text is taken together with a line feed behind it. -/
theorem exists_step_over_lineFeed (h : Beside #[] #[0x0a] Eq a a')
    (hseparator : a.upcoming = .separator) (hreturn : a.atItem.cursor.peek = 0x0d)
    (hend : a.atItem.cursor.pos + 1 = a.atItem.cursor.text.size)
    (hstep : step environment a = .ok .more d) :
    ∃ d', step environment a' = .ok .more d' ∧ Past d d' := by
  have hmore : a.upcoming ≠ .close := hseparator ▸ nofun
  have hne : a.atItem.cursor.peek ≠ 0 := Cursor.peek_ne_zero_of_item hmore
  have hlimit := (step_eq_ok.mp hstep).1
  have hlimit' : a'.placement.atLimit = false := simulation_eq.atLimit h.standing hlimit
  obtain ⟨d₁, hstep₁, hcursor, hstanding⟩ := exists_step_of_separator hseparator hlimit
  obtain ⟨d', hstep', hcursor', hstanding'⟩ :=
    exists_step_of_separator (upcoming_beside h hseparator nofun nofun) hlimit'
  obtain ⟨-, rfl⟩ := EStateM.Result.ok.inj (hstep₁.symm.trans hstep)
  -- either separator is the last thing in its text, so both blocks are at their ends
  refine ⟨d', hstep', upcoming_of_remaining ?_, upcoming_of_remaining ?_, ?_⟩
  · have hless := remaining_takeSeparator_lt hne
    have hle := (takeSeparator a.atItem.cursor).onward_skipBlanks.remaining_le
    have hlast : a.atItem.cursor.remaining = 1 := by
      rw [Cursor.remaining]
      omega
    rw [hcursor]
    omega
  · have hnone := Cursor.remaining_takeSeparator_over h.cursor.skipBlanks hreturn hend
    have hle := (takeSeparator a'.atItem.cursor).onward_skipBlanks.remaining_le
    rw [hcursor']
    exact Nat.le_zero.mp (hnone ▸ hle)
  · rw [hstanding, hstanding', h.standing]

/-- An item that is not the last of the text is dealt with alike in a text that goes on with a byte
that ends statements, unless it is missed before that. -/
theorem exists_step_beside (h : Beside #[] #[c] Eq a a') (hstep : step environment a = .ok .more d)
    (hmissed : c = Byte.remToken → a.missedAtEnd = false) :
    ∃ d', step environment a' = .ok .more d' ∧ (Beside #[] #[c] Eq d d' ∨ Past d d') := by
  by_cases hcomment : a.upcoming = .comment ∧
      (a.atItem.cursor.skipWhile continuesComment).pos = a.atItem.cursor.text.size ∧
      continuesComment c = true
  · obtain ⟨hi, hend, hc⟩ := hcomment
    obtain ⟨d', hstep', hpast⟩ := exists_step_over_comment h hi hend hc hstep
    exact ⟨d', hstep', .inr hpast⟩
  by_cases hfeed : a.upcoming = .separator ∧ a.atItem.cursor.peek = 0x0d ∧
      a.atItem.cursor.pos + 1 = a.atItem.cursor.text.size ∧ c = 0x0a
  · obtain ⟨hi, hreturn, hend, rfl⟩ := hfeed
    obtain ⟨d', hstep', hpast⟩ := exists_step_over_lineFeed h hi hreturn hend hstep
    exact ⟨d', hstep', .inr hpast⟩
  -- otherwise the byte is no part of the item
  have hdelimits : a.Delimits c := {
    comment := fun hi hend => Bool.eq_false_iff.mpr fun hc => hcomment ⟨hi, hend, hc⟩
    separator := fun hi hreturn hend hc => hfeed ⟨hi, hreturn, hend, hc⟩
    mnemonic := fun m t hlookup hm hend hc => by
      have hfound := missedAtEnd_iff.mpr ⟨m, t, hlookup, hm, hend⟩
      rw [hmissed hc] at hfound
      cases hfound }
  obtain ⟨d', hstep', hd⟩ := h.step simulation_eq (plain_of_delimits hdelimits) hstep
    (fun _ _ => trivial) (fun hstop => by cases hstop)
  exact ⟨d', hstep', .inl hd⟩

/-- What is missed before `REM` starts with a letter, which ends no statement and is no dot. -/
theorem peek_of_missedAtEnd (h : b.missedAtEnd = true) :
    b.atItem.cursor.peek ∉ Byte.stops ∧ b.atItem.cursor.peek ≠ '.'.toUInt8 := by
  obtain ⟨m, t, hlookup, hm, -⟩ := missedAtEnd_iff.mp h
  have hblanks : b.atItem.cursor.skipBlanks = b.atItem.cursor := b.cursor.skipBlanks_skipBlanks
  have hlower := Mnemonic.peek_of_missedBeforeRem hlookup hm
  rw [hblanks] at hlower
  have hother : ∀ c ∈ '.'.toUInt8 :: Byte.stops,
      Byte.lower c ≠ 'r'.toUInt8 ∧ Byte.lower c ≠ 's'.toUInt8 := by decide
  have hletter : b.atItem.cursor.peek ∉ '.'.toUInt8 :: Byte.stops := fun hmem =>
    hlower.elim (hother _ hmem).1 (hother _ hmem).2
  rw [List.mem_cons, not_or] at hletter
  exact hletter.symm

/-- What is missed before `REM` stops the run. -/
theorem step_ne_ok_of_missed (h : Beside #[] #[Byte.remToken] Eq a a')
    (hlimit : a.placement.atLimit = false) (hmissed : a.missedAtEnd = true) (next : Next) :
    step environment a' ≠ .ok next d := by
  obtain ⟨m, t, hlookup, hm, hend⟩ := missedAtEnd_iff.mp hmissed
  obtain ⟨hstops, hdot⟩ := peek_of_missedAtEnd hmissed
  have hcursor : Embeds #[] #[Byte.remToken] a.atItem.cursor a'.atItem.cursor :=
    h.cursor.skipBlanks
  have hpeek : a'.atItem.cursor.peek = a.atItem.cursor.peek :=
    hcursor.peek_eq fun hzero => hstops (hzero ▸ List.mem_cons_self)
  have hitem : a'.upcoming =
      .statement ((Mnemonic.lookup a'.atItem.cursor).1.map Mnemonic.meaning) := by
    refine Cursor.item_eq_statement ?_ (hpeek ▸ hdot)
    exact Bool.eq_false_iff.mpr fun hends => hstops (hpeek ▸ Byte.mem_stops.mpr hends)
  -- the search that found the mnemonic at the end of its text misses it before the token
  have hnone := Mnemonic.lookup_of_missedBeforeRem hcursor hlookup hm hend rfl
  have hfails : Leads (step environment) a' (fun _ _ => False) fun _ _ => True := by
    refine leads_step_of_statement hitem (simulation_eq.atLimit h.standing hlimit) ?_
    rw [Leads, statement_eq, hnone]
    trivial
  exact fun hstep => hfails.of_eq_ok hstep

/-- A run that comes to a block comes to the same in a text that goes on with a byte that ends
statements, unless it stops before that because a mnemonic is missed. -/
theorem exists_proceeds_beside (h : Beside #[] #[c] Eq b b')
    (hproceeds : Proceeds environment b a) :
    (∃ a', Proceeds environment b' a' ∧ (Beside #[] #[c] Eq a a' ∨ Past a a')) ∨
      c = Byte.remToken ∧ ∃ e ∈ stages environment b, e.missedAtEnd = true ∧
        ∃ e', Proceeds environment b' e' ∧ Beside #[] #[c] Eq e e' := by
  induction hproceeds with
  | refl => exact .inl ⟨b', .refl, .inl h⟩
  | @tail e d hproceeds hstep ih =>
    obtain ⟨e', hproceeds', he | he⟩ | hmissed := ih
    · by_cases hlost : c = Byte.remToken ∧ e.missedAtEnd = true
      · exact .inr ⟨hlost.1, e, mem_stages hproceeds hstep, hlost.2, e', hproceeds', he⟩
      · obtain ⟨d', hstep', hd⟩ := exists_step_beside he hstep fun hc =>
          Bool.eq_false_iff.mpr fun hmissed => hlost ⟨hc, hmissed⟩
        exact .inl ⟨d', hproceeds'.tail hstep', hd⟩
    · -- behind the end of the text nothing more comes
      obtain ⟨_, hclose, -⟩ := exists_step_of_close he.first (step_eq_ok.mp hstep).1
      cases hclose.symm.trans hstep
    · exact .inr hmissed

/-- The last statement is a `RET` or a `SEV` with nothing behind the mnemonic. -/
def endsBare (b : Block Machine Name) : Bool :=
  (stages environment b).any missedAtEnd

/-- Where a mnemonic is missed the run fails that has been followed up to there. -/
theorem complete_ne_ok_of_endsBare (h : Beside #[] #[Byte.remToken] Eq b b')
    (hbare : b.endsBare = true) (next : Next) : complete environment b' ≠ .ok next d := by
  obtain ⟨e, he, hmissed⟩ := List.any_eq_true.mp hbare
  -- both runs come to a mnemonic that is missed, be it this one or one before
  obtain ⟨e, he, hmissed, e', hproceeds, hbeside⟩ : ∃ e ∈ stages environment b,
      e.missedAtEnd = true ∧ ∃ e', Proceeds environment b' e' ∧
        Beside #[] #[Byte.remToken] Eq e e' := by
    obtain ⟨e', hproceeds, he' | hpast⟩ | hmissed :=
      exists_proceeds_beside h (of_mem_stages he).1
    · exact ⟨e, he, hmissed, e', hproceeds, he'⟩
    · -- there is no mnemonic behind the end of the text
      obtain ⟨hstops, hdot⟩ := peek_of_missedAtEnd hmissed
      have hitem := Cursor.item_eq_statement
        (Bool.eq_false_iff.mpr fun hends => hstops (Byte.mem_stops.mpr hends)) hdot
      cases hpast.first.symm.trans hitem
    · exact hmissed.2
  obtain ⟨-, _, _, hstep⟩ := of_mem_stages he
  rw [complete_of_proceeds hproceeds]
  intro hcomplete
  rcases hstep' : step environment e' with ⟨next, f⟩ | ⟨failure, f⟩
  · exact step_ne_ok_of_missed hbeside (step_eq_ok.mp hstep).1 hmissed next hstep'
  · cases (complete_of_error hstep').symm.trans hcomplete

/-- Where one text ends, the run of the other ends as well and comes to the same. -/
theorem finishes_beside (h : Beside #[] #[c] Eq a a' ∨ Past a a') (hc : c.endsStatement = true)
    (hend : a.atItem.cursor.remaining = 0) (hpos : a.atItem.cursor.pos = a.cursor.text.size)
    (hlimit : a.placement.atLimit = false) : a'.Finishes a.standing.flushed := by
  rcases h with h | hpast
  · have hcursor : Embeds #[] #[c] a.atItem.cursor a'.atItem.cursor := h.cursor.skipBlanks
    have hpeek : a'.atItem.cursor.peek = c := hcursor.peek_of_end hpos
    have hlast : a'.atItem.cursor.remaining = a.atItem.cursor.remaining + 1 := hcursor.remaining
    rw [hend] at hlast
    rw [h.standing]
    exact finishes_of_last (hpeek ▸ Byte.mem_stops.mpr hc) hlast
      (simulation_eq.atLimit h.standing hlimit)
  · rw [hpast.standing]
    exact finishes_of_close hpast.second (simulation_eq.atLimit hpast.standing hlimit)

theorem embeds_push (text : Array Byte) (hc : c.endsStatement = true) :
    Embeds #[] #[c] (.ofBytes text) (.ofBytes (text.push c)) where
  text := by
    change text.push c = #[] ++ text ++ #[c]
    rw [Array.empty_append, Array.push_eq_append]
  pos := rfl
  inside := Nat.zero_le _
  stop b hb := by
    obtain rfl : c = b := Option.some.inj hb
    exact Byte.mem_stops.mpr hc

/-- A text that is assembled up to its end comes to the same with a byte behind it that ends
statements, if and only if that is not the token `REM` behind a bare `RET` or `SEV`. -/
theorem ended_matches_iff (placement : Placement) (w : Machine) (text : Array Byte) {c : Byte}
    {bare ended : Outcome Machine}
    (hbare : assemble environment placement w (.ofBytes text) = bare)
    (hended : assemble environment placement w (.ofBytes (text.push c)) = ended)
    (hc : c.endsStatement = true)
    (hend : reachesEnd (opened placement w (.ofBytes text)) = true) :
    (ended.failure = none ∧ ended.state.image = bare.state.image ∧
      ended.state.vars = bare.state.vars ∧ ended.placement = bare.placement) ↔
      ¬(c = Byte.remToken ∧ endsBare (opened placement w (.ofBytes text)) = true) := by
  obtain ⟨a, hmem, hpos⟩ := List.any_eq_true.mp hend
  obtain ⟨hproceeds, next, d, hstep⟩ := of_mem_stages hmem
  rw [beq_iff_eq] at hpos
  have hle : a.atItem.cursor.text.size ≤ a.atItem.cursor.pos := Nat.le_of_eq hpos.symm
  obtain ⟨rfl, hclosed⟩ := standing_of_end (Cursor.byteAt_of_size_le hle) hstep
  obtain rfl := hbare.symm.trans
    (assemble_of_ok ((complete_of_proceeds hproceeds).trans (complete_of_stop hstep)))
  have hbeside : Beside #[] #[c] Eq (opened placement w (.ofBytes text))
      (opened placement w (.ofBytes (text.push c))) := ⟨(embeds_push text hc).skipBlanks, rfl⟩
  constructor
  · rintro ⟨hok, -⟩ ⟨rfl, hmissed⟩
    obtain ⟨f, hcomplete⟩ := complete_of_assemble (hended.symm ▸ hok)
    exact complete_ne_ok_of_endsBare hbeside hmissed _ hcomplete
  · -- the second run stays beside the first to its end, unless it has missed a mnemonic
    intro hfound
    obtain ⟨a', hproceeds', ha⟩ | ⟨hrem, e, he, hmissed, -⟩ :=
      exists_proceeds_beside hbeside hproceeds
    · obtain ⟨f, hcomplete, hcloses⟩ :=
        finishes_beside ha hc (Nat.sub_eq_zero_of_le hle) hpos (step_eq_ok.mp hstep).1
      obtain rfl := hended.symm.trans
        (assemble_of_ok ((complete_of_proceeds hproceeds').trans hcomplete))
      have hfirst := closes_of_standing hclosed
      exact ⟨rfl, hcloses.image.trans hfirst.image.symm, hcloses.vars.trans hfirst.vars.symm,
        hcloses.placement.trans hfirst.placement.symm⟩
    · exact absurd ⟨hrem, List.any_eq_true.mpr ⟨e, he, hmissed⟩⟩ hfound

/-- A label and two instructions with `REM` behind them, the second with an operand. -/
theorem ended_matches_iff_return : ∃ bare ended,
    assemble environment (.ofOrigin 0x8000) (.ofBase 0x8000)
      (.ofBytes (bytesOf ".on SEV:RET X30").toArray) = bare ∧
    assemble environment (.ofOrigin 0x8000) (.ofBase 0x8000)
      (.ofBytes ((bytesOf ".on SEV:RET X30").toArray.push Byte.remToken)) = ended ∧
    ended.failure = none ∧ ended.state.image = bare.state.image ∧
      ended.state.vars = bare.state.vars ∧ ended.placement = bare.placement := by
  obtain ⟨hok, himage, hvars, hplacement⟩ := (ended_matches_iff (.ofOrigin 0x8000)
    (.ofBase 0x8000) (bytesOf ".on SEV:RET X30").toArray (c := Byte.remToken) rfl rfl (by decide)
    (by decide +kernel)).mpr (by decide +kernel)
  exact ⟨_, _, rfl, rfl, hok, himage, hvars, hplacement⟩

/-- A bare `RET` is assembled, and it is no mnemonic with `REM` right behind it. -/
theorem bare_return_missed :
    (assemble environment (.ofOrigin 0x8000) (.ofBase 0x8000)
      (.ofBytes (bytesOf "RET").toArray)).failure = none ∧
    reachesEnd (opened (.ofOrigin 0x8000) (.ofBase 0x8000)
      (.ofBytes (bytesOf "RET").toArray)) = true ∧
    Byte.remToken.endsStatement = true ∧
    (assemble environment (.ofOrigin 0x8000) (.ofBase 0x8000)
      (.ofBytes ((bytesOf "RET").toArray.push Byte.remToken))).failure.map Failure.fault =
        some (.unknownMnemonic "RET") := by
  decide +kernel

end Block

end InlineA64
