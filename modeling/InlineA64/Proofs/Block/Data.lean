import InlineA64.Proofs.Block.Layout
import InlineA64.Proofs.Block.Run
import InlineA64.Proofs.Block.Standing
import InlineA64.Proofs.Datum

/-!
# Blocks of data

A block of data directives lays out their values one behind the other. A word is preceded by zeros
up to the next multiple of four. The block fails at the first string that is too long, and then has
laid out what stands before that (`Datum.values_laid_out`).

Each directive moves the cursor over its own text and the end of the image to the end of its own
bytes, so that the two stay together (`Block.LaidOut`).
-/

namespace InlineA64

open Cursor (between)
open Literal (Ends)
open Machine (environment)

namespace Block

variable {b : Block Machine Name} {t : Cursor}

theorem evaluate_of_read {v : Value}
    (h : Expression.read ⟨b.placement.context, b.state.vars⟩ b.cursor = .ok v t) :
    evaluate environment b = .ok v { b with cursor := b.cursor.advanceTo t.pos } := by
  have hmachine : Machine.evaluate b.placement.context (b.cursor, b.state) =
      .ok v (t, b.state) := Machine.evaluate_eq_ok.mpr ⟨h, rfl⟩
  rw [evaluate, get_bind]
  exact consult_eq_ok.mpr ⟨t, b.state, hmachine, rfl⟩

theorem evaluateInt_of_read {n : Int64}
    (h : Expression.read ⟨b.placement.context, b.state.vars⟩ b.cursor = .ok (.int n) t) :
    evaluateInt environment b = .ok n { b with cursor := b.cursor.advanceTo t.pos } := by
  have hmachine : Machine.evaluate b.placement.context (b.cursor, b.state) =
      .ok (.int n) (t, b.state) := Machine.evaluate_eq_ok.mpr ⟨h, rfl⟩
  rw [evaluateInt, get_bind]
  exact consult_eq_ok.mpr ⟨t, b.state, Environment.evaluateAs_eq_ok.mpr ⟨_, hmachine, rfl⟩, rfl⟩

theorem evaluateBytes_of_read {bytes : List Byte}
    (h : Expression.read ⟨b.placement.context, b.state.vars⟩ b.cursor = .ok (.string bytes) t) :
    consult (environment.evaluateBytes b.placement.context) b =
      .ok bytes { b with cursor := b.cursor.advanceTo t.pos } := by
  have hmachine : Machine.evaluate b.placement.context (b.cursor, b.state) =
      .ok (.string bytes) (t, b.state) := Machine.evaluate_eq_ok.mpr ⟨h, rfl⟩
  exact consult_eq_ok.mpr ⟨t, b.state, Environment.evaluateAs_eq_ok.mpr ⟨_, hmachine, rfl⟩, rfl⟩

end Block

/-! ## Output -/

namespace Image

theorem put_behind (bytes word : List Byte) :
    put word bytes.length (bytes ++ List.replicate word.length 0).toArray =
      (bytes ++ word).toArray := by
  induction word generalizing bytes with
  | nil => rfl
  | cons b word ih =>
    have hset : (bytes ++ List.replicate (word.length + 1) 0).toArray.setIfInBounds bytes.length b =
        ((bytes ++ [b]) ++ List.replicate word.length 0).toArray := by
      rw [List.setIfInBounds_toArray, List.set_append_right _ _ (Nat.le_refl _), Nat.sub_self,
        List.replicate_succ, List.set_cons_zero, List.append_assoc, List.singleton_append]
    have hnext := ih (bytes ++ [b])
    rw [List.length_append, List.length_singleton] at hnext
    rw [List.length_cons, put, hset, hnext, List.append_assoc, List.singleton_append]

/-- To write behind an image, leaving some bytes free, is to append to it. -/
theorem write_behind {base address : UInt64} {bytes word : List Byte} {gap : Nat}
    (haddress : address.toNat = base.toNat + (bytes.length + gap))
    (hcapacity : bytes.length + gap + word.length ≤ capacity) :
    write ⟨base, bytes.toArray⟩ address word =
      .ok ⟨base, (bytes ++ (List.replicate gap 0 ++ word)).toArray⟩ := by
  have hle : base ≤ address := by
    rw [UInt64.le_iff_toNat_le]
    omega
  have hoffset : address.toNat - base.toNat = bytes.length + gap := by omega
  have hgrow : grow (bytes.length + gap + word.length) bytes.toArray =
      ((bytes ++ List.replicate gap 0) ++ List.replicate word.length 0).toArray := by
    rw [List.append_assoc, List.replicate_append_replicate, grow, List.size_toArray]
    split
    · rw [Nat.add_assoc, Nat.add_sub_cancel_left, ← List.toArray_replicate, List.append_toArray]
    · next hfull =>
      have hnone : gap + word.length = 0 := by omega
      rw [hnone, List.replicate_zero, List.append_nil]
  -- the image grows by zeros first, and the word takes the place of the last of them
  have hput := put_behind (bytes ++ List.replicate gap 0) word
  rw [List.length_append, List.length_replicate] at hput
  simp only [write, offset?]
  rw [if_pos hle, hoffset, if_pos hcapacity]
  simp only [hgrow, hput]
  rw [List.append_assoc]

end Image

namespace Block

variable {origin : UInt64} {bytes word : List Byte} {gap : Nat} {s t : Cursor}
  {b : Block Machine Name}

/-- The block is at the cursor `s`, and the image holds `bytes` from the origin on. The code is
placed `gap` bytes behind them. -/
structure LaidOut (origin : UInt64) (bytes : List Byte) (gap : Nat) (s : Cursor)
    (b : Block Machine Name) : Prop where
  cursor : b.cursor = s
  options : b.placement.options = .ofInt 2
  logical : b.placement.logical.toNat = origin.toNat + (bytes.length + gap)
  image : b.state.image = ⟨origin, bytes.toArray⟩

namespace LaidOut

theorem atLimit (h : LaidOut origin bytes gap s b) : b.placement.atLimit = false := by
  rw [Placement.atLimit, h.options]
  rfl

theorem writeAddress (h : LaidOut origin bytes gap s b) :
    b.placement.writeAddress = b.placement.logical := by
  rw [Placement.writeAddress, h.options]
  rfl

/-- What is emitted is appended to the image. -/
theorem exists_emit (word : List Byte) (h : LaidOut origin bytes gap s b)
    (hspace : origin.toNat + (bytes.length + gap + word.length) < 2 ^ 64)
    (hcapacity : bytes.length + gap + word.length ≤ Image.capacity) :
    ∃ c, emit environment word b = .ok () c ∧
      LaidOut origin (bytes ++ (List.replicate gap 0 ++ word)) 0 s c := by
  have hwrite : b.state.image.write b.placement.writeAddress word =
      .ok ⟨origin, (bytes ++ (List.replicate gap 0 ++ word)).toArray⟩ := by
    rw [h.image, h.writeAddress]
    exact Image.write_behind h.logical hcapacity
  obtain ⟨c, hemit, hcursor, hstanding⟩ := Block.exists_emit hwrite
  have hplacement : c.placement = b.placement.advance (UInt64.ofNat word.length) :=
    congrArg (fun k : Standing => k.position.placement) hstanding
  refine ⟨c, hemit, hcursor.trans h.cursor, ?_, ?_, ?_⟩
  · rw [hplacement]
    exact h.options
  · rw [hplacement, Placement.advance, UInt64.toNat_add, UInt64.toNat_ofNat', h.logical]
    simp only [List.length_append, List.length_replicate]
    omega
  · exact congrArg (fun k : Standing => k.machine.image) hstanding

/-- The placement may be aligned before a word. -/
theorem aligned (h : LaidOut origin bytes 0 s b)
    (hspace :
      origin.toNat + (bytes.length + (4 - (origin.toNat + bytes.length) % 4) % 4) < 2 ^ 64) :
    LaidOut origin bytes ((4 - (origin.toNat + bytes.length) % 4) % 4) s
      { b with placement := b.placement.align, address := b.placement.align.logical, emitted := [] }
    where
  cursor := h.cursor
  options := h.options
  logical := by
    have hlogical := h.logical
    have hpad := Placement.toNat_padTo_four b.placement.logical
    change (b.placement.logical + Placement.padTo 4 b.placement.logical).toNat = _
    rw [Nat.add_zero] at hlogical
    rw [UInt64.toNat_add, hpad, hlogical]
    omega
  image := h.image

/-- To move the cursor on changes nothing else. -/
theorem advanced {before behind : List Byte} (word : List Byte)
    (h : LaidOut origin bytes gap (between before (word ++ behind)) b) :
    LaidOut origin bytes gap (between (before ++ word) behind)
      { b with cursor := b.cursor.advanceTo (between (before ++ word) behind).pos } where
  cursor := by
    rw [h.cursor]
    exact Cursor.advanceTo_between before word behind
  options := h.options
  logical := h.logical
  image := h.image

theorem exists_emitNumber {count : Nat} (hcount : count ≤ 8) (n : Int64)
    (h : LaidOut origin bytes gap s b)
    (hspace : origin.toNat + (bytes.length + gap + count) < 2 ^ 64)
    (hcapacity : bytes.length + gap + count ≤ Image.capacity) :
    ∃ c, emitNumber environment count n.toUInt64 b = .ok () c ∧ LaidOut origin
      (bytes ++ (List.replicate gap 0 ++ Datum.littleEndian count n.toInt)) 0 s c := by
  have hlength : (Datum.littleEndian count n.toInt).length = count := by
    rw [Datum.littleEndian, List.length_map, List.length_range]
  rw [emitNumber, Datum.bytesOfNat_toUInt64 hcount]
  exact h.exists_emit _ (hlength.symm ▸ hspace) (hlength.symm ▸ hcapacity)

variable {before behind : List Byte}

/-- The operand of a directive has the value that is written, however it is read. -/
theorem exists_evaluated (c : Datum.Content) (hends : Ends behind)
    (h : LaidOut origin bytes gap (between before (' '.toUInt8 :: (c.literal ++ behind))) b) :
    ∃ b', LaidOut origin bytes gap (between (before ++ ' '.toUInt8 :: c.literal) behind) b' ∧
      evaluate environment b = .ok c.value b' ∧
      (∀ n, c.value = .int n → evaluateInt environment b = .ok n b' ∧
        evaluateAddress environment b = .ok n.toUInt64 b') ∧
      (∀ word, c.value = .string word →
        consult (environment.evaluateBytes b.placement.context) b = .ok word b') := by
  have hread := Datum.read_literal before c ⟨b.placement.context, b.state.vars⟩ hends
  rw [← h.cursor] at hread
  have hvalue := evaluate_of_read hread
  have hthere := advanced (' '.toUInt8 :: c.literal) h
  refine ⟨_, hthere, hvalue, fun n hn => ?_, fun word hw => ?_⟩
  · rw [hn] at hread hvalue
    refine ⟨evaluateInt_of_read hread, ?_⟩
    rw [evaluateAddress, get_bind, bind_of_ok hvalue]
    rfl
  · rw [hw] at hread
    exact evaluateBytes_of_read hread

/-- A directive with a number lays out the low bytes of it, a word at the next multiple of four. -/
theorem exists_directive_number {size : Datum.Size} {n : Int64} {directive : Directive}
    (hdirective : directive ∈ size.directives) (hends : Ends behind)
    (h : LaidOut origin bytes 0 (between before (' '.toUInt8 :: (Literal.integer n ++ behind))) b)
    (hspace : origin.toNat + (bytes.length + ((Datum.Content.number size n).laid
      (origin.toNat + bytes.length)).length) < 2 ^ 64)
    (hcapacity : bytes.length + ((Datum.Content.number size n).laid
      (origin.toNat + bytes.length)).length ≤ Image.capacity) :
    ∃ c, Block.directive environment directive b = .ok () c ∧ LaidOut origin
      (bytes ++ (Datum.Content.number size n).laid (origin.toNat + bytes.length)) 0
      (between (before ++ ' '.toUInt8 :: Literal.integer n) behind) c := by
  obtain ⟨b₁, h₁, hvalue, hnumber, -⟩ := exists_evaluated (.number size n) hends h
  obtain ⟨hint, haddress⟩ := hnumber n rfl
  simp only [Datum.Content.laid, Datum.Content.bytes, List.length_append, List.length_replicate,
    Datum.littleEndian, List.length_map, List.length_range] at hspace hcapacity
  cases size with
  | byte =>
    simp only [Datum.Content.padding, Datum.Size.count] at hspace hcapacity
    obtain ⟨c, hc, hlaid⟩ := h₁.exists_emitNumber (by decide : 1 ≤ 8) n (by omega) (by omega)
    refine ⟨c, ?_, hlaid⟩
    -- the operand of one of the directives might have been a string
    simp only [Datum.Size.directives, List.mem_cons, List.not_mem_nil, or_false] at hdirective
    rcases hdirective with rfl | rfl
    · rw [Block.directive, bind_of_ok hint, hc]
    · rw [Block.directive, data, get_bind, bind_of_ok hvalue]
      exact hc
  | half =>
    simp only [Datum.Content.padding, Datum.Size.count] at hspace hcapacity
    obtain ⟨c, hc, hlaid⟩ := h₁.exists_emitNumber (by decide : 2 ≤ 8) n (by omega) (by omega)
    obtain rfl := List.mem_singleton.mp hdirective
    exact ⟨c, by rw [Block.directive, bind_of_ok hint, hc], hlaid⟩
  | word =>
    simp only [Datum.Content.padding, Datum.Size.count] at hspace hcapacity
    obtain ⟨c, hc, hlaid⟩ := (h₁.aligned (by omega)).exists_emitNumber (by decide : 4 ≤ 8) n
      (by omega) (by omega)
    obtain rfl := List.mem_singleton.mp hdirective
    exact ⟨c, by rw [Block.directive, bind_of_ok haddress, alignStart, modify_bind, hc], hlaid⟩
  | quad =>
    simp only [Datum.Content.padding, Datum.Size.count] at hspace hcapacity
    obtain ⟨c, hc, hlaid⟩ := h₁.exists_emitNumber (by decide : 8 ≤ 8) n (by omega) (by omega)
    obtain rfl := List.mem_singleton.mp hdirective
    exact ⟨c, by rw [Block.directive, bind_of_ok haddress, hc], hlaid⟩

/-- A directive with a string has the bytes of the string emitted. -/
theorem exists_directive_string {word : List Byte}
    (hplain : ∀ b ∈ word, b ≠ 0 ∧ b.isBreak = false) {directive : Directive}
    (hdirective : directive ∈ Datum.stringDirectives) (hends : Ends behind)
    (h : LaidOut origin bytes 0 (between before (' '.toUInt8 :: (Literal.quotation word ++ behind)))
      b) :
    ∃ b', LaidOut origin bytes 0 (between (before ++ ' '.toUInt8 :: Literal.quotation word) behind)
      b' ∧ Block.directive environment directive b =
        emitString environment before.length word b' := by
  obtain ⟨b₁, h₁, hvalue, -, hbytes⟩ := exists_evaluated (.string word hplain) hends h
  have hstart : b.cursor.pos = before.length := by rw [h.cursor, between]
  refine ⟨b₁, h₁, ?_⟩
  simp only [Datum.stringDirectives, List.mem_cons, List.not_mem_nil, or_false] at hdirective
  rcases hdirective with rfl | rfl
  · rw [Block.directive, Block.string, get_bind, bind_of_ok (hbytes word rfl), hstart]
  · rw [Block.directive, data, get_bind, bind_of_ok hvalue, hstart]
    rfl

/-- A directive lays out its value, unless that is a string that is too long. -/
theorem leads_directive (c : Datum.Content) {directive : Directive}
    (hdirective : directive ∈ c.directives) (hends : Ends behind)
    (h : LaidOut origin bytes 0 (between before (' '.toUInt8 :: (c.literal ++ behind))) b)
    (hspace : c.bytes.length ≤ 256 →
      origin.toNat + (bytes.length + (c.laid (origin.toNat + bytes.length)).length) < 2 ^ 64 ∧
        bytes.length + (c.laid (origin.toNat + bytes.length)).length ≤ Image.capacity) :
    Leads (Block.directive environment directive) b
      (fun _ b' => c.bytes.length ≤ 256 ∧
        LaidOut origin (bytes ++ c.laid (origin.toNat + bytes.length)) 0
          (between (before ++ ' '.toUInt8 :: c.literal) behind) b')
      fun failure b' => ¬c.bytes.length ≤ 256 ∧ b'.state.image = ⟨origin, bytes.toArray⟩ ∧
        failure = ⟨.stringTooLong c.bytes.length,
          (between before (' '.toUInt8 :: (c.literal ++ behind))).spanOf before.length⟩ := by
  cases c with
  | number size n =>
    have hfits : (Datum.Content.number size n).bytes.length ≤ 256 := by
      simp only [Datum.Content.bytes, Datum.littleEndian, List.length_map, List.length_range]
      cases size <;> decide
    obtain ⟨hspace, hcapacity⟩ := hspace hfits
    obtain ⟨b', hb', hlaid⟩ := exists_directive_number hdirective hends h hspace hcapacity
    exact .of_ok hb' ⟨hfits, hlaid⟩
  | string word hplain =>
    obtain ⟨b', hb', hemit⟩ := exists_directive_string hplain hdirective hends h
    by_cases hfits : word.length ≤ 256
    · obtain ⟨hspace, hcapacity⟩ := hspace hfits
      obtain ⟨b'', hb'', hlaid⟩ := hb'.exists_emit word hspace hcapacity
      rw [emitString, longestString, if_neg (Nat.not_lt.mpr hfits)] at hemit
      exact .of_ok (hemit.trans hb'') ⟨hfits, hlaid⟩
    · -- a string that is too long is refused at its start, with nothing of it written
      rw [emitString, longestString, if_pos (Nat.not_le.mp hfits), failAt, hb'.cursor,
        Cursor.between_append] at hemit
      exact .of_error hemit ⟨hfits, hb'.image, rfl⟩

end LaidOut

/-- A directive of the data is done after its name has been read. -/
theorem perform_of_directive {m : Mnemonic} {directive : Directive}
    (h : m.meaning = .directive directive) (hoptions : directive ≠ .options)
    (b : Block Machine Name) : perform environment m b =
      Block.directive environment directive { b with fresh := false } := by
  rw [perform, h]
  cases directive with
  | options => exact absurd rfl hoptions
  | _ => rfl

end Block

namespace Datum

variable {before behind : List Byte}

theorem directive_ne_options {c : Content} {directive : Directive}
    (h : directive ∈ c.directives) : directive ≠ .options := by
  rintro rfl
  cases c with
  | number size n => cases size <;> simp [Content.directives, Size.directives] at h
  | string bytes plain => simp [Content.directives, stringDirectives] at h

/-- At a directive a block has a statement before it. -/
theorem exists_upcoming (d : Datum) {b : Block Machine Name}
    (h : b.cursor = between before (d.text ++ behind)) :
    ∃ meaning?, b.upcoming = .statement meaning? := by
  obtain ⟨c, rest, htext, hc⟩ := d.exists_text_eq_cons
  have hcursor : b.atItem.cursor = between before (d.text ++ behind) := by
    change b.cursor.skipBlanks = _
    rw [h, d.skipBlanks_text]
  have hpeek : b.atItem.cursor.peek = c := by
    rw [hcursor, Cursor.peek_between, htext]
    rfl
  -- no byte that ends a statement is a capital letter, and neither is the dot
  have hother : ∀ c ∈ '.'.toUInt8 :: Byte.stops, Byte.isUpper c = false := by decide
  have hne {p : Byte} (hp : p ∈ '.'.toUInt8 :: Byte.stops) : c ≠ p := by
    rintro rfl
    rw [hother c hp] at hc
    cases hc
  refine ⟨_, Cursor.item_eq_statement ?_ ?_⟩
  · rw [hpeek]
    exact Bool.eq_false_iff.mpr fun hends =>
      hne (List.mem_cons_of_mem _ (Byte.mem_stops.mpr hends)) rfl
  · rw [hpeek]
    exact hne List.mem_cons_self

end Datum

namespace Block.LaidOut

variable {origin : UInt64} {bytes before behind : List Byte} {b : Block Machine Name}

/-- A step at a directive lays out its value, unless that is a string that is too long. -/
theorem leads_step_datum (d : Datum) (hends : Ends behind)
    (h : LaidOut origin bytes 0 (between before (d.text ++ behind)) b)
    (hspace : d.content.bytes.length ≤ 256 → origin.toNat +
        (bytes.length + (d.content.laid (origin.toNat + bytes.length)).length) < 2 ^ 64 ∧
      bytes.length + (d.content.laid (origin.toNat + bytes.length)).length ≤ Image.capacity) :
    Leads (step environment) b
      (fun next c => next = .more ∧ d.content.bytes.length ≤ 256 ∧
        LaidOut origin (bytes ++ d.content.laid (origin.toNat + bytes.length)) 0
          (between (before ++ d.text) behind) c)
      fun failure c => ¬d.content.bytes.length ≤ 256 ∧ c.state.image = ⟨origin, bytes.toArray⟩ ∧
        failure = ⟨.stringTooLong d.content.bytes.length,
          (between before (d.text ++ behind)).spanOf (before ++ bytesOf d.name).length⟩ := by
  obtain ⟨_, hupcoming⟩ := d.exists_upcoming h.cursor
  obtain ⟨m, directive, hlookup, hmeaning, hdirective⟩ :=
    d.exists_lookup before behind
  have hcursor : b.atItem.cursor = between before (d.text ++ behind) := by
    change b.cursor.skipBlanks = _
    rw [h.cursor, d.skipBlanks_text]
  -- the name of the directive is taken off the text, and what is behind it laid out
  refine leads_step_of_statement hupcoming h.atLimit ?_
  rw [Leads, statement_eq, hcursor, hlookup]
  dsimp only
  rw [perform_of_directive hmeaning (Datum.directive_ne_options hdirective)]
  have hnamed : LaidOut origin bytes 0
      (between (before ++ bytesOf d.name) (' '.toUInt8 :: (d.content.literal ++ behind)))
      { b.atItem with
        cursor := between (before ++ bytesOf d.name)
          (' '.toUInt8 :: (d.content.literal ++ behind))
        fresh := false } :=
    ⟨rfl, h.options, h.logical, h.image⟩
  refine (leads_directive d.content hdirective hends hnamed hspace).mono ?_ ?_
  · rintro _ c ⟨hfits, hlaid⟩
    rw [List.append_assoc] at hlaid
    exact ⟨rfl, hfits, hlaid⟩
  · rintro failure c ⟨hlong, himage, rfl⟩
    refine ⟨hlong, himage, ?_⟩
    rw [Datum.text, List.append_assoc, List.cons_append, Cursor.between_append]
    rfl

/-- A step at the end of the text ends the block. -/
theorem exists_step_of_end (h : LaidOut origin bytes 0 (between before []) b) :
    ∃ c, step environment b = .ok .stop c ∧ c.state.image = ⟨origin, bytes.toArray⟩ := by
  have hcursor : b.atItem.cursor = between before [] := by
    change b.cursor.skipBlanks = _
    rw [h.cursor]
    exact Cursor.skipWhile_between_of_head? before (by simp)
  have hupcoming : b.upcoming = .close := by
    rw [upcoming, Cursor.item, hcursor, Cursor.peek_between]
    rfl
  obtain ⟨c, hstep, hstanding⟩ := exists_step_of_close hupcoming h.atLimit
  have himage : c.state.image = b.state.image :=
    congrArg (fun k : Standing => k.machine.image) hstanding
  exact ⟨c, hstep, himage.trans h.image⟩

/-- A step at a colon goes on to the directive behind it. -/
theorem exists_step_of_colon (d : Datum) (rest : List Datum)
    (h : LaidOut origin bytes 0 (between before (Datum.continuation (d :: rest))) b) :
    ∃ c, step environment b = .ok .more c ∧
      LaidOut origin bytes 0 (between (before ++ [':'.toUInt8]) (Datum.source (d :: rest))) c := by
  have hcursor : b.atItem.cursor =
      between before (':'.toUInt8 :: Datum.source (d :: rest)) := by
    change b.cursor.skipBlanks = _
    rw [h.cursor]
    exact Cursor.skipWhile_between_of_head? before (by rintro c ⟨⟩; rfl)
  have hpeek : b.atItem.cursor.peek = ':'.toUInt8 := by
    rw [hcursor, Cursor.peek_between]
    rfl
  obtain ⟨c, hstep, hskip, hstanding⟩ := Block.exists_step_of_colon hpeek h.atLimit
  have hplacement : c.placement = b.placement :=
    congrArg (fun k : Standing => k.position.placement) hstanding
  have himage : c.state.image = b.state.image :=
    congrArg (fun k : Standing => k.machine.image) hstanding
  refine ⟨c, hstep, ?_, hplacement ▸ h.options, hplacement ▸ h.logical, himage.trans h.image⟩
  rw [hskip, hcursor, Cursor.advance_one_between, Datum.source_cons, d.skipBlanks_text]

/-- A string that is too long is where the block fails, with nothing of it laid out. -/
theorem leads_complete_of_not_fits {d : Datum} {rest : List Datum} (hfits : d.fits = false)
    (h : LaidOut origin bytes 0 (between before (Datum.source (d :: rest))) b) :
    Leads (complete environment) b
      (fun _ c => Datum.failure? before (d :: rest) = none ∧ c.state.image = ⟨origin,
        bytes.toArray⟩)
      fun failure c => Datum.failure? before (d :: rest) = some failure ∧ c.state.image = ⟨origin,
        bytes.toArray⟩ := by
  have hlong : ¬d.content.bytes.length ≤ 256 := of_decide_eq_false hfits
  rw [Datum.source_cons] at h
  have hstep := h.leads_step_datum d (Datum.ends_continuation rest) fun h => absurd h hlong
  rw [Datum.failure?_of_not_fits hfits, Datum.source_cons]
  rcases hresult : step environment b with ⟨_, c⟩ | ⟨failure, c⟩
  · exact absurd (hstep.of_eq_ok hresult).2.1 hlong
  · obtain ⟨-, himage, rfl⟩ := hstep.of_eq_error hresult
    exact .of_error (complete_of_error hresult) ⟨rfl, himage⟩

/-- From each directive on, what follows is laid out up to the first string that is too long. -/
theorem leads_complete (items : List Datum)
    (h : LaidOut origin bytes 0 (between before (Datum.source items)) b)
    (hspace : origin.toNat + (bytes.length +
      (Datum.layout (origin.toNat + bytes.length) (items.takeWhile Datum.fits)).length) < 2 ^ 64)
    (hcapacity : bytes.length +
      (Datum.layout (origin.toNat + bytes.length) (items.takeWhile Datum.fits)).length ≤
        Image.capacity) :
    Leads (complete environment) b
      (fun _ c => Datum.failure? before items = none ∧ c.state.image = ⟨origin,
        (bytes ++ Datum.layout (origin.toNat + bytes.length)
          (items.takeWhile Datum.fits)).toArray⟩)
      fun failure c => Datum.failure? before items = some failure ∧ c.state.image = ⟨origin,
        (bytes ++ Datum.layout (origin.toNat + bytes.length)
          (items.takeWhile Datum.fits)).toArray⟩ := by
  -- the induction is on the directives that are left; the text before them and the image grow
  induction items generalizing before bytes b with
  | nil =>
    obtain ⟨c, hstep, himage⟩ := h.exists_step_of_end
    refine .of_ok (complete_of_stop hstep) ⟨rfl, ?_⟩
    rw [himage, List.takeWhile_nil, Datum.layout, List.append_nil]
  | cons d rest ih =>
    by_cases hfits : d.fits = true
    · rw [Datum.source_cons] at h
      rw [List.takeWhile_cons_of_pos hfits, Datum.layout, List.length_append] at hspace hcapacity
      rw [List.takeWhile_cons_of_pos hfits, Datum.layout, Datum.failure?_of_fits hfits]
      have hstep := h.leads_step_datum d (Datum.ends_continuation rest)
        fun _ => ⟨by omega, by omega⟩
      obtain ⟨_, c, hstep, rfl, -, hlaid⟩ := (hstep.mono (fun _ _ hc => hc)
        fun _ _ hc => hc.1 (of_decide_eq_true hfits)).exists_ok
      have hlength : origin.toNat + (bytes ++ d.content.laid (origin.toNat + bytes.length)).length =
          origin.toNat + bytes.length + (d.content.laid (origin.toNat + bytes.length)).length := by
        rw [List.length_append, Nat.add_assoc]
      rw [Leads, complete_of_more hstep, ← List.append_assoc, ← hlength]
      rw [← hlength] at hspace hcapacity
      -- what follows is behind a colon, if anything follows
      cases rest with
      | nil =>
        have hlast : LaidOut origin (bytes ++ d.content.laid (origin.toNat + bytes.length)) 0
            (between (before ++ d.text) (Datum.source [])) c := hlaid
        have hrest := ih hlast (by omega) (by omega)
        exact hrest
      | cons e rest =>
        obtain ⟨c', hstep', hlaid'⟩ := hlaid.exists_step_of_colon e rest
        rw [complete_of_more hstep']
        exact ih hlaid' (by omega) (by omega)
    · rw [List.takeWhile_cons_of_neg hfits, Datum.layout, List.append_nil]
      exact h.leads_complete_of_not_fits (Bool.eq_false_of_not_eq_true hfits)

end Block.LaidOut

namespace Datum

/-- What comes of directives that are assembled at an origin, into an empty machine and with range
checks alone. -/
def outcome (origin : UInt64) (items : List Datum) : Block.Outcome Machine :=
  Block.assemble environment ((Placement.ofOrigin origin).withOptions (.ofInt 2)) (.ofBase origin)
    (.ofBytes (source items).toArray)

/-- Data directives lay out exactly their values, up to the first string that is too long, at which
the block fails. What is laid out has to fit below the end of memory and into an image. -/
theorem values_laid_out (origin : UInt64) (items : List Datum)
    (hspace : origin.toNat + (layout origin.toNat (items.takeWhile fits)).length < 2 ^ 64)
    (hcapacity : (layout origin.toNat (items.takeWhile fits)).length ≤ Image.capacity) :
    (outcome origin items).failure = failure? [] items ∧
      (outcome origin items).state.image =
        ⟨origin, (layout origin.toNat (items.takeWhile fits)).toArray⟩ := by
  have hskip : (Cursor.ofBytes (source items).toArray).skipBlanks = between [] (source items) := by
    cases items with
    | nil => rfl
    | cons d rest =>
      rw [source_cons]
      change (between [] (d.text ++ continuation rest)).skipBlanks = _
      exact d.skipBlanks_text
  have hopened : Block.LaidOut origin [] 0 (between [] (source items)) (Block.opened
      ((Placement.ofOrigin origin).withOptions (.ofInt 2)) (.ofBase origin)
      (.ofBytes (source items).toArray)) := ⟨hskip, rfl, rfl, rfl⟩
  have hcomplete := hopened.leads_complete items (by simpa using hspace) (by simpa using hcapacity)
  rw [List.length_nil, Nat.add_zero, List.nil_append] at hcomplete
  -- what the items lead to is known, and the block comes to nothing else
  rcases hresult : Block.complete environment (Block.opened
      ((Placement.ofOrigin origin).withOptions (.ofInt 2)) (.ofBase origin)
      (.ofBytes (source items).toArray)) with ⟨next, c⟩ | ⟨failure, c⟩
  · obtain ⟨hnone, himage⟩ := hcomplete.of_eq_ok hresult
    rw [outcome, Block.assemble_of_ok hresult]
    exact ⟨hnone.symm, himage⟩
  · obtain ⟨hsome, himage⟩ := hcomplete.of_eq_error hresult
    rw [outcome, Block.assemble_of_error hresult]
    exact ⟨hsome.symm, himage⟩

/-- Directives of several sizes, with a string that is too long among them. -/
def mixed : List Datum :=
  [⟨.number .byte (-1), "DCB", by decide⟩,
    ⟨.string (bytesOf "a\"b:]") (by decide), "EQUS", by decide⟩,
    ⟨.number .word (-2), "DCD", by decide⟩,
    ⟨.number .quad Int64.minValue, "EQUQ", by decide⟩,
    ⟨.string (List.replicate 257 'x'.toUInt8) (by decide +kernel), "DCS", by decide⟩,
    ⟨.number .half 1, "DCW", by decide⟩]

/-- Only the word is aligned, and nothing is laid out from the long string on. -/
theorem values_laid_out_mixed :
    (UInt64.toNat 0x8001 + (layout (UInt64.toNat 0x8001) (mixed.takeWhile fits)).length < 2 ^ 64 ∧
      (layout (UInt64.toNat 0x8001) (mixed.takeWhile fits)).length ≤ Image.capacity) ∧
    (outcome 0x8001 mixed).failure = some ⟨.stringTooLong 257, ⟨1, 58, 57, 1⟩⟩ ∧
    (outcome 0x8001 mixed).state.image = ⟨0x8001, #[0xff, 0x61, 0x22, 0x62, 0x3a, 0x5d, 0,
      0xfe, 0xff, 0xff, 0xff, 0, 0, 0, 0, 0, 0, 0, 0x80]⟩ := by
  have hlayout : layout (UInt64.toNat 0x8001) (mixed.takeWhile fits) = [0xff, 0x61, 0x22, 0x62,
      0x3a, 0x5d, 0, 0xfe, 0xff, 0xff, 0xff, 0, 0, 0, 0, 0, 0, 0, 0x80] := by decide +kernel
  have hfailure : failure? [] mixed = some ⟨.stringTooLong 257, ⟨1, 58, 57, 1⟩⟩ := by
    decide +kernel
  have hfits : UInt64.toNat 0x8001 +
      (layout (UInt64.toNat 0x8001) (mixed.takeWhile fits)).length < 2 ^ 64 ∧
      (layout (UInt64.toNat 0x8001) (mixed.takeWhile fits)).length ≤ Image.capacity := by
    rw [hlayout]
    decide
  have hlaid := values_laid_out 0x8001 mixed hfits.1 hfits.2
  rw [hlayout, hfailure] at hlaid
  exact ⟨hfits, hlaid⟩

end Datum

end InlineA64
