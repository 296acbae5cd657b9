import InlineA64.Proofs.Expression.Item
import InlineA64.Proofs.Reader.Address
import InlineA64.Proofs.Reader.Refuses

/-!
# What readers leave of a text

A reader takes the start of a text and leaves the rest of it for what comes next. `Reader.Leaves`
says so without regard to where the text stands, and so a text that is put together from words, with
any blanks between them, can be followed through a reader word by word.

* `Reader.Leaves.bind`: two readers in sequence;
* `Reader.leaves_accept`, `Reader.leaves_register`, `Reader.leaves_keyword`: what single words come
  to.
-/

namespace InlineA64

open Cursor (between startsRest)
open Expression.Formula (Blank)

/-! ## Words in a text -/

/-- The first byte behind a gap is told by what blanks are not, and neither is what follows. -/
theorem forall_head?_gap {p : Byte → Bool} (hp : ∀ b ∈ bytesOf " \t", p b = false)
    {gap : List Byte} (hgap : Blank gap) {b : Byte} (hb : p b = false) (text : List Byte) :
    ∀ c ∈ (gap ++ b :: text).head?, p c = false := by
  -- the first byte is a blank of the gap, or the byte behind it if the gap is empty
  cases gap with
  | nil =>
    rintro c ⟨⟩
    exact hb
  | cons d gap =>
    rintro c ⟨⟩
    have hblank := hgap d List.mem_cons_self
    rw [Byte.isBlank, Bool.or_eq_true, beq_iff_eq, beq_iff_eq] at hblank
    rcases hblank with rfl | rfl <;> exact hp _ (by decide)

namespace Cursor

variable (before : List Byte) {gap text : List Byte}

theorem skipBlanks_between_gap (hgap : Blank gap) (htext : ∀ b ∈ text.head?, b.isBlank = false) :
    (between before (gap ++ text)).skipBlanks = between (before ++ gap) text :=
  skipWhile_between before hgap htext

theorem ahead_between (text : List Byte) (i : ℕ) : (between before text).ahead i = text.getD i 0 :=
  byteAt_between before i

/-- What a word is compared with starts `i` bytes behind the cursor. -/
theorem agreesAt_between (word text : List Byte) (i : ℕ) :
    (between before text).agreesAt word (before.length + i) = startsRest word (text.drop i) := by
  induction word generalizing i with
  | nil => rw [agreesAt, startsRest, List.map_nil, List.isPrefixOf_nil_left]
  | cons b word ih =>
    rw [agreesAt, Nat.add_assoc, ih, getElem?_between]
    rcases hbyte : text[i]? with _ | c
    · rw [List.drop_eq_nil_of_le (List.getElem?_eq_none_iff.mp hbyte)]
      rfl
    · obtain ⟨hlt, rfl⟩ := List.getElem?_eq_some_iff.mp hbyte
      rw [List.drop_eq_getElem_cons hlt, Option.any_some, startsRest, startsRest, List.map_cons,
        List.map_cons, List.isPrefixOf_cons_cons, Bool.beq_comm]

/-- A word starts the text at a cursor if it starts what is behind the cursor. -/
theorem startsWith_between (word : String) (text : List Byte) :
    (between before text).startsWith word = startsRest (bytesOf word) text :=
  agreesAt_between before (bytesOf word) text 0

end Cursor

namespace Register

/-- The letter of a width. -/
def letter : Width → Byte
  | .x64 => 'X'.toUInt8
  | .w32 => 'W'.toUInt8

/-- The name of a numbered register is its letter and its number. -/
theorem bytesOf_name (width : Width) : ∀ n < 31,
    bytesOf (name ⟨n, width, false⟩) = letter width :: Literal.natural n := by
  cases width <;> decide

theorem widthOfLetter?_letter (width : Width) : widthOfLetter? (letter width) = some width := by
  cases width <;> rfl

/-- A letter and a digit start no register with a name of its own. -/
theorem find?_named_of_digit {c d : Byte} (hd : d.isDigit = true) (text : List Byte) :
    (named.find? fun entry => startsRest (bytesOf entry.1) (c :: d :: text)) = none := by
  -- a digit is no letter, and so either case of it is itself
  have hupper : d.isUpper = false := by
    refine Bool.eq_false_iff.mpr fun hupper => ?_
    have hname : d.startsName = true := by simp [Byte.startsName, Byte.isLetter, hupper]
    rw [Byte.isDigit_of_startsName hname] at hd
    cases hd
  have hlower : d.lower = d := if_neg (Bool.eq_false_iff.mp hupper)
  have hsecond : ∀ entry ∈ named, (bytesOf entry.1).tail.head?.any (!·.lower.isDigit) = true := by
    decide
  rw [List.find?_eq_none]
  intro entry hentry hstarts
  have hother := hsecond entry hentry
  rcases hword : bytesOf entry.1 with _ | ⟨b₁, _ | ⟨b₂, word⟩⟩
  · rw [hword] at hother
    cases hother
  · rw [hword] at hother
    cases hother
  · -- the digit would have to be the second letter of the name
    rw [hword] at hstarts hother
    simp only [startsRest, List.map_cons, List.isPrefixOf_cons_cons, Bool.and_eq_true,
      beq_iff_eq, hlower] at hstarts
    have hletter : (!b₂.lower.isDigit) = true := hother
    rw [hstarts.2.1, hd] at hletter
    cases hletter

variable (before : List Byte) {text : List Byte}

theorem scan?_of_named {r : Register} {word : String}
    (hfind : (named.find? fun entry => startsRest (bytesOf entry.1) (bytesOf word ++ text)) =
      some (word, r)) :
    scan? (between before (bytesOf word ++ text)) =
      some (r, between (before ++ bytesOf word) text) := by
  have hadvance := Cursor.advance_between before (bytesOf word) text
  simp only [scan?, Cursor.startsWith_between, hfind]
  exact congrArg (fun s => some (r, s)) hadvance

theorem numbered?_one_digit {n : ℕ} (hn : n < 10) (width : Width)
    (htext : ∀ b ∈ text.head?, b.isDigit = false) :
    numbered? (between before (letter width :: (Nat.digitChar n).toUInt8 :: text)) =
      some (⟨n, width, false⟩,
        between (before ++ [letter width, (Nat.digitChar n).toUInt8]) text) := by
  -- a second digit would be taken for a part of the number
  have hbehind : (text.getD 0 0).digit? 10 = none := by
    rw [← Option.not_isSome_iff_eq_none, Expression.isSome_digit?_ten]
    cases text with
    | nil => decide
    | cons b text => simpa using htext b rfl
  have hadvance := Cursor.advance_between before [letter width, (Nat.digitChar n).toUInt8] text
  simp only [numbered?, Cursor.peek_between, Cursor.ahead_between, List.getD_cons_zero,
    List.getD_cons_succ, widthOfLetter?_letter, (Literal.digit_spec n hn).2, hbehind,
    Option.bind_eq_bind, Option.bind_some]
  rw [if_pos (by omega)]
  exact congrArg (fun s => some (_, s)) hadvance

theorem numbered?_two_digits {n : ℕ} (hn : n ≤ 30) (width : Width) :
    numbered? (between before (letter width :: (Nat.digitChar (n / 10)).toUInt8 ::
        (Nat.digitChar (n % 10)).toUInt8 :: text)) =
      some (⟨n, width, false⟩, between (before ++ [letter width,
        (Nat.digitChar (n / 10)).toUInt8, (Nat.digitChar (n % 10)).toUInt8]) text) := by
  have htens := (Literal.digit_spec (n / 10) (by omega)).2
  have hones := (Literal.digit_spec (n % 10) (by omega)).2
  have hadvance := Cursor.advance_between before
    [letter width, (Nat.digitChar (n / 10)).toUInt8, (Nat.digitChar (n % 10)).toUInt8] text
  simp only [numbered?, Cursor.peek_between, Cursor.ahead_between, List.getD_cons_zero,
    List.getD_cons_succ, widthOfLetter?_letter, htens, hones, Nat.div_add_mod' n 10,
    Option.bind_eq_bind, Option.bind_some]
  rw [if_pos hn]
  exact congrArg (fun s => some (_, s)) hadvance

theorem scan?_numbered {n : ℕ} (hn : n < 31) (width : Width)
    (htext : ∀ b ∈ text.head?, b.isDigit = false) :
    scan? (between before (letter width :: (Literal.natural n ++ text))) =
      some (⟨n, width, false⟩, between (before ++ letter width :: Literal.natural n) text) := by
  have hnone : (named.find? fun entry => (between before
      (letter width :: (Literal.natural n ++ text))).startsWith entry.1) = none := by
    obtain ⟨d, digits, hdigits, hd⟩ := Literal.exists_natural_eq_cons n
    simp only [Cursor.startsWith_between, hdigits]
    exact find?_named_of_digit hd _
  rw [scan?, hnone]
  -- at most two digits stand behind the letter, and the first of them is no zero if there are two
  by_cases hsmall : n < 10
  · rw [Literal.natural_of_lt hsmall]
    exact numbered?_one_digit before hsmall width htext
  · have hdigits : Literal.natural n =
        [(Nat.digitChar (n / 10)).toUInt8, (Nat.digitChar (n % 10)).toUInt8] := by
      rw [Literal.natural_eq, if_neg hsmall, Literal.natural_of_lt (by omega)]
      rfl
    rw [hdigits]
    exact numbered?_two_digits before (Nat.le_of_lt_succ hn) width

/-- A valid register is a numbered one, or a stack pointer or zero register. -/
theorem Valid.cases {r : Register} (hr : r.Valid) :
    (∃ n < 31, ∃ width, r = ⟨n, width, false⟩) ∨ ∃ width zero, r = ⟨31, width, zero⟩ := by
  obtain ⟨number, width, zero⟩ := r
  rcases Nat.lt_or_eq_of_le hr.number_le with hlt | heq
  · cases zero with
    | false => exact .inl ⟨number, hlt, width, rfl⟩
    | true => exact absurd (hr.number_of_zero rfl) (Nat.ne_of_lt hlt)
  · exact .inr ⟨width, zero, by rw [show number = 31 from heq]⟩

/-- A register is read back from its name, if no digit follows. -/
theorem scan?_name {r : Register} (hr : r.Valid) (htext : ∀ b ∈ text.head?, b.isDigit = false) :
    scan? (between before (bytesOf r.name ++ text)) =
      some (r, between (before ++ bytesOf r.name) text) := by
  rcases hr.cases with ⟨n, hn, width, rfl⟩ | ⟨width, zero, rfl⟩
  · rw [bytesOf_name width n hn]
    exact scan?_numbered before hn width htext
  · cases width <;> cases zero <;> exact scan?_of_named before rfl

/-- The name of a register starts with one of three letters. -/
theorem exists_name_eq_cons {r : Register} (hr : r.Valid) :
    ∃ b ∈ bytesOf "XWS", ∃ tail, bytesOf r.name = b :: tail := by
  rcases hr.cases with ⟨n, hn, width, rfl⟩ | ⟨width, zero, rfl⟩
  · exact ⟨letter width, by cases width <;> decide, Literal.natural n, bytesOf_name width n hn⟩
  · cases width <;> cases zero <;> exact ⟨_, by decide, _, rfl⟩

end Register

/-! ## Readers -/

variable {σ Slot α β : Type}

namespace Reader

/-- From the start of a text a reader yields `a`, and it leaves the cursor before `behind`. What is
before the text does not matter. -/
def Leaves (x : Reader α) (around : Surroundings σ Slot) (text : List Byte) (a : α)
    (behind : List Byte) : Prop :=
  ∀ ⦃before r⦄, r.cursor = between before text → ∃ taken r', text = taken ++ behind ∧
    x.run around r = .ok a r' ∧ r'.cursor = between (before ++ taken) behind

variable {around : Surroundings σ Slot} {x : Reader α} {f : α → Reader β} {a : α} {b : β}
  {gap text behind rest : List Byte}

theorem leaves_pure (a : α) : (pure a : Reader α).Leaves around text a text := by
  intro before r hr
  exact ⟨[], r, rfl, rfl, by rw [List.append_nil, hr]⟩

/-- The second reader goes on where the first has left off. -/
theorem Leaves.bind (hx : x.Leaves around text a behind) (hf : (f a).Leaves around behind b rest) :
    (x >>= f).Leaves around text b rest := by
  intro before r hr
  obtain ⟨taken, r₁, rfl, hrun, hr₁⟩ := hx hr
  obtain ⟨taken', r₂, rfl, hrun', hr₂⟩ := hf hr₁
  refine ⟨taken ++ taken', r₂, (List.append_assoc ..).symm, ?_, ?_⟩
  · rw [run_bind, bind_of_ok hrun, hrun']
  · rw [hr₂, List.append_assoc]

/-- To note the position takes nothing, whatever the mark. -/
theorem leaves_here_bind {f : Mark → Reader β}
    (hf : ∀ mark, (f mark).Leaves around text b behind) :
    (here >>= f).Leaves around text b behind := by
  intro before r hr
  rw [run_bind]
  exact hf ⟨r.marks.length⟩ hr

/-- A request that is answered by a step of the text. -/
theorem leaves_of_step {q : Request α} (step : Cursor → α × Cursor)
    (hq : q.answer around = Reading.step step) (taken : List Byte)
    (hstep : ∀ before, step (between before (taken ++ behind)) =
      (a, between (before ++ taken) behind)) :
    (request q).Leaves around (taken ++ behind) a behind := by
  intro before r hr
  refine ⟨taken, { r with cursor := between (before ++ taken) behind }, rfl, ?_, rfl⟩
  rw [run_request, hq, Reading.step_eq_ok]
  exact ⟨_, hr ▸ hstep before, rfl⟩

/-- A request that is answered by a step of the text that can fail. -/
theorem leaves_of_scan {q : Request α} (scan : Cursor.Scan α)
    (hq : q.answer around = Reading.scan scan) (taken : List Byte)
    (hscan : ∀ before, scan (between before (taken ++ behind)) =
      .ok a (between (before ++ taken) behind)) :
    (request q).Leaves around (taken ++ behind) a behind := by
  intro before r hr
  refine ⟨taken, { r with cursor := between (before ++ taken) behind }, rfl, ?_, rfl⟩
  rw [run_request, hq, Reading.scan_eq_ok]
  exact ⟨_, hr ▸ hscan before, rfl⟩

/-! ### Marks -/

theorem matchesByte_byte (p : Punctuation) : p.matchesByte p.byte = true := by
  cases p <;> rfl

theorem isBlank_byte (p : Punctuation) : p.byte.isBlank = false := by
  cases p <;> rfl

/-- A mark that is not a letter is matched by itself alone. -/
theorem eq_byte_of_matchesByte {p : Punctuation} (hp : p ≠ .control) {b : Byte}
    (h : p.matchesByte b = true) : b = p.byte := by
  rw [Punctuation.matchesByte, beq_iff_eq, Byte.lower] at h
  split at h
  · next hupper =>
    -- a capital letter would be taken for a small one
    have hlt : p.byte.toNat < 0x61 := by cases p <;> first | decide | exact absurd rfl hp
    simp only [Byte.isUpper, Bool.and_eq_true, decide_eq_true_eq, UInt8.le_iff_toNat_le,
      UInt8.reduceToNat] at hupper
    simp only [← h, UInt8.toNat_add, UInt8.reduceToNat] at hlt
    omega
  · exact h

/-- A mark that is not a letter is next only where the text starts with it. -/
theorem exists_eq_cons_of_matchesByte {p : Punctuation} (hp : p ≠ .control)
    (h : p.matchesByte (text.headD 0) = true) : ∃ tail, text = p.byte :: tail := by
  cases text with
  | nil =>
    have hzero : p.matchesByte 0 = false := by cases p <;> rfl
    exact absurd h (Bool.eq_false_iff.mp hzero)
  | cons b tail =>
    obtain rfl : b = p.byte := eq_byte_of_matchesByte hp h
    exact ⟨tail, rfl⟩

theorem leaves_sees {p : Punctuation} {seen : Bool} (hgap : Blank gap)
    (htext : ∀ b ∈ text.head?, b.isBlank = false) (hseen : p.matchesByte (text.headD 0) = seen) :
    (sees p).Leaves around (gap ++ text) seen text := by
  refine leaves_of_step (Cursor.look fun s => p.matchesByte s.peek) rfl gap fun before => ?_
  rw [Cursor.look, Cursor.skipBlanks_between_gap before hgap htext, Cursor.peek_between, ← hseen]
  cases text <;> rfl

theorem leaves_sees_byte (p : Punctuation) (hgap : Blank gap) :
    (sees p).Leaves around (gap ++ p.byte :: text) true (p.byte :: text) := by
  refine leaves_sees hgap ?_ (matchesByte_byte p)
  rintro b ⟨⟩
  exact isBlank_byte p

theorem leaves_sees_other {p : Punctuation} {b : Byte} (hgap : Blank gap)
    (hblank : b.isBlank = false) (hb : p.matchesByte b = false) :
    (sees p).Leaves around (gap ++ b :: text) false (b :: text) := by
  refine leaves_sees hgap ?_ hb
  rintro c ⟨⟩
  exact hblank

theorem leaves_accept (p : Punctuation) (hgap : Blank gap) :
    (accept p).Leaves around (gap ++ p.byte :: text) true text := by
  rw [List.append_cons]
  refine leaves_of_step (fun s => p.take s.skipBlanks) rfl (gap ++ [p.byte]) fun before => ?_
  have hblank : ∀ b ∈ (p.byte :: text).head?, b.isBlank = false := by
    rintro b ⟨⟩
    exact isBlank_byte p
  rw [← List.append_cons, Cursor.skipBlanks_between_gap before hgap hblank, Punctuation.take,
    Cursor.peek_between, List.getD_cons_zero, if_pos (matchesByte_byte p),
    Cursor.advance_one_between, List.append_assoc]

theorem leaves_accept_other {p : Punctuation} {b : Byte} (hgap : Blank gap)
    (hblank : b.isBlank = false) (hb : p.matchesByte b = false) :
    (accept p).Leaves around (gap ++ b :: text) false (b :: text) := by
  refine leaves_of_step (fun s => p.take s.skipBlanks) rfl gap fun before => ?_
  have htext : ∀ c ∈ (b :: text).head?, c.isBlank = false := by
    rintro c ⟨⟩
    exact hblank
  rw [Cursor.skipBlanks_between_gap before hgap htext, Punctuation.take, Cursor.peek_between,
    List.getD_cons_zero, hb]
  rfl

theorem leaves_expect {p : Punctuation} (fault : Fault) (hgap : Blank gap) :
    (expect p fault).Leaves around (gap ++ p.byte :: text) () text :=
  (leaves_accept p hgap).bind (leaves_pure ())

/-- What decides on post-indexing stands behind the blanks, and behind those after a comma. -/
theorem leaves_seesPostIndex {seen : Bool} (hgap : Blank gap)
    (htext : ∀ b ∈ text.head?, b.isBlank = false)
    (hseen : (Punctuation.comma.matchesByte (text.headD 0) &&
      Punctuation.hash.matchesByte ((text.tail.dropWhile Byte.isBlank).headD 0)) = seen) :
    (request .seesPostIndex).Leaves around (gap ++ text) seen text := by
  refine leaves_of_step (Cursor.look Cursor.atPostIndex) rfl gap fun before => ?_
  rw [Cursor.look, Cursor.skipBlanks_between_gap before hgap htext, Cursor.atPostIndex, ← hseen]
  cases text with
  | nil =>
    rw [Cursor.peek_between]
    rfl
  | cons c text =>
    rw [Cursor.peek_between, Cursor.advance_one_between, Cursor.skipBlanks_between_dropWhile,
      Cursor.peek_between, List.tail_cons]
    cases text.dropWhile Byte.isBlank <;> rfl

theorem leaves_closeBracket (hgap : Blank gap) :
    closeBracket.Leaves around (gap ++ ']'.toUInt8 :: text) () text := by
  rw [List.append_cons]
  refine leaves_of_scan Cursor.closeBracket rfl (gap ++ [']'.toUInt8]) fun before => ?_
  have hblank : ∀ b ∈ (']'.toUInt8 :: text).head?, Byte.isBlank b = false := by
    rintro b ⟨⟩
    rfl
  have haccept : (between before (gap ++ ']'.toUInt8 :: text)).accept ']'.toUInt8 =
      (true, between (before ++ gap ++ [']'.toUInt8]) text) := by
    rw [Cursor.accept, Cursor.skipBlanks_between_gap before hgap hblank, Cursor.peek_between,
      Cursor.between_append (before ++ gap)]
    rfl
  rw [← List.append_cons, ← List.append_assoc, Cursor.closeBracket, Cursor.expect,
    bind_of_ok (modifyGet_eq_ok.mpr haccept)]
  rfl

/-! ### Words -/

/-- A keyword is taken if it is the one that the table is matched with. -/
theorem leaves_keyword {v : Vocabulary β} {word : String} (hgap : Blank gap)
    (hword : ∀ b ∈ (bytesOf word ++ text).head?, b.isBlank = false)
    (hfind : (v.entries.reverse.find? fun entry =>
      startsRest (bytesOf entry.1) (bytesOf word ++ text)) = some (word, b)) :
    (keyword v).Leaves around (gap ++ (bytesOf word ++ text)) (some b) text := by
  rw [← List.append_assoc]
  refine leaves_of_step (·.keyword? v.entries) rfl (gap ++ bytesOf word) fun before => ?_
  have hadvance := Cursor.advance_between (before ++ gap) (bytesOf word) text
  rw [List.append_assoc, Cursor.keyword?, Cursor.skipBlanks_between_gap before hgap hword]
  simp only [Cursor.lastMatch?, Cursor.startsWith_between, hfind]
  rw [← List.append_assoc]
  exact congrArg (Prod.mk (some b)) hadvance

/-- A name can be told by its first letter from blanks and from marks. -/
theorem forall_head?_name {r : Register} (hr : r.Valid) {p : Byte → Bool}
    (hp : ∀ b ∈ bytesOf "XWS", p b = false) (text : List Byte) :
    ∀ b ∈ (bytesOf r.name ++ text).head?, p b = false := by
  obtain ⟨b, hb, tail, hname⟩ := Register.exists_name_eq_cons hr
  rw [hname]
  rintro c ⟨⟩
  exact hp b hb

theorem leaves_register {r : Register} (hr : r.Valid) (hgap : Blank gap)
    (htext : ∀ b ∈ text.head?, b.isDigit = false) :
    register.Leaves around (gap ++ (bytesOf r.name ++ text)) r text := by
  rw [← List.append_assoc]
  refine leaves_of_scan (Register.readFor around.mnemonic) rfl (gap ++ bytesOf r.name) ?_
  intro before
  have hblank := forall_head?_name hr (p := Byte.isBlank) (by decide) text
  have hskip := Cursor.skipBlanks_between_gap before hgap hblank
  -- blanks are skipped a second time by `Register.read`, to no effect
  have hagain := Cursor.skipBlanks_between_gap (before ++ gap) (List.forall_mem_nil _) hblank
  have hscan := Register.scan?_name (before ++ gap) hr htext
  rw [List.nil_append, List.append_nil] at hagain
  rw [List.append_assoc, Register.readFor, modify_bind, get_bind, hskip, hscan, Option.isNone_some,
    Bool.false_and, if_neg Bool.false_ne_true, Register.read, modify_bind, get_bind, hagain, hscan,
    List.append_assoc]
  rfl

theorem leaves_addressRegister {r : Register} (hr : Role.address.Admits r)
    (hwide : r.isWide = true) (hgap : Blank gap) (htext : ∀ b ∈ text.head?, b.isDigit = false) :
    addressRegister.Leaves around (gap ++ (bytesOf r.name ++ text)) r text := by
  refine leaves_here_bind fun mark => (leaves_register hr.1 hgap htext).bind ?_
  rw [hwide, hr.2]
  exact leaves_pure r

/-! ### Values -/

/-- A value is what the environment takes behind blanks. -/
theorem leaves_value {v : Int64} {word : List Byte} (hgap : Blank gap)
    (hword : ∀ b ∈ (word ++ text).head?, b.isBlank = false)
    (h : ∀ before w, ∃ w', around.environment.evaluateInt around.context
      (between before (word ++ text), w) = .ok v (between (before ++ word) text, w')) :
    (request .value).Leaves around (gap ++ (word ++ text)) v text := by
  rintro before ⟨s, w, marks⟩ rfl
  -- the environment starts behind the blanks, and of its cursor only the position is taken over
  obtain ⟨w', hw'⟩ := h (before ++ gap) w
  refine ⟨gap ++ word, ⟨between (before ++ (gap ++ word)) text, w', marks⟩,
    (List.append_assoc ..).symm, ?_, rfl⟩
  have hskip : Reading.step (fun s : Cursor => ((), s.skipBlanks))
      ⟨between before (gap ++ (word ++ text)), w, marks⟩ =
      .ok () ⟨between (before ++ gap) (word ++ text), w, marks⟩ := by
    rw [Reading.step_eq_ok]
    exact ⟨_, congrArg (Prod.mk ()) (Cursor.skipBlanks_between_gap before hgap hword), rfl⟩
  have hadvance := Cursor.advanceTo_between (before ++ gap) word text
  rw [run_request, Request.answer, Surroundings.integer, bind_of_ok hskip, Reading.consult, hw']
  dsimp only
  rw [hadvance, List.append_assoc]

end Reader

end InlineA64
