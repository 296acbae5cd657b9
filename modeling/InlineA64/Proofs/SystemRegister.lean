import InlineA64.Proofs.Embeds.Register
import InlineA64.Proofs.Encoder.System
import InlineA64.Proofs.Keyword
import InlineA64.Proofs.Total

/-!
# The numeric spelling of system registers

A system register can be written by its five numbers: `S3_1_C11_C0_2`. `SystemRegister.Spells` is
the grammar of these words, and `SystemRegister.Accepts` says what an attempt takes of a text, word
by word, so that the reader is followed from its smallest parts.

* `SystemRegister.Accepts.bind`: two attempts in sequence accept two words in sequence;
* `SystemRegister.accepts_numeric`: the numeric reader accepts the words of the grammar that no
  further byte of a word follows;
* `SystemRegister.read_eq_ok_iff`: a text that starts with no name of a system register is read if
  and only if such a word is behind its blanks.
-/

namespace InlineA64

open Cursor (between)
open Expression.Formula (Blank)
open Literal (natural)

/-- The digits are the bytes that numbers below ten are written with. -/
theorem Byte.digit?_ten_eq_some {b : Byte} {n : ℕ} :
    b.digit? 10 = some n ↔ n < 10 ∧ [b] = natural n := by
  constructor
  · have hdigit : (b.digit? 10).all
        fun n => decide (n < 10) && b == (Nat.digitChar n).toUInt8 :=
      Byte.forall_of_all (P := fun b => (b.digit? 10).all
        fun n => decide (n < 10) && b == (Nat.digitChar n).toUInt8) (by decide +kernel) b
    intro h
    rw [h, Option.all_some, Bool.and_eq_true, decide_eq_true_eq, beq_iff_eq] at hdigit
    obtain ⟨hn, rfl⟩ := hdigit
    exact ⟨hn, (Literal.natural_of_lt hn).symm⟩
  · rintro ⟨hn, hb⟩
    rw [Literal.natural_of_lt hn, List.singleton_inj] at hb
    rw [hb, (Literal.digit_spec n hn).2]

namespace SystemRegister

/-! ## What attempts accept -/

variable {α β : Type} {P P' : α → List Byte → List Byte → Prop}
  {Q : α → β → List Byte → List Byte → Prop} {x : Attempt α} {f : α → Attempt β}

/-- An attempt yields `a` if and only if the text is a word and a rest that `P` allows for `a`, and
it leaves the cursor between the two. -/
def Accepts (x : Attempt α) (P : α → List Byte → List Byte → Prop) : Prop :=
  ∀ before text a s, x.run (between before text) = (some a, s) ↔
    ∃ word rest, text = word ++ rest ∧ P a word rest ∧ s = between (before ++ word) rest

theorem run_bind_eq_some {b : β} {s t : Cursor} : (x >>= f).run s = (some b, t) ↔
    ∃ a u, x.run s = (some a, u) ∧ (f a).run u = (some b, t) := by
  rw [OptionT.run_bind, Option.elimM]
  simp only [Bind.bind, StateT.bind]
  rcases hrun : x.run s with ⟨_ | a, u⟩
  · constructor
    · rintro ⟨⟩
    · rintro ⟨a, v, ⟨⟩, -⟩
  · constructor
    · exact fun h => ⟨a, u, rfl, h⟩
    · rintro ⟨a, v, ⟨⟩, h⟩
      exact h

namespace Accepts

theorem congr (hx : Accepts x P) (h : ∀ a word rest, P a word rest ↔ P' a word rest) :
    Accepts x P' := by
  intro before text a s
  rw [hx]
  simp only [h]

protected theorem bind (hx : Accepts x P) (hf : ∀ a, Accepts (f a) (Q a)) :
    Accepts (x >>= f) fun b word rest =>
      ∃ a first second, word = first ++ second ∧ P a first (second ++ rest) ∧
        Q a b second rest := by
  intro before text b s
  rw [run_bind_eq_some]
  constructor
  · rintro ⟨a, u, hfirst, hsecond⟩
    obtain ⟨first, behind, rfl, hP, rfl⟩ := (hx _ _ _ _).mp hfirst
    obtain ⟨second, rest, rfl, hQ, rfl⟩ := (hf a _ _ _ _).mp hsecond
    refine ⟨first ++ second, rest, ?_, ⟨a, first, second, rfl, hP, hQ⟩, ?_⟩
    · rw [List.append_assoc]
    · rw [List.append_assoc]
  · rintro ⟨_, rest, rfl, ⟨a, first, second, rfl, hP, hQ⟩, rfl⟩
    refine ⟨a, between (before ++ first) (second ++ rest), (hx _ _ _ _).mpr ?_,
      (hf a _ _ _ _).mpr ?_⟩
    · exact ⟨first, second ++ rest, List.append_assoc .., hP, rfl⟩
    · exact ⟨second, rest, rfl, hQ, by rw [List.append_assoc]⟩

end Accepts

/-- An attempt that takes nothing and yields `a` where `p` holds. -/
theorem accepts_guard (p : Prop) [Decidable p] (a : α) :
    Accepts (if p then pure a else failure) fun b word _ => p ∧ b = a ∧ word = [] := by
  intro before text b s
  by_cases hp : p
  · rw [if_pos hp]
    constructor
    · rintro ⟨⟩
      exact ⟨[], text, rfl, ⟨hp, rfl, rfl⟩, by rw [List.append_nil]⟩
    · rintro ⟨_, rest, rfl, ⟨-, rfl, rfl⟩, rfl⟩
      rw [List.append_nil]
      rfl
  · rw [if_neg hp]
    constructor
    · rintro ⟨⟩
    · rintro ⟨_, _, _, ⟨hp', -⟩, -⟩
      exact absurd hp' hp

theorem accepts_takeIf {p : Byte → Bool} (hend : p 0 = false) :
    Accepts (takeIf p) fun b word _ => p b = true ∧ word = [b] := by
  intro before text b s
  rw [run_takeIf, Cursor.peek_between]
  constructor
  · intro h
    split at h
    · next hp =>
      cases text with
      | nil =>
        -- behind the text stands the byte 0, which is not taken
        rw [List.getD_nil, hend] at hp
        cases hp
      | cons c text =>
        rw [List.getD_cons_zero] at h hp
        rw [Cursor.advance_one_between] at h
        cases h
        exact ⟨[_], text, rfl, ⟨hp, rfl⟩, rfl⟩
    · cases h
  · rintro ⟨_, rest, rfl, ⟨hp, rfl⟩, rfl⟩
    rw [List.singleton_append, List.getD_cons_zero, if_pos hp, Cursor.advance_one_between]

/-! ## The parts of a word -/

theorem digit?_peek_eq_some {before text : List Byte} {n : ℕ} :
    (between before text).peek.digit? 10 = some n ↔ n < 10 ∧ natural n <+: text := by
  rw [Cursor.peek_between]
  cases text with
  | nil =>
    constructor
    · rintro ⟨⟩
    · rintro ⟨hn, hprefix⟩
      rw [Literal.natural_of_lt hn] at hprefix
      cases List.prefix_nil.mp hprefix
  | cons b text =>
    rw [List.getD_cons_zero, Byte.digit?_ten_eq_some]
    refine and_congr_right fun hn => ?_
    rw [Literal.natural_of_lt hn, List.singleton_inj, List.cons_prefix_cons, eq_comm]
    exact (and_iff_left (List.nil_prefix)).symm

theorem advance_natural (before rest : List Byte) {n : ℕ} (hn : n < 10) :
    (between before (natural n ++ rest)).advance 1 = between (before ++ natural n) rest := by
  rw [Literal.natural_of_lt hn]
  exact Cursor.advance_one_between before _ rest

theorem accepts_digit : Accepts digit fun n word _ => n < 10 ∧ word = natural n := by
  intro before text n s
  simp only [digit, OptionT.run]
  constructor
  · intro h
    split at h
    · next m hdigit =>
      obtain ⟨hm, rest, rfl⟩ := digit?_peek_eq_some.mp hdigit
      rw [advance_natural _ _ hm] at h
      cases h
      exact ⟨_, rest, rfl, ⟨hm, rfl⟩, rfl⟩
    · cases h
  · rintro ⟨_, rest, rfl, ⟨hn, rfl⟩, rfl⟩
    rw [digit?_peek_eq_some.mpr ⟨hn, List.prefix_append _ _⟩]
    dsimp only
    rw [advance_natural _ _ hn]

/-- No digit stands there that, behind a leading 1, makes a number up to 15. -/
def Ended (rest : List Byte) : Prop :=
  ∀ n ≤ 5, ¬natural n <+: rest

theorem ended_iff (before : List Byte) {rest : List Byte} :
    Ended rest ↔ ∀ n, (between before rest).peek.digit? 10 = some n → ¬n ≤ 5 := by
  simp only [digit?_peek_eq_some]
  constructor
  · exact fun hended n ⟨_, hprefix⟩ hle => hended n hle hprefix
  · exact fun h n hle hprefix => h n ⟨by omega, hprefix⟩ hle

/-- What starts with an underscore is no digit. -/
theorem ended_underscore (rest : List Byte) : Ended ('_'.toUInt8 :: rest) := by
  rw [ended_iff [], Cursor.peek_between]
  rintro n ⟨⟩

theorem accepts_secondDigit (first : ℕ) : Accepts (secondDigit first) fun n word rest =>
    n = first ∧ word = [] ∧ (first = 1 → Ended rest) ∨
      first = 1 ∧ ∃ d ≤ 5, n = 10 + d ∧ word = natural d := by
  intro before text n s
  simp only [secondDigit, OptionT.run]
  constructor
  · intro h
    split at h
    · next d hdigit =>
      split at h
      · next hfits =>
        obtain ⟨hd, rest, rfl⟩ := digit?_peek_eq_some.mp hdigit
        rw [advance_natural _ _ hd] at h
        cases h
        exact ⟨natural d, rest, rfl, .inr ⟨hfits.1, d, hfits.2, rfl, rfl⟩, rfl⟩
      · next hfits =>
        -- the digit stays, so behind a leading 1 it does not fit
        cases h
        refine ⟨[], text, rfl, .inl ⟨rfl, rfl, fun hone => (ended_iff before).mpr ?_⟩, ?_⟩
        · intro m hm hle
          obtain rfl : d = m := Option.some.inj (hdigit.symm.trans hm)
          exact hfits ⟨hone, hle⟩
        · rw [List.append_nil]
    · next hdigit =>
      cases h
      refine ⟨[], text, rfl, .inl ⟨rfl, rfl, fun _ => (ended_iff before).mpr ?_⟩, ?_⟩
      · intro m hm
        rw [hdigit] at hm
        cases hm
      · rw [List.append_nil]
  · rintro ⟨_, rest, rfl, ⟨rfl, rfl, hended⟩ | ⟨rfl, d, hd, rfl, rfl⟩, rfl⟩
    · rw [List.nil_append, List.append_nil]
      split
      · next d hdigit =>
        rw [if_neg]
        rintro ⟨hone, hd⟩
        exact (ended_iff before).mp (hended hone) d hdigit hd
      · rfl
    · rw [digit?_peek_eq_some.mpr ⟨by omega, List.prefix_append _ _⟩]
      dsimp only
      rw [if_pos ⟨rfl, hd⟩, advance_natural _ _ (by omega)]

theorem accepts_opcode :
    Accepts opcode fun n word _ => n ≤ 7 ∧ word = '_'.toUInt8 :: natural n := by
  refine (Accepts.bind (accepts_takeIf rfl) fun _ => accepts_digit.bind fun n =>
    accepts_guard (n ≤ 7) n).congr fun n word rest => ?_
  constructor
  · rintro ⟨b, first, _, rfl, ⟨hb, rfl⟩, m, digits, _, rfl, ⟨-, rfl⟩, hn, rfl, rfl⟩
    rw [List.append_nil]
    exact ⟨hn, congrArg (· :: natural n) (beq_iff_eq.mp hb)⟩
  · rintro ⟨hn, rfl⟩
    exact ⟨_, _, natural n, rfl, ⟨beq_iff_eq.mpr rfl, rfl⟩, n, natural n, [],
      (List.append_nil _).symm, ⟨by omega, rfl⟩, hn, rfl, rfl⟩

/-- A number up to 15 is a digit, or 1 and a digit up to 5. -/
theorem natural_ten_add {d : ℕ} (hd : d ≤ 5) : natural (10 + d) = natural 1 ++ natural d := by
  have htens : (10 + d) / 10 = 1 := by omega
  have hones : (10 + d) % 10 = d := by omega
  rw [Literal.natural_eq, if_neg (by omega), htens, hones,
    Literal.natural_of_lt (by omega : d < 10)]

theorem accepts_controlRegister : Accepts controlRegister fun n word rest =>
    n ≤ 15 ∧ (∃ c : Byte, c.lower = 'c'.toUInt8 ∧ word = '_'.toUInt8 :: c :: natural n) ∧
      (n = 1 → Ended rest) := by
  refine (Accepts.bind (accepts_takeIf rfl) fun _ => Accepts.bind (accepts_takeIf rfl) fun _ =>
    accepts_digit.bind accepts_secondDigit).congr fun n word rest => ?_
  constructor
  · rintro ⟨b, _, _, rfl, ⟨hb, rfl⟩, c, _, _, rfl, ⟨hc, rfl⟩, m, _, second, rfl, ⟨hm, rfl⟩, hsecond⟩
    obtain rfl : b = '_'.toUInt8 := beq_iff_eq.mp hb
    rcases hsecond with ⟨rfl, rfl, hended⟩ | ⟨rfl, d, hd, rfl, rfl⟩
    · -- one digit: a leading one has to be followed by the end of the number
      refine ⟨by omega, ⟨c, beq_iff_eq.mp hc, ?_⟩, hended⟩
      rw [List.append_nil]
      rfl
    · -- two digits: the first of them is a one
      refine ⟨by omega, ⟨c, beq_iff_eq.mp hc, ?_⟩, by omega⟩
      rw [natural_ten_add hd]
      rfl
  · rintro ⟨hn, ⟨c, hc, rfl⟩, hended⟩
    refine ⟨_, ['_'.toUInt8], c :: natural n, rfl, ⟨beq_iff_eq.mpr rfl, rfl⟩, c, [c], natural n,
      rfl, ⟨beq_iff_eq.mpr hc, rfl⟩, ?_⟩
    by_cases hsmall : n < 10
    · exact ⟨n, natural n, [], (List.append_nil _).symm, ⟨hsmall, rfl⟩, .inl ⟨rfl, rfl, hended⟩⟩
    · obtain ⟨d, rfl⟩ := Nat.exists_eq_add_of_le (Nat.le_of_not_lt hsmall)
      exact ⟨1, natural 1, natural d, natural_ten_add (by omega), ⟨by decide, rfl⟩,
        .inr ⟨rfl, d, by omega, rfl, rfl⟩⟩

/-! ## Whole words -/

/-- A word spells a system register: the numbers stand in it in decimal, with underscores between
them, and the letters before them are of either case. -/
structure Spells (r : SystemRegister) (word : List Byte) : Prop where
  op0_eq : r.op0 = 2 ∨ r.op0 = 3
  op1_le : r.op1 ≤ 7
  crn_le : r.crn ≤ 15
  crm_le : r.crm ≤ 15
  op2_le : r.op2 ≤ 7
  word_eq : ∃ s c d : Byte, s.lower = 's'.toUInt8 ∧ c.lower = 'c'.toUInt8 ∧ d.lower = 'c'.toUInt8 ∧
    word = s :: natural r.op0 ++ '_'.toUInt8 :: natural r.op1 ++
      '_'.toUInt8 :: c :: natural r.crn ++ '_'.toUInt8 :: d :: natural r.crm ++
      '_'.toUInt8 :: natural r.op2

/-- The digit behind the first letter is the class. -/
theorem class_iff {op0 : ℕ} {word : List Byte} :
    (∃ b : Byte, (b == '2'.toUInt8 || b == '3'.toUInt8) = true ∧ b.toNat - 0x30 = op0 ∧
      word = [b]) ↔ (op0 = 2 ∨ op0 = 3) ∧ word = natural op0 := by
  simp only [Bool.or_eq_true, beq_iff_eq]
  constructor
  · rintro ⟨b, rfl | rfl, rfl, rfl⟩
    · exact ⟨.inl rfl, rfl⟩
    · exact ⟨.inr rfl, rfl⟩
  · rintro ⟨rfl | rfl, rfl⟩
    · exact ⟨_, .inl rfl, rfl, rfl⟩
    · exact ⟨_, .inr rfl, rfl, rfl⟩

theorem accepts_end (r : SystemRegister) : Accepts (do
    if (← get).peek.continuesWord then failure else pure r) fun r' word rest =>
      r' = r ∧ word = [] ∧ ∀ b ∈ rest.head?, b.continuesWord = false := by
  intro before text r' s
  rw [run_unlessContinued]
  constructor
  · intro h
    split at h
    · cases h
    · next hcontinues =>
      cases h
      have hrest := (Cursor.peek_eq_false_iff before (by decide)).mp
        (Bool.eq_false_iff.mpr hcontinues)
      exact ⟨[], text, rfl, ⟨rfl, rfl, hrest⟩, by rw [List.append_nil]⟩
  · rintro ⟨_, rest, rfl, ⟨rfl, rfl, hrest⟩, rfl⟩
    have hpeek := (Cursor.peek_eq_false_iff before (by decide)).mpr hrest
    rw [List.nil_append, List.append_nil, hpeek, if_neg Bool.false_ne_true]

theorem accepts_numeric : Accepts numeric fun r word rest =>
    r.Spells word ∧ ∀ b ∈ rest.head?, b.continuesWord = false := by
  refine (Accepts.bind (accepts_takeIf rfl) fun _ => Accepts.bind (accepts_takeIf rfl) fun op0 =>
    accepts_opcode.bind fun op1 => accepts_controlRegister.bind fun crn =>
      accepts_controlRegister.bind fun crm => accepts_opcode.bind fun op2 =>
        accepts_end ⟨op0.toNat - 0x30, op1, crn, crm, op2⟩).congr fun r word rest => ?_
  -- each part comes with its word, and the underscore of the next one ends a number up to 15
  constructor
  · rintro ⟨s, _, _, rfl, ⟨hs, rfl⟩, b, _, _, rfl, ⟨hb, rfl⟩, op1, _, _, rfl, ⟨hop1, rfl⟩,
      crn, _, _, rfl, ⟨hcrn, ⟨c, hc, rfl⟩, -⟩, crm, _, _, rfl, ⟨hcrm, ⟨d, hd, rfl⟩, -⟩,
      op2, _, _, rfl, ⟨hop2, rfl⟩, rfl, rfl, hrest⟩
    obtain ⟨hop0, hclass⟩ := class_iff.mp ⟨b, hb, rfl, rfl⟩
    refine ⟨⟨hop0, hop1, hcrn, hcrm, hop2, s, c, d, beq_iff_eq.mp hs, hc, hd, ?_⟩, hrest⟩
    simp [hclass]
  · rintro ⟨⟨hop0, hop1, hcrn, hcrm, hop2, s, c, d, hs, hc, hd, rfl⟩, hrest⟩
    obtain ⟨op0, op1, crn, crm, op2⟩ := r
    obtain ⟨b, hb, rfl, hclass⟩ := class_iff.mpr ⟨hop0, rfl⟩
    refine ⟨s, [s], _, ?_, ⟨beq_iff_eq.mpr hs, rfl⟩, b, [b], _, rfl, ⟨hb, rfl⟩, op1, _, _, rfl,
      ⟨hop1, rfl⟩, crn, _, _, rfl, ⟨hcrn, ⟨c, hc, rfl⟩, fun _ => ended_underscore _⟩, crm, _, _,
      rfl, ⟨hcrm, ⟨d, hd, rfl⟩, fun _ => ended_underscore _⟩, op2, _, [], rfl, ⟨hop2, rfl⟩, rfl,
      rfl, hrest⟩
    simp [hclass]

/-! ## Words in a text -/

/-- A word is the name of a system register, in whatever case. -/
def Named (word : List Byte) : Prop :=
  ∃ entry ∈ named, word.map Byte.lower = (bytesOf entry.1).map Byte.lower

instance (word : List Byte) : Decidable (Named word) :=
  inferInstanceAs (Decidable (∃ entry ∈ named, _))

/-- Where no name is taken, the text is read as numbers. -/
theorem read_eq_ok_of_none {s t t' : Cursor} {r : SystemRegister}
    (hnone : s.wholeWord? named = (none, t)) :
    read s = .ok r t' ↔ numeric.run t = (some r, t') := by
  have hread : (modifyGet (·.wholeWord? named) : Cursor.Scan (Option SystemRegister)) s =
      .ok none t := modifyGet_eq_ok.mpr hnone
  rw [read, bind_of_ok hread]
  dsimp only
  rw [get_bind, bind_eq_ok]
  simp only [modifyGet_eq_ok]
  constructor
  · rintro ⟨_ | r', u, hrun, h⟩
    · cases h
    · obtain ⟨rfl, rfl⟩ := pure_eq_ok.mp h
      exact hrun
  · exact fun hrun => ⟨some r, t', hrun, rfl⟩

/-- No blank starts a word of the grammar. -/
theorem Spells.isBlank_head? {r : SystemRegister} {word : List Byte} (h : r.Spells word)
    (rest : List Byte) : ∀ b ∈ (word ++ rest).head?, b.isBlank = false := by
  obtain ⟨s, c, d, hs, -, -, rfl⟩ := h.word_eq
  have hblank : s.isBlank = true → s.lower ≠ 's'.toUInt8 :=
    Byte.forall_of_all (P := fun s => s.isBlank = true → s.lower ≠ 's'.toUInt8)
      (by decide +kernel) s
  rintro b ⟨⟩
  exact Bool.eq_false_iff.mpr fun hb => hblank hb hs

theorem Spells.valid {r : SystemRegister} {word : List Byte} (h : r.Spells word) : r.Valid where
  op1_lt := Nat.lt_succ_of_le h.op1_le
  crn_lt := Nat.lt_succ_of_le h.crn_le
  crm_lt := Nat.lt_succ_of_le h.crm_le
  op2_lt := Nat.lt_succ_of_le h.op2_le

/-- The bits of a system register are its numbers side by side, the class less 2. -/
theorem Spells.toNat_word_encode {r : SystemRegister} {word : List Byte} (h : r.Spells word) :
    (r.encode (Encoding.of 0)).word.toNat = (r.op0 - 2) * 2 ^ 19 + r.op1 * 2 ^ 16 +
      r.crn * 2 ^ 12 + r.crm * 2 ^ 8 + r.op2 * 2 ^ 5 := by
  rw [(Encoder.encode_describes 0 h.valid).toNat_word (by decide)]
  have hclass : (r.op0 == 3).toNat = r.op0 - 2 := by
    rcases h.op0_eq with hop0 | hop0 <;> rw [hop0] <;> rfl
  simp [encode, hclass]

/-- Where no system register is named, a text is read if and only if behind its blanks it starts
with a numeric spelling that no letter, digit or underscore follows. Then the cursor is moved just
behind that word, and the numbers that stand in it are the bits 19, 16 to 18, 12 to 15, 8 to 11 and
5 to 7 of what is encoded. -/
theorem read_eq_ok_iff (before text : List Byte) (hnamed : ¬Named (leadingWord text))
    (r : SystemRegister) (s : Cursor) :
    (read (between before text) = .ok r s ↔ ∃ gap word rest, text = gap ++ (word ++ rest) ∧
      Blank gap ∧ r.Spells word ∧ (∀ b ∈ rest.head?, b.continuesWord = false) ∧
      s = between (before ++ gap ++ word) rest) ∧
    (read (between before text) = .ok r s →
      (r.encode (Encoding.of 0)).word.toNat = (r.op0 - 2) * 2 ^ 19 + r.op1 * 2 ^ 16 +
        r.crn * 2 ^ 12 + r.crm * 2 ^ 8 + r.op2 * 2 ^ 5) := by
  have hnone := Cursor.wholeWord?_of_forall_ne before text
    (by decide : Cursor.wordsOnly named = true)
    fun entry hentry hword => hnamed ⟨entry, hentry, hword⟩
  rw [read_eq_ok_of_none hnone, accepts_numeric]
  constructor
  · constructor
    · rintro ⟨word, rest, htext, ⟨hspells, hrest⟩, rfl⟩
      refine ⟨text.takeWhile Byte.isBlank, word, rest, ?_, ?_, hspells, hrest, rfl⟩
      · rw [← htext, List.takeWhile_append_dropWhile]
      · exact fun b hb => List.mem_takeWhile_imp hb
    · rintro ⟨gap, word, rest, rfl, hgap, hspells, hrest, rfl⟩
      obtain ⟨htake, hdrop⟩ := split_of_boundary hgap (hspells.isBlank_head? rest)
      exact ⟨word, rest, hdrop, ⟨hspells, hrest⟩, by rw [htake]⟩
  · rintro ⟨word, rest, -, ⟨hspells, -⟩, -⟩
    exact hspells.toNat_word_encode

theorem read_eq_ok_iff_lower_case :
    ¬Named (leadingWord (bytesOf " s3_1_c11_c0_2")) ∧
      read (between (bytesOf "X0,") (bytesOf " s3_1_c11_c0_2")) =
        .ok ⟨3, 1, 11, 0, 2⟩ (between (bytesOf "X0, s3_1_c11_c0_2") []) ∧
      (encode ⟨3, 1, 11, 0, 2⟩ (Encoding.of 0)).word.toNat = 0x9b040 := by
  have hnamed : ¬Named (leadingWord (bytesOf " s3_1_c11_c0_2")) := by decide
  have hspells : Spells ⟨3, 1, 11, 0, 2⟩ (bytesOf "s3_1_c11_c0_2") :=
    ⟨by decide, by decide, by decide, by decide, by decide,
      's'.toUInt8, 'c'.toUInt8, 'c'.toUInt8, by decide, by decide, by decide, by decide⟩
  have hread : read (between (bytesOf "X0,") (bytesOf " s3_1_c11_c0_2")) =
      .ok ⟨3, 1, 11, 0, 2⟩ (between (bytesOf "X0, s3_1_c11_c0_2") []) :=
    (read_eq_ok_iff _ _ hnamed _ _).1.mpr ⟨bytesOf " ", bytesOf "s3_1_c11_c0_2", [], by decide,
      (by decide : ∀ b ∈ bytesOf " ", b.isBlank = true), hspells, (fun _ hb => by cases hb), rfl⟩
  exact ⟨hnamed, hread, (read_eq_ok_iff _ _ hnamed _ _).2 hread⟩

end SystemRegister

end InlineA64
