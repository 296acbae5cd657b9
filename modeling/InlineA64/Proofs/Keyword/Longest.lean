import InlineA64.Proofs.Keyword
import InlineA64.SystemCall
import Mathlib.Data.List.Nodup

/-!
# The longest keyword

A table of keywords is looked through from its end, and the first one that starts the text is taken.
Nothing compares lengths. What is taken is the longest keyword all the same where none starts one
that stands before it in the table (`Keyword.Ordered`): of two keywords that start the same text one
starts the other, and it stands first.

* `Keyword.Ordered.lastMatch?_eq_some_iff`: in a table in this order the last keyword that starts a
  text is the longest;
* `Keyword.longest_of_word`: a keyword that is the word of a text is the longest that starts it;
* `Keyword.InUse.ordered_and_words`: the tables in use are in this order;
* `Keyword.longest_taken`: what is taken from the tables in use, as a start of the text and as a
  whole word.
-/

namespace InlineA64

open Cursor (between pastBlanks pastKeyword wordsOnly)

namespace Keyword

variable {β : Type} {before text : List Byte} {table : List (String × β)} {entry : String × β}
  {meaning : β} {s : Cursor}

/-- No keyword starts one that stands before it, ignoring case. -/
def Ordered (words : List String) : Prop :=
  words.Pairwise fun earlier later => ¬spelling later <+: spelling earlier

instance (words : List String) : Decidable (Ordered words) :=
  inferInstanceAs (Decidable (words.Pairwise _))

/-- An entry of a table has the longest keyword that starts a text, ignoring case. -/
structure Longest (table : List (String × β)) (text : List Byte) (entry : String × β) : Prop where
  mem : entry ∈ table
  starts : spelling entry.1 <+: text.map Byte.lower
  longest : ∀ other ∈ table, spelling other.1 <+: text.map Byte.lower →
    (spelling other.1).length ≤ (spelling entry.1).length

/-- The lists of keywords that texts are looked up in: those of operands, the names of system
registers and those of the calls of the operating system. -/
inductive InUse : List String → Prop where
  | vocabulary {α : Type} (v : Vocabulary α) : InUse (v.entries.map Prod.fst)
  | systemRegisters : InUse (SystemRegister.named.map Prod.fst)
  | systemCalls : InUse (SystemCall.named.map Prod.fst)

/-! ## The last match -/

theorem lastMatch?_between (before text : List Byte) (table : List (String × β)) :
    (between before text).lastMatch? table =
      table.reverse.find? fun entry => Cursor.startsRest (bytesOf entry.1) text := by
  simp only [Cursor.lastMatch?, Cursor.startsWith_between]

theorem lastMatch?_eq_none_iff : (between before text).lastMatch? table = none ↔
    ∀ entry ∈ table, ¬spelling entry.1 <+: text.map Byte.lower := by
  simp only [lastMatch?_between, List.find?_eq_none, List.mem_reverse, startsRest_iff]

/-- Behind the last match no entry of the table starts the text. -/
theorem exists_split_of_lastMatch? (h : (between before text).lastMatch? table = some entry) :
    ∃ earlier later, table = earlier ++ entry :: later ∧
      ∀ other ∈ later, ¬spelling other.1 <+: text.map Byte.lower := by
  rw [lastMatch?_between, List.find?_eq_some_iff_append] at h
  obtain ⟨-, later, earlier, htable, hlater⟩ := h
  refine ⟨earlier.reverse, later.reverse, ?_, ?_⟩
  · rw [List.reverse_eq_iff.mp htable, List.reverse_append, List.reverse_cons, List.append_assoc]
    rfl
  · intro other hother hstarts
    have hnot := hlater other (List.mem_reverse.mp hother)
    rw [startsRest_iff.mpr hstarts] at hnot
    cases hnot

/-- The last match is the longest keyword that starts the text, if the table is in order. -/
theorem Ordered.longest_of_lastMatch? (hordered : Ordered (table.map Prod.fst))
    (h : (between before text).lastMatch? table = some entry) : Longest table text entry := by
  have hstarts := Cursor.starts_of_lastMatch? h
  refine ⟨Cursor.mem_of_lastMatch? h, hstarts, fun other hother hother' => ?_⟩
  obtain ⟨earlier, later, rfl, hlater⟩ := exists_split_of_lastMatch? h
  rw [Ordered, List.pairwise_map, List.pairwise_append] at hordered
  rcases List.mem_append.mp hother with hearlier | hmem
  · -- both start the text, and the one that stands last does not start the other
    have hnot := hordered.2.2 other hearlier entry List.mem_cons_self
    exact ((List.prefix_or_prefix_of_prefix hother' hstarts).resolve_right hnot).length_le
  · rcases List.mem_cons.mp hmem with rfl | hmem
    · exact Nat.le_refl _
    · exact absurd hother' (hlater other hmem)

/-- A table in order has no keyword twice. -/
theorem Ordered.eq_of_spelling (hordered : Ordered (table.map Prod.fst)) {entry' : String × β}
    (h : entry ∈ table) (h' : entry' ∈ table) (heq : spelling entry.1 = spelling entry'.1) :
    entry = entry' := by
  rw [Ordered, List.pairwise_map] at hordered
  have hnodup : (table.map fun entry => spelling entry.1).Nodup := by
    rw [List.Nodup, List.pairwise_map]
    refine hordered.imp fun hnot hsame => hnot ?_
    exact hsame ▸ List.prefix_rfl
  exact List.inj_on_of_nodup_map hnodup h h' heq

theorem Ordered.longest_unique (hordered : Ordered (table.map Prod.fst)) {entry' : String × β}
    (h : Longest table text entry) (h' : Longest table text entry') : entry = entry' := by
  -- both start the text, and neither is longer than the other
  have hstart := List.prefix_of_prefix_length_le h.starts h'.starts
    (h'.longest entry h.mem h.starts)
  have hlength := h.longest entry' h'.mem h'.starts
  exact hordered.eq_of_spelling h.mem h'.mem (hstart.eq_of_length_le hlength)

/-- In a table in order the last keyword that starts a text is the longest. -/
theorem Ordered.lastMatch?_eq_some_iff (hordered : Ordered (table.map Prod.fst)) :
    (between before text).lastMatch? table = some entry ↔ Longest table text entry := by
  refine ⟨hordered.longest_of_lastMatch?, fun h => ?_⟩
  cases hmatch : (between before text).lastMatch? table with
  | none => exact absurd h.starts (lastMatch?_eq_none_iff.mp hmatch entry h.mem)
  | some found => rw [hordered.longest_unique (hordered.longest_of_lastMatch? hmatch) h]

/-! ## Words -/

/-- What is made of the bytes that continue words does not start more than the word of a text. -/
theorem prefix_word {word : List Byte} (hword : ∀ b ∈ word, b.continuesWord = true)
    (h : word <+: text.map Byte.lower) :
    word <+: (text.takeWhile Byte.continuesWord).map Byte.lower := by
  have hlower : Byte.continuesWord ∘ Byte.lower = Byte.continuesWord :=
    funext Byte.continuesWord_lower
  obtain ⟨rest, htext⟩ := h
  have htake : (text.takeWhile Byte.continuesWord).map Byte.lower =
      word ++ rest.takeWhile Byte.continuesWord := by
    rw [← List.takeWhile_append_of_pos hword, htext, List.takeWhile_map, hlower]
  rw [htake]
  exact List.prefix_append _ _

/-- The keyword that is the word of a text is the longest one that starts the text. -/
theorem longest_of_word (hwords : wordsOnly table = true) (hentry : entry ∈ table)
    (hword : (text.takeWhile Byte.continuesWord).map Byte.lower = spelling entry.1) :
    Longest table text entry where
  mem := hentry
  starts := by
    rw [← hword]
    exact (List.takeWhile_prefix _).map _
  longest := fun other hother hstarts => by
    rw [← hword]
    exact (prefix_word (continuesWord_of_mem_spelling hwords hother) hstarts).length_le

/-- Behind the word of a text no further byte of a word follows. -/
theorem ended_of_word {word : String}
    (hword : (text.takeWhile Byte.continuesWord).map Byte.lower = spelling word) :
    ∀ b ∈ (text.drop (spelling word).length).head?, b.continuesWord = false := by
  have hdrop : (text.takeWhile Byte.continuesWord ++ text.dropWhile Byte.continuesWord).drop
      (text.takeWhile Byte.continuesWord).length = text.dropWhile Byte.continuesWord :=
    List.drop_left
  rw [List.takeWhile_append_dropWhile] at hdrop
  rw [← hword, List.length_map, hdrop]
  exact head?_dropWhile _ _

/-! ## What is taken from a table in order -/

section Taken

variable (hordered : Ordered (table.map Prod.fst))
include hordered

theorem Ordered.keyword?_eq_some_iff : (between before text).keyword? table = (some meaning, s) ↔
    ∃ word, Longest table (text.dropWhile Byte.isBlank) (word, meaning) ∧
      s = pastKeyword before text word := by
  rw [Cursor.keyword?_eq_some_iff]
  simp only [pastBlanks, hordered.lastMatch?_eq_some_iff]

theorem Ordered.wholeWord?_eq_some_iff (hwords : wordsOnly table = true) :
    (between before text).wholeWord? table = (some meaning, s) ↔
      ∃ word, (word, meaning) ∈ table ∧ (leadingWord text).map Byte.lower = spelling word ∧
        s = pastKeyword before text word := by
  rw [Cursor.wholeWord?_iff_keyword?, hordered.keyword?_eq_some_iff]
  have hended (word : String) : (pastKeyword before text word).peek.continuesWord = false ↔
      ∀ b ∈ ((text.dropWhile Byte.isBlank).drop (spelling word).length).head?,
        b.continuesWord = false :=
    Cursor.peek_eq_false_iff _ (by decide)
  constructor
  · rintro ⟨⟨word, hlongest, rfl⟩, hpeek⟩
    have hword := word_of_ended hwords hlongest.mem hlongest.starts ((hended word).mp hpeek)
    exact ⟨word, hlongest.mem, hword, rfl⟩
  · rintro ⟨word, hmem, hword, rfl⟩
    exact ⟨⟨word, longest_of_word hwords hmem hword, rfl⟩, (hended word).mpr (ended_of_word hword)⟩

theorem Ordered.wholeWord?_eq_none_iff (hwords : wordsOnly table = true) :
    (between before text).wholeWord? table = (none, s) ↔
      (∀ entry ∈ table, (leadingWord text).map Byte.lower ≠ spelling entry.1) ∧
        s = pastBlanks before text := by
  constructor
  · intro h
    refine ⟨fun entry hentry hword => ?_, ?_⟩
    · have hsome : (between before text).wholeWord? table =
          (some entry.2, pastKeyword before text entry.1) :=
        (hordered.wholeWord?_eq_some_iff hwords).mpr ⟨entry.1, hentry, hword, rfl⟩
      rw [h] at hsome
      cases hsome
    · rw [Cursor.eq_skipBlanks_of_wholeWord? h, Cursor.skipBlanks_between]
  · rintro ⟨hne, rfl⟩
    exact Cursor.wholeWord?_of_forall_ne before text hwords hne

end Taken

theorem keyword?_eq_none_iff : (between before text).keyword? table = (none, s) ↔
    (∀ entry ∈ table, ¬spelling entry.1 <+: (text.dropWhile Byte.isBlank).map Byte.lower) ∧
      s = pastBlanks before text := by
  rw [Cursor.keyword?_eq_none_iff]
  simp only [pastBlanks, lastMatch?_eq_none_iff]

/-! ## The tables in use -/

namespace InUse

/-- In the lists in use no keyword starts one that stands before it, and all keywords are words. -/
theorem ordered_and_words {words : List String} (h : InUse words) :
    Ordered words ∧ ∀ word ∈ words, (bytesOf word).all Byte.continuesWord = true := by
  cases h with
  | vocabulary v =>
    cases v with
    | operations kind => cases kind <;> decide +kernel
    | _ => decide +kernel
  | systemRegisters => decide +kernel
  | systemCalls => decide +kernel

theorem wordsOnly (h : InUse (table.map Prod.fst)) : wordsOnly table = true := by
  rw [Cursor.wordsOnly, List.all_eq_true]
  exact fun entry hentry => h.ordered_and_words.2 entry.1 (List.mem_map_of_mem hentry)

end InUse

/-- From a table with the keywords of one in use the longest keyword that starts the text behind its
blanks is taken, and the cursor moves just past it. None is taken if and only if none starts the
text, and the cursor then stands behind the blanks. As a whole word a keyword is taken if and only
if it is the word behind the blanks, and otherwise the cursor stands behind them as well. What the
keywords mean does not matter: it can be what they mean to an operand, or their places in the
table. -/
theorem longest_taken (htable : InUse (table.map Prod.fst)) (before text : List Byte) (meaning : β)
    (s : Cursor) :
    ((between before text).keyword? table = (some meaning, s) ↔
      ∃ word, Longest table (text.dropWhile Byte.isBlank) (word, meaning) ∧
        s = pastKeyword before text word) ∧
    ((between before text).keyword? table = (none, s) ↔
      (∀ entry ∈ table, ¬spelling entry.1 <+: (text.dropWhile Byte.isBlank).map Byte.lower) ∧
        s = pastBlanks before text) ∧
    ((between before text).wholeWord? table = (some meaning, s) ↔
      ∃ word, (word, meaning) ∈ table ∧ (leadingWord text).map Byte.lower = spelling word ∧
        s = pastKeyword before text word) ∧
    ((between before text).wholeWord? table = (none, s) ↔
      (∀ entry ∈ table, (leadingWord text).map Byte.lower ≠ spelling entry.1) ∧
        s = pastBlanks before text) := by
  have hordered := htable.ordered_and_words.1
  exact ⟨hordered.keyword?_eq_some_iff, keyword?_eq_none_iff,
    hordered.wholeWord?_eq_some_iff htable.wordsOnly,
    hordered.wholeWord?_eq_none_iff htable.wordsOnly⟩

/-- The walk at place 12 is taken, and not the one at place 0, which it extends. A text that goes on
as neither does holds no walk as a whole word. -/
theorem longest_taken_walk :
    InUse ((Vocabulary.pageWalks.map Prod.fst).zipIdx.map Prod.fst) ∧
      (between (bytesOf "AT") (bytesOf " s1e1rp, X0")).keyword?
        (Vocabulary.pageWalks.map Prod.fst).zipIdx =
          (some 12, between (bytesOf "AT s1e1rp") (bytesOf ", X0")) ∧
      (between (bytesOf "AT") (bytesOf " s1e1rx, X0")).wholeWord?
        (Vocabulary.pageWalks.map Prod.fst).zipIdx =
          (none, between (bytesOf "AT ") (bytesOf "s1e1rx, X0")) := by
  have htable : InUse ((Vocabulary.pageWalks.map Prod.fst).zipIdx.map Prod.fst) := by
    rw [List.zipIdx_map_fst]
    exact .vocabulary (.operations .pageWalk)
  have hlongest : Longest (Vocabulary.pageWalks.map Prod.fst).zipIdx
      ((bytesOf " s1e1rp, X0").dropWhile Byte.isBlank) ("S1E1RP", 12) :=
    ⟨by decide +kernel, by decide +kernel, by decide +kernel⟩
  exact ⟨htable, (longest_taken htable _ _ _ _).1.mpr ⟨"S1E1RP", hlongest, rfl⟩,
    (longest_taken htable _ _ 12 _).2.2.2.mpr ⟨by decide +kernel, rfl⟩⟩

end Keyword

end InlineA64
