import InlineA64.Proofs.Reader.Leaves
import InlineA64.Proofs.Runs

/-!
# Words and keywords

A word is a run of letters, digits and underscores, as long as it goes. A keyword that is made of
such bytes is taken as a whole word only where it is the word behind the cursor, either case of a
letter counting as the other.

* `leadingWord`: the word behind the blanks that a text starts with;
* `Cursor.keyword?_eq_some_iff`, `Cursor.wholeWord?_iff_keyword?`: what is taken, by the last
  keyword of a table that starts the text;
* `Keyword.word_of_ended`: a keyword that no further byte of a word follows is the word there;
* `Cursor.wholeWord?_of_forall_ne`: where that word is not in a table, none is taken.
-/

namespace InlineA64

open Cursor (between startsRest)
open Expression.Formula (Blank)

/-- The word behind the blanks that a text starts with. -/
def leadingWord (text : List Byte) : List Byte :=
  (text.dropWhile Byte.isBlank).takeWhile Byte.continuesWord

/-- A letter continues a word in either case. -/
theorem Byte.continuesWord_lower (b : Byte) : b.lower.continuesWord = b.continuesWord :=
  Byte.forall_of_all (P := fun b => b.lower.continuesWord = b.continuesWord) (by decide +kernel) b

variable {β : Type} {before text : List Byte} {table : List (String × β)} {entry : String × β}
  {word : String} {meaning : β} {s s' : Cursor}

/-- The bytes of all keywords of a table continue words. -/
def Cursor.wordsOnly (table : List (String × β)) : Bool :=
  table.all fun entry => (bytesOf entry.1).all Byte.continuesWord

namespace Keyword

/-! ## Spellings -/

/-- A keyword with small letters for capitals. -/
def spelling (word : String) : List Byte :=
  (bytesOf word).map Byte.lower

theorem length_spelling (word : String) : (spelling word).length = word.utf8ByteSize :=
  List.length_map Byte.lower

/-- A keyword starts a text, ignoring case, if its spelling starts that of the text. -/
theorem startsRest_iff :
    startsRest (bytesOf word) text = true ↔ spelling word <+: text.map Byte.lower :=
  List.isPrefixOf_iff_prefix

theorem continuesWord_of_mem_spelling (hwords : Cursor.wordsOnly table = true)
    (hentry : entry ∈ table) : ∀ b ∈ spelling entry.1, b.continuesWord = true := by
  intro b hb
  obtain ⟨c, hc, rfl⟩ := List.mem_map.mp hb
  rw [Byte.continuesWord_lower]
  exact List.all_eq_true.mp (List.all_eq_true.mp hwords entry hentry) c hc

/-- A keyword that starts a text and that no further byte of a word follows is the word there. -/
theorem word_of_ended (hwords : Cursor.wordsOnly table = true) (hentry : entry ∈ table)
    (hstarts : spelling entry.1 <+: text.map Byte.lower)
    (hended : ∀ b ∈ (text.drop (spelling entry.1).length).head?, b.continuesWord = false) :
    (text.takeWhile Byte.continuesWord).map Byte.lower = spelling entry.1 := by
  have hspelling := List.prefix_iff_eq_take.mp hstarts
  rw [← List.map_take] at hspelling
  have hword : ∀ b ∈ text.take (spelling entry.1).length, b.continuesWord = true := by
    intro b hb
    rw [← Byte.continuesWord_lower]
    refine continuesWord_of_mem_spelling hwords hentry _ ?_
    rw [hspelling]
    exact List.mem_map_of_mem hb
  have htake := (split_of_boundary hword hended).1
  rw [List.take_append_drop] at htake
  rw [htake, ← hspelling]

end Keyword

namespace Cursor

/-! ## Positions -/

/-- What the end of the text is not the next byte is not, if the first behind the cursor is not. -/
theorem peek_eq_false_iff (before : List Byte) {rest : List Byte} {p : Byte → Bool}
    (hend : p 0 = false) :
    p (between before rest).peek = false ↔ ∀ b ∈ rest.head?, p b = false := by
  rw [peek_between]
  cases rest with
  | nil => exact iff_of_true hend fun _ hb => by cases hb
  | cons b rest => simp

/-- The cursor behind the blanks that a text starts with. -/
def pastBlanks (before text : List Byte) : Cursor :=
  between (before ++ text.takeWhile Byte.isBlank) (text.dropWhile Byte.isBlank)

/-- The cursor behind the blanks that a text starts with and as many bytes as a keyword has. -/
def pastKeyword (before text : List Byte) (word : String) : Cursor :=
  let rest := text.dropWhile Byte.isBlank
  let length := (Keyword.spelling word).length
  between (before ++ text.takeWhile Byte.isBlank ++ rest.take length) (rest.drop length)

theorem skipBlanks_between (before text : List Byte) :
    (between before text).skipBlanks = pastBlanks before text := by
  have hblank : Blank (text.takeWhile Byte.isBlank) := fun _ hb => List.mem_takeWhile_imp hb
  have hskip := skipBlanks_between_gap before hblank (head?_dropWhile Byte.isBlank text)
  rwa [List.takeWhile_append_dropWhile] at hskip

/-- The bytes of a keyword that starts the text behind the blanks are all in the text. -/
theorem advance_pastBlanks
    (h : Keyword.spelling word <+: (text.dropWhile Byte.isBlank).map Byte.lower) :
    (pastBlanks before text).advance word.utf8ByteSize = pastKeyword before text word := by
  have hle := h.length_le
  rw [List.length_map] at hle
  have hadvance := advance_between (before ++ text.takeWhile Byte.isBlank)
    ((text.dropWhile Byte.isBlank).take (Keyword.spelling word).length)
    ((text.dropWhile Byte.isBlank).drop (Keyword.spelling word).length)
  rw [List.take_append_drop, List.length_take, Nat.min_eq_left hle] at hadvance
  rw [← Keyword.length_spelling]
  exact hadvance

/-! ## Keywords -/

theorem starts_of_lastMatch? (h : (between before text).lastMatch? table = some entry) :
    Keyword.spelling entry.1 <+: text.map Byte.lower := by
  have hstarts : (between before text).startsWith entry.1 = true :=
    List.find?_some (a := entry) h
  rwa [startsWith_between, Keyword.startsRest_iff] at hstarts

theorem keyword?_eq_some_iff : (between before text).keyword? table = (some meaning, s) ↔
    ∃ word, (pastBlanks before text).lastMatch? table = some (word, meaning) ∧
      s = pastKeyword before text word := by
  rw [keyword?, skipBlanks_between]
  rcases hmatch : (pastBlanks before text).lastMatch? table with _ | ⟨found, there⟩
  · constructor
    · rintro ⟨⟩
    · rintro ⟨_, ⟨⟩, -⟩
  · have hadvance : (pastBlanks before text).advance found.utf8ByteSize =
        pastKeyword before text found := advance_pastBlanks (starts_of_lastMatch? hmatch)
    dsimp only
    rw [hadvance]
    constructor
    · rintro ⟨⟩
      exact ⟨found, rfl, rfl⟩
    · rintro ⟨_, ⟨⟩, rfl⟩
      rfl

theorem keyword?_eq_none_iff : (between before text).keyword? table = (none, s) ↔
    (pastBlanks before text).lastMatch? table = none ∧ s = pastBlanks before text := by
  rw [keyword?, skipBlanks_between]
  rcases (pastBlanks before text).lastMatch? table with _ | ⟨found, there⟩
  · constructor
    · rintro ⟨⟩
      exact ⟨rfl, rfl⟩
    · rintro ⟨-, rfl⟩
      rfl
  · constructor
    · rintro ⟨⟩
    · rintro ⟨⟨⟩, -⟩

/-! ## Whole words -/

/-- A keyword is taken as a whole word if it is taken and no further byte of a word follows it. -/
theorem wholeWord?_iff_keyword? : s.wholeWord? table = (some meaning, s') ↔
    s.keyword? table = (some meaning, s') ∧ s'.peek.continuesWord = false := by
  have hskip : s.skipBlanks.keyword? table = s.keyword? table := by
    simp only [keyword?, skipBlanks_skipBlanks]
  rw [wholeWord?, hskip]
  rcases s.keyword? table with ⟨_ | there, t⟩
  · constructor
    · rintro ⟨⟩
    · rintro ⟨⟨⟩, -⟩
  · dsimp only
    split
    · next hcontinues =>
      constructor
      · rintro ⟨⟩
      · rintro ⟨⟨⟩, hended⟩
        rw [hcontinues] at hended
        cases hended
    · next hcontinues =>
      constructor
      · rintro ⟨⟩
        exact ⟨rfl, Bool.eq_false_iff.mpr hcontinues⟩
      · exact fun h => h.1

/-- Where no whole word is taken, only blanks are skipped. -/
theorem eq_skipBlanks_of_wholeWord? (h : s.wholeWord? table = (none, s')) : s' = s.skipBlanks := by
  rw [wholeWord?] at h
  split at h
  · split at h
    · exact (congrArg Prod.snd h).symm
    · cases h
  · exact (congrArg Prod.snd h).symm

/-- Where the word behind the blanks is not a keyword of a table, none is taken. -/
theorem wholeWord?_of_forall_ne (before text : List Byte) (htable : wordsOnly table = true)
    (hne : ∀ entry ∈ table,
      (leadingWord text).map Byte.lower ≠ (bytesOf entry.1).map Byte.lower) :
    (between before text).wholeWord? table = (none,
      between (before ++ text.takeWhile Byte.isBlank) (text.dropWhile Byte.isBlank)) := by
  rcases hwhole : (between before text).wholeWord? table with ⟨_ | meaning, s⟩
  · rw [eq_skipBlanks_of_wholeWord? hwhole, skipBlanks_between, pastBlanks]
  · -- a keyword that is taken would be the whole word
    obtain ⟨hkeyword, hpeek⟩ := wholeWord?_iff_keyword?.mp hwhole
    obtain ⟨word, hmatch, rfl⟩ := keyword?_eq_some_iff.mp hkeyword
    have hentry := mem_of_lastMatch? hmatch
    have hended := (peek_eq_false_iff _ (by decide)).mp hpeek
    exact absurd (Keyword.word_of_ended htable hentry (starts_of_lastMatch? hmatch) hended)
      (hne _ hentry)

end Cursor

end InlineA64
