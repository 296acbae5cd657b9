import InlineA64.Proofs.Mnemonic.Longest

/-!
# Keywords at the start of a mnemonic

Before a text is assembled its keywords are replaced by tokens of one byte, and two of the keywords
start mnemonics. Such a mnemonic should be found in both forms of the text. Two of the ways on from
a keyword break this (`Mnemonic.found_alike_iff`). The token of `OR` is seen to only before an `R`,
and so `ORN` is found in letters alone. And the search for the letters of `AND` goes past that entry
for good if a byte above `S` follows, so that `AND` is found as a token alone.

* `Mnemonic.lookup_letters`: what is found where a keyword stands in letters;
* `Mnemonic.lookup_token`: what is found where it is a token.
-/

namespace InlineA64.Mnemonic

/-- The keywords with which mnemonics start. -/
inductive Keyword where
  | and
  | or
deriving DecidableEq, Repr

namespace Keyword

/-- The keyword as one byte. -/
def token : Keyword → Byte
  | and => Byte.andToken
  | or => Byte.orToken

/-- The keyword in small letters. -/
def letters : Keyword → List Byte
  | and => bytesOf "and"
  | or => bytesOf "or"

/-- How mnemonics go on behind the keyword. -/
def endings : Keyword → List (List Byte)
  | and => [[], bytesOf "s"]
  | or => [bytesOf "n", bytesOf "r"]

/-- The ending of the mnemonic that is found before a byte where the keyword stands in letters. -/
def inLetters : Keyword → (next : Byte) → Option (List Byte)
  | and, next =>
    if next = 's'.toUInt8 then some (bytesOf "s")
    else if next < 's'.toUInt8 then some [] else none
  | or, next =>
    if next = 'n'.toUInt8 then some (bytesOf "n")
    else if next = 'r'.toUInt8 then some (bytesOf "r") else none

/-- The ending of the mnemonic that is found before a byte where the keyword is a token. -/
def asToken : Keyword → (next : Byte) → Option (List Byte)
  | and, next => if next = 's'.toUInt8 then some (bytesOf "s") else some []
  | or, next => if next = 'r'.toUInt8 then some (bytesOf "r") else none

end Keyword

/-- The mnemonic is found in both texts, with the same text behind it. -/
def FoundAlike (m : Mnemonic) (s t : Cursor) : Prop :=
  (lookup s).1 = some m ∧ (lookup t).1 = some m ∧ (lookup s).2.rest = (lookup t).2.rest

variable {k : Keyword} {m : Mnemonic} {before gap word rest ending : List Byte}

/-! ## The table -/

theorem endings_all : ∀ k ∈ [Keyword.and, .or], ∀ m ∈ all,
    (k.letters <+: m.spelling → m.spelling.drop k.letters.length ∈ k.endings) ∧
      (m.spelling <+: k.letters → k.letters <+: m.spelling) := by
  -- the names of a finite table
  decide +kernel

theorem exists_ending (k : Keyword) : ∀ ending ∈ k.endings, ∃ m ∈ all,
    m.spelling = k.letters ++ ending := by
  cases k <;> decide +kernel

theorem ending_of_letters (hm : m ∈ all) (h : k.letters <+: m.spelling) :
    ∃ ending ∈ k.endings, m.spelling = k.letters ++ ending := by
  have hk : k ∈ [Keyword.and, .or] := by cases k <;> decide
  refine ⟨_, (endings_all k hk m hm).1 h, ?_⟩
  exact (List.prefix_iff_eq_append.mp h).symm

/-- A mnemonic that starts a text with the keyword is the keyword and one of its endings. -/
theorem ending_of_starts (hm : m ∈ all) (h : m.spelling <+: k.letters ++ rest) :
    ∃ ending ∈ k.endings, m.spelling = k.letters ++ ending ∧ ending <+: rest := by
  have hk : k ∈ [Keyword.and, .or] := by cases k <;> decide
  have hletters : k.letters <+: m.spelling := by
    -- no mnemonic is a part of the keyword
    rcases List.prefix_or_prefix_of_prefix h (List.prefix_append k.letters rest) with hle | hle
    · exact (endings_all k hk m hm).2 hle
    · exact hle
  obtain ⟨ending, hmem, hspelling⟩ := ending_of_letters hm hletters
  rw [hspelling, List.prefix_append_right_inj] at h
  exact ⟨ending, hmem, hspelling, h⟩

/-! ## The keyword in letters -/

/-- One byte starts a text if it is the next one. -/
theorem singleton_starts_iff {b : Byte} (hb : b ≠ 0) :
    [b] <+: rest.map Byte.lower ↔ (rest.headD 0).lower = b := by
  cases rest with
  | nil =>
    have hzero : ¬ (0 : Byte).lower = b := fun h => hb h.symm
    simp [hzero]
  | cons c rest => simp [List.cons_prefix_cons, eq_comm]

/-- An ending that the text has, where no longer one is there or can follow. -/
structure Ends (k : Keyword) (rest ending : List Byte) : Prop where
  mem : ending ∈ k.endings
  starts : ending <+: rest.map Byte.lower
  longest : ∀ other ∈ k.endings, other <+: rest.map Byte.lower → other.length ≤ ending.length
  delimited : ∀ other ∈ k.endings, ending <+: other → ∀ b ∈ other[ending.length]?,
    (rest.map Byte.lower).getD ending.length 0 < b

theorem length_ending_le (k : Keyword) : ∀ ending ∈ k.endings, ending.length ≤ 1 := by
  cases k <;> decide

theorem ends_singleton {b : Byte} (hmem : [b] ∈ k.endings) (hb : b ≠ 0)
    (hnext : (rest.headD 0).lower = b) : Ends k rest [b] := by
  refine ⟨hmem, (singleton_starts_iff hb).mpr hnext, ?_, ?_⟩
  · exact fun other hother _ => length_ending_le k other hother
  · intro other hother _ c hc
    have hnone : other[1]? = none := List.getElem?_eq_none (length_ending_le k other hother)
    exact absurd (hnone ▸ hc) (Option.not_mem_none c)

theorem ends_nil (hnext : (rest.headD 0).lower < 's'.toUInt8) : Ends .and rest [] := by
  have hrest : (rest.map Byte.lower).getD 0 0 = (rest.headD 0).lower := by
    cases rest <;> rfl
  refine ⟨by decide, List.nil_prefix, ?_, ?_⟩
  · intro other hother hstarts
    rcases List.mem_pair.mp hother with rfl | rfl
    · exact Nat.le_refl 0
    · -- the text would have the `S`
      have heq := (singleton_starts_iff (by decide)).mp hstarts
      exact absurd hnext (heq ▸ UInt8.lt_irrefl _)
  · intro other hother _ b hb
    rcases List.mem_pair.mp hother with rfl | rfl
    · cases hb
    · obtain rfl := Option.some.inj hb
      show (rest.map Byte.lower).getD 0 0 < _
      rwa [hrest]

/-- The search finds the mnemonic with an ending that the text has, unless a longer one can
follow. -/
theorem search_ending (hword : word.map Byte.lower = k.letters) (hm : m ∈ all)
    (hspelling : m.spelling = k.letters ++ ending) (hends : Ends k rest ending) :
    search (.between before (word ++ rest)) = some m := by
  have htext : (word ++ rest).map Byte.lower = k.letters ++ rest.map Byte.lower := by
    rw [List.map_append, hword]
  -- whatever else starts the text, or goes on from the mnemonic, has an ending of its own
  apply search_eq_some
  · refine ⟨hm, ?_, fun m' hm' hstarts' => ?_⟩
    · rw [htext, hspelling, List.prefix_append_right_inj]
      exact hends.starts
    · rw [htext] at hstarts'
      obtain ⟨other, hmem, hother, hrest⟩ := ending_of_starts hm' hstarts'
      rw [hother, hspelling, List.length_append, List.length_append]
      exact Nat.add_le_add_left (hends.longest other hmem hrest) _
  · intro m' hm' hstarts' b hb
    rw [hspelling] at hstarts'
    obtain ⟨other, hmem, hother⟩ :=
      ending_of_letters hm' ((List.prefix_append k.letters ending).trans hstarts')
    rw [hother, List.prefix_append_right_inj] at hstarts'
    rw [hother, hspelling, List.length_append,
      List.getElem?_append_right (Nat.le_add_right _ _), Nat.add_sub_cancel_left] at hb
    rw [htext, hspelling, List.length_append, List.getD_append_right _ _ _ _ (Nat.le_add_right _ _),
      Nat.add_sub_cancel_left]
    exact hends.delimited other hmem hstarts' b hb

/-- A name compares alike with two texts that part at bytes that compare alike with what the name
has there. -/
theorem compareStart_congr {name stem more more' : List Byte} {b b' : Byte}
    (h : ∀ d rest, name = stem ++ d :: rest → compare d b = compare d b' ∧ compare d b ≠ .eq) :
    compareStart name (stem ++ b :: more) = compareStart name (stem ++ b' :: more') := by
  -- the induction is on what the texts have in common; a name may part from them before it ends
  induction stem generalizing name with
  | nil =>
    cases name with
    | nil => rfl
    | cons d name =>
      obtain ⟨hsame, hne⟩ := h d name rfl
      rw [hsame] at hne
      rw [List.nil_append, List.nil_append, compareStart, compareStart, List.headD_cons,
        List.headD_cons, hsame]
      cases hcompare : compare d b' with
      | lt => rfl
      | eq => exact absurd hcompare hne
      | gt => rfl
  | cons c stem ih =>
    cases name with
    | nil => rfl
    | cons d name =>
      rw [List.cons_append, List.cons_append, compareStart, compareStart, List.headD_cons,
        List.headD_cons, List.tail_cons, List.tail_cons]
      by_cases hdc : d = c
      · rw [ih fun d' rest hname => h d' rest (by rw [hdc, hname, List.cons_append])]
      · have hne : compare d c ≠ .eq := fun heq => hdc (Std.LawfulEqOrd.eq_of_compare heq)
        cases hcompare : compare d c with
        | lt => rfl
        | eq => exact absurd hcompare hne
        | gt => rfl

/-- Before a byte above `S` the letters of `AND` are not found, whatever the byte is. -/
theorem search_and_eq_none (hword : word.map Byte.lower = bytesOf "and")
    (hnext : 's'.toUInt8 < (rest.headD 0).lower) :
    search (.between before (word ++ rest)) = none := by
  -- one byte above `S` stands for all, since every name compares alike with them
  have hlast : search (.between [] (bytesOf "and" ++ [0xff])) = none := by
    rw [search_eq_chopList]
    decide +kernel
  rw [← hlast]
  refine search_congr fun m hm => ?_
  rw [compareName_between, compareName_between, List.map_append, hword]
  cases rest with
  | nil => exact absurd hnext (by decide)
  | cons c rest =>
    show compareStart m.spelling (bytesOf "and" ++ c.lower :: rest.map Byte.lower) =
      compareStart m.spelling (bytesOf "and" ++ 0xff :: [])
    apply compareStart_congr
    intro d more hspelling
    -- an `S` is all that mnemonics have behind these letters
    have hstarts : Keyword.and.letters <+: m.spelling := by
      rw [hspelling]
      exact List.prefix_append _ _
    obtain ⟨ending, hmem, hending⟩ := ending_of_letters hm hstarts
    have hd : d = 's'.toUInt8 := by
      rw [hspelling] at hending
      obtain rfl := List.append_cancel_left hending
      rcases List.mem_cons.mp hmem with hnil | hmem
      · cases hnil
      · exact (List.cons.inj (List.mem_singleton.mp hmem)).1
    have hless : compare d c.lower = .lt := by
      rw [hd]
      exact Std.compare_eq_lt.mpr hnext
    rw [hless, hd]
    decide

theorem ends_of_inLetters (h : k.inLetters (rest.headD 0).lower = some ending) :
    Ends k rest ending := by
  cases k with
  | and =>
    simp only [Keyword.inLetters] at h
    split_ifs at h with hnext hless
    · obtain rfl := Option.some.inj h
      exact ends_singleton (by decide) (by decide) hnext
    · obtain rfl := Option.some.inj h
      exact ends_nil hless
  | or =>
    simp only [Keyword.inLetters] at h
    split_ifs at h with hn hr
    · obtain rfl := Option.some.inj h
      exact ends_singleton (by decide) (by decide) hn
    · obtain rfl := Option.some.inj h
      exact ends_singleton (by decide) (by decide) hr

/-- Where no mnemonic has a fitting ending the search finds nothing. -/
theorem search_letters_eq_none (hword : word.map Byte.lower = k.letters)
    (h : k.inLetters (rest.headD 0).lower = none) :
    search (.between before (word ++ rest)) = none := by
  cases k with
  | and =>
    apply search_and_eq_none hword
    simp only [Keyword.inLetters] at h
    split_ifs at h with hnext hless
    exact UInt8.lt_of_le_of_ne (UInt8.not_lt.mp hless) (Ne.symm hnext)
  | or =>
    apply search_eq_none
    intro m hm hstarts
    rw [List.map_append, hword] at hstarts
    obtain ⟨ending, hmem, -, hending⟩ := ending_of_starts hm hstarts
    simp only [Keyword.inLetters] at h
    split_ifs at h with hn hr
    -- both names that start with these letters go on with a letter that is not next
    rcases List.mem_pair.mp hmem with rfl | rfl
    · exact hn ((singleton_starts_iff (by decide)).mp hending)
    · exact hr ((singleton_starts_iff (by decide)).mp hending)

/-! ## Looking up -/

theorem head_of_letters (hword : word.map Byte.lower = k.letters) :
    ∀ b ∈ (word ++ rest).head?, b.isBlank = false ∧ b ≠ Byte.andToken ∧ b ≠ Byte.orToken := by
  cases word with
  | nil => cases k <;> cases hword
  | cons c word =>
    intro b hb
    obtain rfl := Option.some.inj hb
    have hne {d : Byte} (hd : k.letters.head? ≠ some d.lower) : c ≠ d := by
      rintro rfl
      exact hd (by rw [← hword]; rfl)
    have hspace : c ≠ 0x20 := hne (by cases k <;> decide)
    have htab : c ≠ 0x09 := hne (by cases k <;> decide)
    refine ⟨?_, hne (by cases k <;> decide), hne (by cases k <;> decide)⟩
    simp [Byte.isBlank, hspace, htab]

theorem lookup_of_search (hgap : ∀ b ∈ gap, b.isBlank = true)
    (hword : word.map Byte.lower = k.letters) (hspelling : m.spelling = k.letters ++ ending)
    (hstarts : ending <+: rest.map Byte.lower)
    (hsearch : search (.between (before ++ gap) (word ++ rest)) = some m) :
    lookup (.between before (gap ++ (word ++ rest))) = (some m, .between
      (before ++ gap ++ (word ++ rest.take ending.length)) (rest.drop ending.length)) := by
  have hlength : (word ++ rest.take ending.length).length = m.spelling.length := by
    have hle := hstarts.length_le
    rw [List.length_map] at hle
    rw [hspelling, ← hword, List.length_append, List.length_append, List.length_map,
      List.length_take, Nat.min_eq_left hle]
  have hadvance := Cursor.advance_between (before ++ gap) (word ++ rest.take ending.length)
    (rest.drop ending.length)
  rw [List.append_assoc word, List.take_append_drop, hlength] at hadvance
  rw [lookup_between hgap (head_of_letters hword), hsearch]
  exact congrArg (some m, ·) hadvance

/-- Where the keyword stands in letters, the search decides what is found. -/
theorem lookup_letters (before rest : List Byte) (hgap : ∀ b ∈ gap, b.isBlank = true)
    (hword : word.map Byte.lower = k.letters) :
    (∀ ending, k.inLetters (rest.headD 0).lower = some ending →
      ∃ m ∈ all, m.spelling = k.letters ++ ending ∧
        lookup (.between before (gap ++ (word ++ rest))) = (some m, .between
          (before ++ gap ++ (word ++ rest.take ending.length)) (rest.drop ending.length))) ∧
    (k.inLetters (rest.headD 0).lower = none →
      (lookup (.between before (gap ++ (word ++ rest)))).1 = none) := by
  constructor
  · intro ending hending
    have hends := ends_of_inLetters hending
    obtain ⟨m, hm, hspelling⟩ := exists_ending k ending hends.mem
    refine ⟨m, hm, hspelling, lookup_of_search hgap hword hspelling hends.starts ?_⟩
    exact search_ending hword hm hspelling hends
  · intro hnone
    rw [lookup_between hgap (head_of_letters hword), search_letters_eq_none hword hnone]

theorem peek_token (before rest : List Byte) :
    (Cursor.between before (k.token :: rest)).peek = k.token :=
  Cursor.peek_between before _

theorem ahead_token (before rest : List Byte) :
    (Cursor.between before (k.token :: rest)).ahead 1 = rest.headD 0 := by
  refine (Cursor.byteAt_between before 1).trans ?_
  cases rest <;> rfl

theorem tokenised?_and (before rest : List Byte) :
    tokenised? (.between before (Keyword.and.token :: rest)) =
      if (rest.headD 0).lower = 's'.toUInt8 then some (ofName? "ANDS", 2)
      else some (ofName? "AND", 1) := by
  have hother : (Keyword.and.token == Byte.orToken) = false := by decide
  have hsame : (Keyword.and.token == Byte.andToken) = true := by decide
  simp only [tokenised?, peek_token, ahead_token, hother, hsame, Bool.false_and, Bool.true_and,
    Bool.false_eq_true, if_false, beq_iff_eq, if_true]

theorem tokenised?_or (before rest : List Byte) :
    tokenised? (.between before (Keyword.or.token :: rest)) =
      if (rest.headD 0).lower = 'r'.toUInt8 then some (ofName? "ORR", 2) else none := by
  have hother : (Keyword.or.token == Byte.andToken) = false := by decide
  have hsame : (Keyword.or.token == Byte.orToken) = true := by decide
  simp only [tokenised?, peek_token, ahead_token, hother, hsame, Bool.false_and, Bool.true_and,
    Bool.false_eq_true, if_false, beq_iff_eq]

theorem skipBlanks_token (hgap : ∀ b ∈ gap, b.isBlank = true) :
    (Cursor.between before (gap ++ k.token :: rest)).skipBlanks =
      .between (before ++ gap) (k.token :: rest) := by
  refine Cursor.skipWhile_between before hgap fun b hb => ?_
  obtain rfl := Option.some.inj hb
  cases k <;> rfl

theorem lookup_of_name (hgap : ∀ b ∈ gap, b.isBlank = true) (name : String)
    (hname : (bytesOf name).map Byte.lower = k.letters ++ ending) (hmem : ending ∈ k.endings)
    (hlength : ending.length ≤ rest.length)
    (htoken : tokenised? (.between (before ++ gap) (k.token :: rest)) =
      some (ofName? name, ending.length + 1)) :
    ∃ m ∈ all, m.spelling = k.letters ++ ending ∧
      lookup (.between before (gap ++ k.token :: rest)) = (some m, .between
        (before ++ gap ++ k.token :: rest.take ending.length) (rest.drop ending.length)) := by
  obtain ⟨m, hm, hspelling⟩ := exists_ending k ending hmem
  have hfound : ofName? name = some m := ofName?_eq_some_iff.mpr ⟨hm, hspelling.trans hname.symm⟩
  have hadvance := Cursor.advance_between (before ++ gap) (k.token :: rest.take ending.length)
    (rest.drop ending.length)
  rw [List.cons_append, List.take_append_drop, List.length_cons, List.length_take,
    Nat.min_eq_left hlength] at hadvance
  refine ⟨m, hm, hspelling, ?_⟩
  simp only [lookup, skipBlanks_token hgap, htoken, hfound, hadvance]

/-- No mnemonic starts with a token. -/
theorem search_token (k : Keyword) (before rest : List Byte) :
    search (.between before (k.token :: rest)) = none := by
  apply search_eq_none
  intro m hm hstarts
  cases hspelling : m.spelling with
  | nil =>
    -- an empty name would start the keyword without being more
    have hstart := (endings_all .and List.mem_cons_self m hm).2 (hspelling ▸ List.nil_prefix)
    rw [hspelling, List.prefix_nil] at hstart
    cases hstart
  | cons b name =>
    have hmem : b ∈ m.spelling := by
      rw [hspelling]
      exact List.mem_cons_self
    obtain ⟨c, hc, hlower⟩ := List.mem_map.mp hmem
    rw [hspelling, List.map_cons, List.cons_prefix_cons] at hstarts
    refine lower_ne hm hc (c := k.token.lower) ?_ (hlower.trans hstarts.1)
    cases k <;> rfl

theorem pos_length_of_next {b : Byte} (hb : b ≠ 0) (hnext : (rest.headD 0).lower = b) :
    1 ≤ rest.length := by
  cases rest with
  | nil => exact absurd hnext.symm hb
  | cons c rest => exact Nat.le_add_left 1 _

/-- Where the keyword is a token, the byte behind it decides what is found. -/
theorem lookup_token (k : Keyword) (before rest : List Byte)
    (hgap : ∀ b ∈ gap, b.isBlank = true) :
    (∀ ending, k.asToken (rest.headD 0).lower = some ending →
      ∃ m ∈ all, m.spelling = k.letters ++ ending ∧
        lookup (.between before (gap ++ k.token :: rest)) = (some m, .between
          (before ++ gap ++ k.token :: rest.take ending.length) (rest.drop ending.length))) ∧
    (k.asToken (rest.headD 0).lower = none →
      (lookup (.between before (gap ++ k.token :: rest))).1 = none) := by
  cases k with
  | and =>
    by_cases hs : (rest.headD 0).lower = 's'.toUInt8
    · simp only [Keyword.asToken, if_pos hs, Option.some.injEq, reduceCtorEq, false_implies,
        and_true]
      rintro _ rfl
      apply lookup_of_name hgap "ANDS" (by decide) (by decide)
      · exact pos_length_of_next (by decide) hs
      · rw [tokenised?_and, if_pos hs]
        rfl
    · simp only [Keyword.asToken, if_neg hs, Option.some.injEq, reduceCtorEq, false_implies,
        and_true]
      rintro _ rfl
      apply lookup_of_name hgap "AND" (by decide) (by decide)
      · exact Nat.zero_le _
      · rw [tokenised?_and, if_neg hs]
        rfl
  | or =>
    by_cases hr : (rest.headD 0).lower = 'r'.toUInt8
    · simp only [Keyword.asToken, if_pos hr, Option.some.injEq, reduceCtorEq, false_implies,
        and_true]
      rintro _ rfl
      apply lookup_of_name hgap "ORR" (by decide) (by decide)
      · exact pos_length_of_next (by decide) hr
      · rw [tokenised?_or, if_pos hr]
        rfl
    · -- there is no instruction of this name alone, and a token is no letter of another
      have htoken := tokenised?_or (before ++ gap) rest
      rw [if_neg hr] at htoken
      simp only [Keyword.asToken, if_neg hr, reduceCtorEq, false_implies, implies_true, true_and,
        forall_const]
      simp only [lookup, skipBlanks_token hgap, htoken, search_token]

/-! ## Both forms -/

theorem entry_of_letters (hgap : ∀ b ∈ gap, b.isBlank = true)
    (hword : word.map Byte.lower = k.letters)
    (h : (lookup (.between before (gap ++ (word ++ rest)))).1 = some m) :
    ∃ ending, k.inLetters (rest.headD 0).lower = some ending ∧ m ∈ all ∧
      m.spelling = k.letters ++ ending := by
  obtain ⟨hsome, hnone⟩ := lookup_letters before rest hgap hword
  cases hending : k.inLetters (rest.headD 0).lower with
  | none => rw [hnone hending] at h; cases h
  | some ending =>
    obtain ⟨m', hm', hspelling, hlookup⟩ := hsome ending hending
    rw [hlookup] at h
    obtain rfl := Option.some.inj h
    exact ⟨ending, rfl, hm', hspelling⟩

theorem entry_of_token (hgap : ∀ b ∈ gap, b.isBlank = true)
    (h : (lookup (.between before (gap ++ k.token :: rest))).1 = some m) :
    ∃ ending, k.asToken (rest.headD 0).lower = some ending ∧ m ∈ all ∧
      m.spelling = k.letters ++ ending := by
  obtain ⟨hsome, hnone⟩ := lookup_token k before rest hgap
  cases hending : k.asToken (rest.headD 0).lower with
  | none => rw [hnone hending] at h; cases h
  | some ending =>
    obtain ⟨m', hm', hspelling, hlookup⟩ := hsome ending hending
    rw [hlookup] at h
    obtain rfl := Option.some.inj h
    exact ⟨ending, rfl, hm', hspelling⟩

/-- A mnemonic is found alike in both forms of a text if both find its ending. -/
theorem foundAlike_iff_endings (hgap : ∀ b ∈ gap, b.isBlank = true)
    (hword : word.map Byte.lower = k.letters) (hm : m ∈ all)
    (hspelling : m.spelling = k.letters ++ ending) :
    FoundAlike m (.between before (gap ++ (word ++ rest)))
        (.between before (gap ++ k.token :: rest)) ↔
      k.inLetters (rest.headD 0).lower = some ending ∧
        k.asToken (rest.headD 0).lower = some ending := by
  constructor
  · -- both forms find the mnemonic, and its spelling tells the ending
    rintro ⟨hletters, htoken, -⟩
    obtain ⟨ending₁, hfound₁, -, hspelling₁⟩ := entry_of_letters hgap hword hletters
    obtain ⟨ending₂, hfound₂, -, hspelling₂⟩ := entry_of_token hgap htoken
    rw [hspelling] at hspelling₁ hspelling₂
    obtain rfl := List.append_cancel_left hspelling₁
    obtain rfl := List.append_cancel_left hspelling₂
    exact ⟨hfound₁, hfound₂⟩
  · rintro ⟨hletters, htoken⟩
    obtain ⟨m₁, hm₁, hspelling₁, hlookup₁⟩ :=
      (lookup_letters before rest hgap hword).1 ending hletters
    obtain ⟨m₂, hm₂, hspelling₂, hlookup₂⟩ :=
      (lookup_token k before rest hgap).1 ending htoken
    obtain rfl := eq_of_spelling hm hm₁ (hspelling.trans hspelling₁.symm)
    obtain rfl := eq_of_spelling hm hm₂ (hspelling.trans hspelling₂.symm)
    refine ⟨by rw [hlookup₁], by rw [hlookup₂], ?_⟩
    rw [hlookup₁, hlookup₂]
    apply Array.toList_inj.mp
    rw [Cursor.rest_between, Cursor.rest_between]

/-- An ending that is found behind the letters is found behind the token unless it makes `ORN`. -/
theorem asToken_iff_of_inLetters {next : Byte} (h : k.inLetters next = some ending) :
    k.asToken next = some ending ↔ k.letters ++ ending ≠ bytesOf "orn" := by
  cases k with
  | and =>
    -- neither mnemonic is `ORN`, and both are found
    simp only [Keyword.inLetters] at h
    split_ifs at h with hs hless
    · obtain rfl := Option.some.inj h
      exact iff_of_true (if_pos hs) (by decide)
    · obtain rfl := Option.some.inj h
      exact iff_of_true (if_neg hs) (by decide)
  | or =>
    simp only [Keyword.inLetters] at h
    split_ifs at h with hn hr
    · obtain rfl := Option.some.inj h
      have hr : ¬ next = 'r'.toUInt8 := by
        rw [hn]
        decide
      have hnone : Keyword.or.asToken next = none := if_neg hr
      rw [hnone]
      exact iff_of_false nofun (not_not_intro rfl)
    · obtain rfl := Option.some.inj h
      exact iff_of_true (if_pos hr) (by decide)

/-- An ending that is found behind the token is found behind the letters unless they are those of
`AND` and a byte above `S` follows. -/
theorem inLetters_iff_of_asToken {next : Byte} (h : k.asToken next = some ending) :
    k.inLetters next = some ending ↔ ¬ (k = .and ∧ 's'.toUInt8 < next) := by
  cases k with
  | and =>
    simp only [true_and]
    simp only [Keyword.asToken] at h
    split_ifs at h with hs
    · obtain rfl := Option.some.inj h
      refine iff_of_true (if_pos hs) ?_
      rw [hs]
      exact UInt8.lt_irrefl _
    · obtain rfl := Option.some.inj h
      have hfound : Keyword.and.inLetters next = if next < 's'.toUInt8 then some [] else none :=
        if_neg hs
      -- the search goes on to the longer name, and misses this one, if the byte is not below
      rw [hfound, UInt8.not_lt]
      split_ifs with hless
      · exact iff_of_true rfl (UInt8.le_of_lt hless)
      · refine iff_of_false nofun fun hle => hless ?_
        exact UInt8.lt_of_le_of_ne hle hs
  | or =>
    simp only [Keyword.asToken] at h
    split_ifs at h with hr
    obtain rfl := Option.some.inj h
    refine iff_of_true ?_ fun hand => Keyword.noConfusion hand.1
    rw [hr]
    decide

theorem name_eq_orn_iff : ∀ m ∈ all, m.name = "ORN" ↔ m.spelling = bytesOf "orn" := by
  -- the names of a finite table
  decide +kernel

/-- What is found where a keyword stands in letters is found where it is a token, with the same text
left behind it, but for `ORN`; and the other way round, unless a byte above `S` follows an `AND`. -/
theorem found_alike_iff (hgap : ∀ b ∈ gap, b.isBlank = true)
    (hword : word.map Byte.lower = k.letters) :
    (∀ m, (lookup (.between before (gap ++ (word ++ rest)))).1 = some m →
      (FoundAlike m (.between before (gap ++ (word ++ rest)))
        (.between before (gap ++ k.token :: rest)) ↔ m.name ≠ "ORN")) ∧
    ∀ m, (lookup (.between before (gap ++ k.token :: rest))).1 = some m →
      (FoundAlike m (.between before (gap ++ (word ++ rest)))
        (.between before (gap ++ k.token :: rest)) ↔
          ¬ (k = .and ∧ 's'.toUInt8 < (rest.headD 0).lower)) := by
  constructor
  · intro m hfound
    obtain ⟨ending, hletters, hm, hspelling⟩ := entry_of_letters hgap hword hfound
    rw [foundAlike_iff_endings hgap hword hm hspelling, and_iff_right hletters,
      asToken_iff_of_inLetters hletters, ← hspelling, ne_eq, ne_eq, name_eq_orn_iff m hm]
  · intro m hfound
    obtain ⟨ending, htoken, hm, hspelling⟩ := entry_of_token hgap hfound
    rw [foundAlike_iff_endings hgap hword hm hspelling, and_iff_left htoken,
      inLetters_iff_of_asToken htoken]

/-- The keyword of `ORR` may be a token, with what is behind it left as it is. -/
theorem found_alike_iff_orr :
    FoundAlike ⟨"ORR", .instruction (.logical .or false false)⟩
      (.between [] (bytesOf " " ++ (bytesOf "Or" ++ bytesOf "r x0")))
      (.between [] (bytesOf " " ++ Keyword.or.token :: bytesOf "r x0")) := by
  have hfound : (lookup (.between [] (bytesOf " " ++ (bytesOf "Or" ++ bytesOf "r x0")))).1 =
      some ⟨"ORR", .instruction (.logical .or false false)⟩ := by
    decide +kernel
  refine ((found_alike_iff (k := .or) (by decide) (by decide)).1 _ hfound).mpr ?_
  decide

/-- The token of `OR` before an `N` is not found, although the letters are. -/
theorem orn_missed :
    (lookup (.between [] (bytesOf "ORN X0,X1,X2"))).1 =
        some ⟨"ORN", .instruction (.logical .or true false)⟩ ∧
      (lookup (.between [] (Byte.orToken :: bytesOf "N X0,X1,X2"))).1 = none := by
  decide +kernel

end InlineA64.Mnemonic
