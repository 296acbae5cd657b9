import InlineA64.Text.Span
import Mathlib.Data.Finset.Lattice.Fold
import Mathlib.Data.Finset.Range
import Mathlib.Order.Lattice.Nat

/-!
# Lines of a text

A text falls into lines at its line breaks: a carriage return and a line feed in a row are one, any
other carriage return and any other line feed is one, too. The line of an offset is then one more
than the number of breaks that end at or before it, and the column tells how far it is from the end
of the last of them.

The places that spans name are found from the bytes before the offset alone. A carriage return
that stands last among these counts as a break at once, so that an offset between the two bytes of
one break is already given the place behind it.

* `exactPlace_before`: exact places of different offsets are in the order of the offsets;
* `Span.exact_iff_not_between`: the place of a span is exact if and only if its offset is not
  between the two bytes of a break.
-/

namespace InlineA64

variable {text : Array Byte} {offset : Nat}

/-! ## Line breaks -/

/-- The carriage return. -/
abbrev Byte.carriageReturn : Byte := 0x0d

/-- The line feed. -/
abbrev Byte.lineFeed : Byte := 0x0a

/-- The bytes from `start` up to `stop` are a line break of the text. -/
inductive IsLineBreak (text : Array Byte) : (start stop : Nat) → Prop
  | pair {start : Nat} (hreturn : text[start]? = some Byte.carriageReturn)
      (hfeed : text[start + 1]? = some Byte.lineFeed) : IsLineBreak text start (start + 2)
  | carriageReturn {start : Nat} (hreturn : text[start]? = some Byte.carriageReturn)
      (hlone : text[start + 1]? ≠ some Byte.lineFeed) : IsLineBreak text start (start + 1)
  | lineFeed {start : Nat} (hfeed : text[start]? = some Byte.lineFeed)
      (hlone : ∀ i, start = i + 1 → text[i]? ≠ some Byte.carriageReturn) :
      IsLineBreak text start (start + 1)

/-- A line break of the text ends at an offset. -/
def EndsLine (text : Array Byte) (stop : Nat) : Prop :=
  ∃ start, IsLineBreak text start stop

/-- An offset is between the carriage return and the line feed of one line break. -/
def BetweenBreak (text : Array Byte) (offset : Nat) : Prop :=
  ∃ i, offset = i + 1 ∧ text[i]? = some Byte.carriageReturn ∧
    text[i + 1]? = some Byte.lineFeed

theorem not_endsLine_zero : ¬EndsLine text 0 := by
  rintro ⟨start, h⟩
  cases h

/-- A line feed always ends a line, a carriage return does so unless a line feed follows. -/
theorem endsLine_succ_iff {i : Nat} : EndsLine text (i + 1) ↔
    text[i]? = some Byte.lineFeed ∨
      text[i]? = some Byte.carriageReturn ∧ text[i + 1]? ≠ some Byte.lineFeed := by
  constructor
  · rintro ⟨start, h⟩
    cases h with
    | pair _ hfeed => exact .inl hfeed
    | carriageReturn hreturn hlone => exact .inr ⟨hreturn, hlone⟩
    | lineFeed hfeed _ => exact .inl hfeed
  · rintro (hfeed | ⟨hreturn, hlone⟩)
    · by_cases hpair : BetweenBreak text i
      · obtain ⟨j, rfl, hreturn, -⟩ := hpair
        exact ⟨j, .pair hreturn hfeed⟩
      · refine ⟨i, .lineFeed hfeed fun j hj hreturn => hpair ⟨j, hj, hreturn, ?_⟩⟩
        rwa [← hj]
    · exact ⟨i, .carriageReturn hreturn hlone⟩

theorem not_betweenBreak_zero : ¬BetweenBreak text 0 := by
  rintro ⟨i, hi, -⟩
  omega

theorem betweenBreak_succ_iff {i : Nat} : BetweenBreak text (i + 1) ↔
    text[i]? = some Byte.carriageReturn ∧ text[i + 1]? = some Byte.lineFeed := by
  constructor
  · rintro ⟨j, hj, hreturn, hfeed⟩
    obtain rfl : i = j := by omega
    exact ⟨hreturn, hfeed⟩
  · exact fun ⟨hreturn, hfeed⟩ => ⟨i, rfl, hreturn, hfeed⟩

/-- The offset behind the second byte of a break is not between two bytes of one. -/
theorem not_betweenBreak_succ (hbetween : BetweenBreak text offset) :
    ¬BetweenBreak text (offset + 1) := by
  obtain ⟨i, rfl, -, hfeed⟩ := hbetween
  rw [betweenBreak_succ_iff, hfeed]
  exact fun h => absurd h.1 (by decide)

instance (stop : Nat) : Decidable (EndsLine text stop) :=
  match stop with
  | 0 => .isFalse not_endsLine_zero
  | _ + 1 => decidable_of_iff' _ endsLine_succ_iff

instance (offset : Nat) : Decidable (BetweenBreak text offset) :=
  match offset with
  | 0 => .isFalse not_betweenBreak_zero
  | _ + 1 => decidable_of_iff' _ betweenBreak_succ_iff

/-! ## Exact places -/

/-- Where the line breaks end that end at or before an offset. -/
def lineEnds (text : Array Byte) (offset : Nat) : Finset Nat :=
  (Finset.range (offset + 1)).filter (EndsLine text)

/-- The place of an offset by the line breaks before it: their number tells the line, and the
distance from the end of the last, or from the start of the text, tells the column. -/
def exactPlace (text : Array Byte) (offset : Nat) : LineColumn :=
  ⟨1 + (lineEnds text offset).card, 1 + (offset - (lineEnds text offset).sup id)⟩

/-- One place is on an earlier line than another, or before it on the same line. -/
def LineColumn.Before (p q : LineColumn) : Prop :=
  p.line < q.line ∨ p.line = q.line ∧ p.column < q.column

theorem LineColumn.Before.trans {p q r : LineColumn} (hpq : p.Before q) (hqr : q.Before r) :
    p.Before r := by
  simp only [Before] at *
  omega

theorem LineColumn.Before.ne {p q : LineColumn} (h : p.Before q) : p ≠ q := by
  rintro rfl
  simp only [Before] at h
  omega

theorem lineEnds_zero : lineEnds text 0 = ∅ := by
  rw [lineEnds, Finset.range_one, Finset.filter_singleton, if_neg not_endsLine_zero]

theorem exactPlace_zero : exactPlace text 0 = ⟨1, 1⟩ := by
  rw [exactPlace, lineEnds_zero, Finset.card_empty, Nat.zero_sub]

theorem lineEnds_succ : lineEnds text (offset + 1) =
    if EndsLine text (offset + 1) then insert (offset + 1) (lineEnds text offset)
    else lineEnds text offset := by
  rw [lineEnds, Finset.range_add_one, Finset.filter_insert, lineEnds]

theorem le_of_mem_lineEnds {stop : Nat} (h : stop ∈ lineEnds text offset) : stop ≤ offset :=
  Nat.lt_succ_iff.mp (Finset.mem_range.mp (Finset.mem_filter.mp h).1)

theorem sup_lineEnds_le : (lineEnds text offset).sup id ≤ offset :=
  Finset.sup_le fun _ => le_of_mem_lineEnds

/-- A break that ends one byte further on starts a line, any other byte takes up a column. -/
theorem exactPlace_succ : exactPlace text (offset + 1) =
    if EndsLine text (offset + 1) then ⟨(exactPlace text offset).line + 1, 1⟩
    else ⟨(exactPlace text offset).line, (exactPlace text offset).column + 1⟩ := by
  have hle : (lineEnds text offset).sup id ≤ offset := sup_lineEnds_le
  by_cases hends : EndsLine text (offset + 1)
  · have hnew : offset + 1 ∉ lineEnds text offset := fun hmem =>
      Nat.not_succ_le_self offset (le_of_mem_lineEnds hmem)
    rw [if_pos hends, exactPlace, lineEnds_succ, if_pos hends, Finset.card_insert_of_notMem hnew,
      Finset.sup_insert, id_eq, sup_of_le_left (Nat.le_succ_of_le hle), Nat.sub_self]
    rfl
  · rw [if_neg hends, exactPlace, lineEnds_succ, if_neg hends, Nat.sub_add_comm hle]
    rfl

theorem exactPlace_before_succ :
    (exactPlace text offset).Before (exactPlace text (offset + 1)) := by
  rw [exactPlace_succ]
  split
  · exact .inl (Nat.lt_succ_self _)
  · exact .inr ⟨rfl, Nat.lt_succ_self _⟩

/-- Exact places are in the order of their offsets. -/
theorem exactPlace_before {offset' : Nat} (hlt : offset < offset') :
    (exactPlace text offset).Before (exactPlace text offset') := by
  induction offset', hlt using Nat.le_induction with
  | base => exact exactPlace_before_succ
  | succ offset' _ ih => exact ih.trans exactPlace_before_succ

/-- The place behind a byte that is not the second one of a line break. -/
def LineColumn.next (p : LineColumn) (b : Byte) : LineColumn :=
  if b.isBreak then ⟨p.line + 1, 1⟩ else ⟨p.line, p.column + 1⟩

theorem exactPlace_of_lone {b : Byte} (hb : text[offset]? = some b)
    (hlone : ¬BetweenBreak text (offset + 1)) :
    exactPlace text (offset + 1) = (exactPlace text offset).next b := by
  have hends : EndsLine text (offset + 1) ↔ b.isBreak = true := by
    rw [betweenBreak_succ_iff, hb, Option.some.injEq] at hlone
    rw [endsLine_succ_iff, hb, Option.some.injEq, Option.some.injEq, Byte.isBreak, Bool.or_eq_true,
      beq_iff_eq, beq_iff_eq]
    tauto
  rw [exactPlace_succ, LineColumn.next]
  simp only [hends]

/-- Both bytes of a pair together start one line. -/
theorem exactPlace_of_pair (hpair : BetweenBreak text (offset + 1)) :
    exactPlace text (offset + 2) = (exactPlace text offset).next Byte.carriageReturn := by
  obtain ⟨hreturn, hfeed⟩ := betweenBreak_succ_iff.mp hpair
  have hfirst : ¬EndsLine text (offset + 1) := by
    rw [endsLine_succ_iff, hreturn, hfeed]
    decide
  rw [exactPlace_succ, if_pos (endsLine_succ_iff.mpr (.inl hfeed)), exactPlace_succ, if_neg hfirst]
  rfl

/-! ## Places counted over a run of bytes -/

namespace LineColumn

theorem after_cons {p : LineColumn} {b : Byte} {rest : List Byte}
    (hlone : b = Byte.carriageReturn → rest.head? ≠ some Byte.lineFeed) :
    p.after (b :: rest) = (p.next b).after rest := by
  rw [after, next]
  · split <;> rfl
  · rintro rest' rfl rfl
    exact hlone rfl rfl

private theorem head?_append_ne {rest tail : List Byte}
    (hrest : ∀ rest', rest ≠ Byte.lineFeed :: rest')
    (htail : rest = [] → tail.head? ≠ some Byte.lineFeed) :
    (rest ++ tail).head? ≠ some Byte.lineFeed := by
  cases rest with
  | nil => exact htail rfl
  | cons x rest =>
    intro h
    rw [List.cons_append, List.head?_cons, Option.some.injEq] at h
    exact hrest rest (congrArg (List.cons · rest) h)

/-- A line feed behind a carriage return leads no further than that. -/
theorem after_append_pair (p : LineColumn) (bytes : List Byte) :
    p.after (bytes ++ [Byte.carriageReturn, Byte.lineFeed]) =
      p.after (bytes ++ [Byte.carriageReturn]) := by
  -- the carriage return cannot be the second byte of a break, so the run before it is read alike
  fun_induction after p bytes with
  | case1 p => rfl
  | case2 p rest ih => exact ih
  | case3 p b rest hpair hbreak ih | case4 p b rest hpair hbreak ih =>
    have hhead (tail : List Byte) (hb : b = Byte.carriageReturn) :
        (rest ++ Byte.carriageReturn :: tail).head? ≠ some Byte.lineFeed :=
      head?_append_ne (fun rest' => hpair rest' hb) fun _ => by rw [List.head?_cons]; decide
    rw [List.cons_append, List.cons_append, after_cons (hhead _), after_cons (hhead _), next]
    simpa only [hbreak, if_true, if_false, Bool.false_eq_true] using ih

/-- Any other byte counts by itself. -/
theorem after_append_lone (p : LineColumn) (bytes : List Byte) {b : Byte}
    (hlone : bytes.getLast? = some Byte.carriageReturn → b ≠ Byte.lineFeed) :
    p.after (bytes ++ [b]) = (p.after bytes).next b := by
  fun_induction after p bytes with
  | case1 p => exact after_cons fun _ => by simp
  | case2 p rest ih =>
    refine ih fun hlast => hlone ?_
    rw [List.getLast?_cons_cons, List.getLast?_cons, hlast, Option.getD_some]
  | case3 p x rest hpair hbreak ih | case4 p x rest hpair hbreak ih =>
    have hhead (hx : x = Byte.carriageReturn) : (rest ++ [b]).head? ≠ some Byte.lineFeed := by
      refine head?_append_ne (fun rest' => hpair rest' hx) ?_
      rintro rfl hfeed
      exact hlone (congrArg some hx) (Option.some.inj hfeed)
    have hrest := ih fun hlast => hlone (by rw [List.getLast?_cons, hlast, Option.getD_some])
    rw [List.cons_append, after_cons hhead, next]
    simpa only [hbreak, if_true, if_false, Bool.false_eq_true] using hrest

end LineColumn

/-! ## The places of spans -/

namespace Span

/-- The line and the column of a span. -/
def place (span : Span) : LineColumn :=
  ⟨span.line, span.column⟩

theorem place_ofOffset (hle : offset ≤ text.size) : (ofOffset text offset).place =
    LineColumn.after ⟨1, 1⟩ (text.toList.take offset) := by
  simp only [place, ofOffset, Nat.min_eq_left hle, Array.toList_extract, List.extract_eq_take_drop,
    List.drop_zero, Nat.sub_zero]

/-- The offset next to one byte has the same place if the byte is the second one of a break, and
else the place is found from the byte. -/
theorem place_ofOffset_succ {b : Byte} (hb : text[offset]? = some b) :
    (ofOffset text (offset + 1)).place =
      if BetweenBreak text offset then (ofOffset text offset).place
      else (ofOffset text offset).place.next b := by
  have hlt : offset < text.size := (Array.getElem?_eq_some_iff.mp hb).1
  have hlast {i : Nat} {x : Byte} (hx : text[i]? = some x) :
      text.toList.take (i + 1) = text.toList.take i ++ [x] := by
    rw [List.take_add_one, Array.getElem?_toList, hx, Option.toList_some]
  rw [place_ofOffset hlt, place_ofOffset (Nat.le_of_lt hlt), hlast hb]
  by_cases hbetween : BetweenBreak text offset
  · rw [if_pos hbetween]
    obtain ⟨i, rfl, hreturn, hfeed⟩ := hbetween
    obtain rfl : b = Byte.lineFeed := Option.some.inj (hb.symm.trans hfeed)
    rw [hlast hreturn, List.append_assoc]
    exact LineColumn.after_append_pair _ _
  · rw [if_neg hbetween, LineColumn.after_append_lone]
    -- a line feed with a carriage return before it would be in the other case
    rintro hreturn rfl
    obtain ⟨i, rfl⟩ : ∃ i, offset = i + 1 := by
      refine Nat.exists_eq_succ_of_ne_zero ?_
      rintro rfl
      cases hreturn
    have hx := Array.getElem?_eq_getElem (Nat.lt_of_succ_lt hlt)
    rw [hlast hx, List.getLast?_concat, ← hx] at hreturn
    exact hbetween ⟨i, rfl, hreturn, hb⟩

/-- A place is exact, but between the two bytes of a break it is that of the next offset. -/
theorem place_eq (hle : offset ≤ text.size) : (ofOffset text offset).place =
    exactPlace text (if BetweenBreak text offset then offset + 1 else offset) := by
  -- by induction on the offset; a line feed behind a carriage return is where the places meet again
  induction offset with
  | zero => rw [if_neg not_betweenBreak_zero, exactPlace_zero, place_ofOffset hle]; rfl
  | succ offset ih =>
    obtain ⟨b, hb⟩ : ∃ b, text[offset]? = some b := ⟨_, Array.getElem?_eq_getElem hle⟩
    rw [place_ofOffset_succ hb, ih (Nat.le_of_succ_le hle)]
    by_cases hbetween : BetweenBreak text offset
    · rw [if_pos hbetween, if_pos hbetween, if_neg (not_betweenBreak_succ hbetween)]
    · rw [if_neg hbetween, if_neg hbetween]
      by_cases hpair : BetweenBreak text (offset + 1)
      · obtain rfl : b = Byte.carriageReturn :=
          Option.some.inj (hb.symm.trans (betweenBreak_succ_iff.mp hpair).1)
        rw [if_pos hpair, exactPlace_of_pair hpair]
      · rw [if_neg hpair, exactPlace_of_lone hb hpair]

/-- The place of a span is exact if and only if its offset is not between the carriage return and
the line feed of one line break; there it is the place of the next offset, and no other offsets
share a place. -/
theorem exact_iff_not_between (text : Array Byte) {offset : Nat} (hle : offset ≤ text.size) :
    ((ofOffset text offset).place = exactPlace text offset ↔ ¬BetweenBreak text offset) ∧
      ∀ offset' < offset,
        if BetweenBreak text offset' ∧ offset = offset' + 1 then
          (ofOffset text offset').place = (ofOffset text offset).place
        else (ofOffset text offset').place.Before (ofOffset text offset).place := by
  constructor
  · rw [place_eq hle]
    by_cases hbetween : BetweenBreak text offset
    · rw [if_pos hbetween]
      exact iff_of_false (exactPlace_before offset.lt_succ_self).ne.symm (not_not_intro hbetween)
    · rw [if_neg hbetween]
      exact iff_of_true rfl hbetween
  · -- a place between the bytes of a break is found as the one behind it, and all others exactly
    intro offset' hlt
    rw [place_eq hle, place_eq (hlt.le.trans hle)]
    by_cases hbetween : BetweenBreak text offset'
    · by_cases hnext : offset = offset' + 1
      · subst hnext
        rw [if_pos ⟨hbetween, rfl⟩, if_pos hbetween, if_neg (not_betweenBreak_succ hbetween)]
      · rw [if_neg fun h => hnext h.2, if_pos hbetween]
        apply exactPlace_before
        split <;> omega
    · rw [if_neg fun h => hbetween h.1, if_neg hbetween]
      apply exactPlace_before
      split <;> omega

theorem exact_iff_not_between_return :
    5 ≤ "NOP\r\nRET".toUTF8.data.size ∧ (ofOffset "NOP\r\nRET".toUTF8.data 5).place =
      exactPlace "NOP\r\nRET".toUTF8.data 5 :=
  ⟨by decide, (exact_iff_not_between _ (by decide)).1.mpr (by decide)⟩

/-- Between the two bytes of a break the line has been counted already. -/
theorem exact_fails_between : (ofOffset "NOP\r\nRET".toUTF8.data 4).place = ⟨2, 1⟩ ∧
    (ofOffset "NOP\r\nRET".toUTF8.data 5).place = ⟨2, 1⟩ ∧
    exactPlace "NOP\r\nRET".toUTF8.data 4 = ⟨1, 5⟩ := by
  decide +kernel

end Span

end InlineA64
