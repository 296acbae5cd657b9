import InlineA64.Proofs.Literal
import InlineA64.Proofs.Mnemonic
import Mathlib.Data.List.Chain

/-!
# The longest mnemonic

The table holds many names that start other names, and the search never asks which of them is the
longest. What it relies on is the order of the table: names that come before a start of the text do
not compare as greater, and names that come behind it do unless they go on as the text does. So the
entries that are not greater make up the first part of the table, with the longest start of the
text at its end, and the search has to probe that entry before its bounds can meet behind it.

* `Mnemonic.chop_eq_some`: the search finds an entry that is equal to what is looked for, if those
  before it are not greater and those behind it are;
* `Mnemonic.lookup_longest`: when the longest mnemonic is found in a text, and the mnemonic of a
  whole name.
-/

namespace InlineA64

namespace Mnemonic

/-- The name with small letters for capitals. -/
def spelling (m : Mnemonic) : List Byte :=
  (bytesOf m.name).map Byte.lower

/-- The longest mnemonic that starts a text. -/
structure Longest (text : List Byte) (e : Mnemonic) : Prop where
  mem : e ∈ all
  starts : e.spelling <+: text
  longest : ∀ m ∈ all, m.spelling <+: text → m.spelling.length ≤ e.spelling.length

/-- The byte behind the mnemonic in a text, 0 at the end of it, comes before the one with which any
longer mnemonic goes on. -/
def Delimited (text : List Byte) (e : Mnemonic) : Prop :=
  ∀ m ∈ all, e.spelling <+: m.spelling →
    ∀ b ∈ m.spelling[e.spelling.length]?, text.getD e.spelling.length 0 < b

/-! ## The order of the table -/

/-- The entries are in alphabetical order, and no two of them have one name. -/
theorem sorted_all : all.Pairwise fun m m' => m.spelling < m'.spelling := by
  have htrans : IsTrans Mnemonic fun m m' => m.spelling < m'.spelling :=
    ⟨fun _ _ _ => List.lt_trans⟩
  rw [← List.isChain_iff_pairwise]
  -- neighbours in a finite table
  decide +kernel

/-- Before an entry of the table stand smaller names, and behind it greater ones. -/
theorem exists_split {e : Mnemonic} (he : e ∈ all) :
    ∃ below above, all = below ++ e :: above ∧ (∀ m ∈ below, m.spelling < e.spelling) ∧
      ∀ m ∈ above, e.spelling < m.spelling := by
  obtain ⟨below, above, hall⟩ := List.append_of_mem he
  have hsorted := sorted_all
  rw [hall, List.pairwise_append] at hsorted
  obtain ⟨-, hrest, hacross⟩ := hsorted
  refine ⟨below, above, hall, fun m hm => ?_, fun m hm => ?_⟩
  · exact hacross m hm e List.mem_cons_self
  · exact List.rel_of_pairwise_cons hrest hm

/-! ## Halving -/

section Chop

variable {order : Mnemonic → Ordering} {e : Mnemonic} {below above : List Mnemonic}

/-- The bounds of a search on its way to the entry `e` at `place`: it lies between them or directly
below both, and in the second case it has been probed as the last entry that is equal. -/
structure Encloses (e : Mnemonic) (place bottom top : ℕ) (best : Option Mnemonic) : Prop where
  bottom_le : bottom ≤ place + 1
  lt_top : place < top
  top_le : top ≤ all.length
  found : bottom = place + 1 → best = some e

/-- Bounds that have met did so directly behind the entry, after it had been probed. -/
theorem Encloses.eq_some_of_met {place bottom top : ℕ} {best : Option Mnemonic}
    (h : Encloses e place bottom top best) (hmet : top ≤ bottom) : best = some e := by
  refine h.found (Nat.le_antisymm h.bottom_le ?_)
  exact Nat.succ_le_of_lt (Nat.lt_of_lt_of_le h.lt_top hmet)

/-- What a probe finds, by where it lies: an entry before the split, that at it, or one behind. -/
theorem probe_cases (hall : all = below ++ e :: above) {probe : ℕ} (hprobe : probe < all.length) :
    (probe < below.length ∧ all[probe] ∈ below) ∨ (probe = below.length ∧ all[probe] = e) ∨
      (below.length < probe ∧ all[probe] ∈ above) := by
  rcases lt_trichotomy probe below.length with hbefore | hat | hbehind
  · refine .inl ⟨hbefore, ?_⟩
    simp only [hall, List.getElem_append_left hbefore]
    exact List.getElem_mem hbefore
  · refine .inr (.inl ⟨hat, ?_⟩)
    simp only [hat, hall, List.getElem_append_right (Nat.le_refl _), Nat.sub_self,
      List.getElem_cons_zero]
  · refine .inr (.inr ⟨hbehind, ?_⟩)
    obtain ⟨k, hk⟩ := Nat.exists_eq_add_of_lt hbehind
    have hget : all[probe]? = above[k]? := by
      rw [hall, hk, Nat.add_assoc, List.getElem?_append_right (Nat.le_add_right _ _),
        Nat.add_sub_cancel_left, List.getElem?_cons_succ]
    rw [List.getElem?_eq_getElem hprobe] at hget
    exact List.mem_of_getElem? hget.symm

/-- While the bounds enclose an entry, the search goes on to find it. -/
theorem chop_of_encloses (hall : all = below ++ e :: above) (hbelow : ∀ m ∈ below, order m ≠ .gt)
    (hequal : order e = .eq) (habove : ∀ m ∈ above, order m = .gt) {fuel bottom top : ℕ}
    {best : Option Mnemonic} (h : Encloses e below.length bottom top best)
    (hfuel : top ≤ bottom + fuel) : chop order fuel bottom top best = some e := by
  induction fuel generalizing bottom top best with
  | zero => exact h.eq_some_of_met hfuel
  | succ fuel ih =>
    change (if bottom < top then _ else best) = some e
    by_cases hlt : bottom < top
    · have hinside : (bottom + top) / 2 < all.length := by
        have := h.top_le
        omega
      have hentry : table[(bottom + top) / 2]? = some all[(bottom + top) / 2] := by
        rw [table, List.getElem?_toArray, List.getElem?_eq_getElem hinside]
      rw [if_pos hlt]
      dsimp only
      rw [hentry]
      dsimp only
      -- where the probe lies decides what the entry there compares as, and which bound moves
      rcases probe_cases hall hinside with ⟨hbefore, hmem⟩ | ⟨hat, hprobe⟩ | ⟨hbehind, hmem⟩
      · have hnext (best : Option Mnemonic) :
            Encloses e below.length ((bottom + top) / 2 + 1) top best :=
          ⟨by omega, h.lt_top, h.top_le, by omega⟩
        cases hcompare : order all[(bottom + top) / 2] with
        | gt => exact absurd hcompare (hbelow _ hmem)
        | eq => exact ih (hnext _) (by omega)
        | lt => exact ih (hnext _) (by omega)
      · rw [hprobe, hequal]
        exact ih ⟨by omega, h.lt_top, h.top_le, fun _ => rfl⟩ (by omega)
      · rw [habove _ hmem]
        exact ih ⟨h.bottom_le, hbehind, Nat.le_of_lt hinside, h.found⟩ (by omega)
    · rw [if_neg hlt]
      exact h.eq_some_of_met (Nat.le_of_not_lt hlt)

theorem chop_eq_some (order : Mnemonic → Ordering) (hall : all = below ++ e :: above)
    (hbelow : ∀ m ∈ below, order m ≠ .gt) (hequal : order e = .eq)
    (habove : ∀ m ∈ above, order m = .gt) :
    chop order table.size 0 table.size none = some e := by
  have hsize : table.size = all.length := List.size_toArray
  have hplace : below.length < all.length := by
    rw [hall, List.length_append, List.length_cons]
    omega
  refine chop_of_encloses hall hbelow hequal habove ⟨Nat.zero_le _, ?_, ?_, nofun⟩ (by omega)
  · rwa [hsize]
  · exact hsize.le

end Chop

/-! ## Comparing with a text -/

/-- Compare a name with the start of a text; a text that has ended counts as smaller. -/
def compareStart : (name text : List Byte) → Ordering
  | [], _ => .eq
  | b :: name, text => (compare b (text.headD 0)).then (compareStart name text.tail)

section CompareStart

variable {name start text : List Byte}

theorem compareStart_eq_iff (h : ∀ b ∈ name, b ≠ 0) :
    compareStart name text = .eq ↔ name <+: text := by
  induction name generalizing text with
  | nil => simp [compareStart]
  | cons b name ih =>
    rw [compareStart, Ordering.then_eq_eq, Std.LawfulEqOrd.compare_eq_iff_eq,
      ih fun c hc => h c (List.mem_cons_of_mem b hc)]
    cases text with
    | nil =>
      have hb : b ≠ 0 := h b List.mem_cons_self
      simp [hb]
    | cons c text => simp [List.cons_prefix_cons]

/-- A name that comes before a start of the text is not greater. -/
theorem compareStart_ne_gt (hstart : start <+: text) (h : name < start) :
    compareStart name text ≠ .gt := by
  obtain ⟨rest, rfl⟩ := hstart
  -- where the two names part, the text goes on as the second one
  induction h with
  | nil => simp [compareStart]
  | cons _ ih => simpa [compareStart] using ih
  | rel hlt =>
    have hless := Std.compare_eq_lt.mpr hlt
    simp [compareStart, hless]

/-- A name that comes behind a start of the text is greater, unless it goes on with a byte that
is not. -/
theorem compareStart_eq_gt (hstart : start <+: text) (h : start < name)
    (hnext : start <+: name → ∀ b ∈ name[start.length]?, text.getD start.length 0 < b) :
    compareStart name text = .gt := by
  obtain ⟨rest, rfl⟩ := hstart
  -- a name that only goes on from the start is decided on by the next byte of the text
  induction h with
  | @nil b name =>
    have hgreater : compare b ((([] : List Byte) ++ rest).headD 0) = .gt := by
      apply Std.compare_eq_gt.mpr
      have hless := hnext List.nil_prefix b rfl
      rwa [List.headD_eq_head?_getD, List.head?_eq_getElem?, ← List.getD_eq_getElem?_getD]
    rw [compareStart, hgreater]
    rfl
  | @cons c start name _ ih =>
    have hrest := ih fun hprefix b hb => by
      simpa using hnext (List.cons_prefix_cons.mpr ⟨rfl, hprefix⟩) b hb
    simpa [compareStart] using hrest
  | rel hlt =>
    have hgreater := Std.compare_eq_gt.mpr hlt
    simp [compareStart, hgreater]

end CompareStart

/-- A byte of a text, 0 behind the end of it, with a small letter for a capital. -/
theorem headD_map_drop (l : List Byte) (n : ℕ) :
    ((l.drop n).map Byte.lower).headD 0 = (l.getD n 0).lower := by
  rw [List.headD_eq_head?_getD, List.head?_map, List.head?_drop, List.getD_eq_getElem?_getD]
  cases l[n]? with
  | none => rfl
  | some b => rfl

theorem compareAt_eq_compareStart (s : Cursor) (name : List Byte) (offset : ℕ) :
    compareAt s name offset =
      compareStart (name.map Byte.lower) ((s.text.toList.drop offset).map Byte.lower) := by
  induction name generalizing offset with
  | nil => rfl
  | cons b name ih =>
    have hbyte : s.byteAt offset = s.text.toList.getD offset 0 := by
      rw [Cursor.byteAt, Array.getD_eq_getD_getElem?, List.getD_eq_getElem?_getD,
        Array.getElem?_toList]
    rw [compareAt, List.map_cons, compareStart, ih, headD_map_drop, hbyte, ← List.map_tail,
      List.tail_drop]

theorem compareName_between (m : Mnemonic) (before text : List Byte) :
    m.compareName (.between before text) = compareStart m.spelling (text.map Byte.lower) := by
  rw [compareName, compareAt_eq_compareStart, Cursor.between, List.drop_left]
  rfl

theorem ne_zero_of_mem_spelling {m : Mnemonic} (hm : m ∈ all) : ∀ b ∈ m.spelling, b ≠ 0 := by
  intro b hb
  obtain ⟨c, hc, rfl⟩ := List.mem_map.mp hb
  exact lower_ne hm hc rfl

theorem length_spelling (m : Mnemonic) : m.spelling.length = m.name.utf8ByteSize := by
  rw [spelling, List.length_map]
  rfl

/-! ## Comparing with a name -/

theorem compare_eq_lt_of_lt {name name' : List Byte} (h : name < name') :
    compare name name' = .lt := by
  induction h with
  | nil => rfl
  | cons _ ih => rw [List.compare_cons_cons, ih, Std.ReflOrd.compare_self, Ordering.eq_then]
  | rel hlt => rw [List.compare_cons_cons, Std.compare_eq_lt.mpr hlt, Ordering.lt_then]

theorem compare_eq_gt_of_lt {name name' : List Byte} (h : name < name') :
    compare name' name = .gt :=
  Std.OrientedCmp.gt_of_lt (compare_eq_lt_of_lt h)

/-! ## Looking up -/

section Lookup

variable {before gap text : List Byte} {e : Mnemonic}

/-- The text is searched for a mnemonic unless it starts with a token. -/
theorem lookup_between (hgap : ∀ b ∈ gap, b.isBlank = true)
    (htext : ∀ b ∈ text.head?, b.isBlank = false ∧ b ≠ Byte.andToken ∧ b ≠ Byte.orToken) :
    lookup (.between before (gap ++ text)) =
      match search (.between (before ++ gap) text) with
      | some m => (some m, (Cursor.between (before ++ gap) text).advance m.spelling.length)
      | none => (none, .between (before ++ gap) text) := by
  have hskip : (Cursor.between before (gap ++ text)).skipBlanks = .between (before ++ gap) text :=
    Cursor.skipWhile_between before hgap fun b hb => (htext b hb).1
  have htoken : tokenised? (.between (before ++ gap) text) = none := by
    have hpeek : (Cursor.between (before ++ gap) text).peek ≠ Byte.andToken ∧
        (Cursor.between (before ++ gap) text).peek ≠ Byte.orToken := by
      rw [Cursor.peek_between]
      cases text with
      | nil => decide
      | cons b text => exact (htext b rfl).2
    simp only [tokenised?, beq_eq_false_iff_ne.mpr hpeek.1, beq_eq_false_iff_ne.mpr hpeek.2,
      Bool.false_and, Bool.false_eq_true, if_false]
  simp only [lookup, hskip, htoken]
  cases search (.between (before ++ gap) text) with
  | none => rfl
  | some m => simp only [length_spelling]

/-- The search finds the longest mnemonic that starts the text if the byte behind it says that no
longer one can follow. -/
theorem search_eq_some (hlongest : Longest (text.map Byte.lower) e)
    (hdelimited : Delimited (text.map Byte.lower) e) : search (.between before text) = some e := by
  obtain ⟨below, above, hall, hbelow, habove⟩ := exists_split hlongest.mem
  refine chop_eq_some (compareName · (.between before text)) hall (fun m hm => ?_) ?_
    fun m hm => ?_
  · rw [compareName_between]
    exact compareStart_ne_gt hlongest.starts (hbelow m hm)
  · rw [compareName_between, compareStart_eq_iff (ne_zero_of_mem_spelling hlongest.mem)]
    exact hlongest.starts
  · have hmem : m ∈ all := by
      rw [hall]
      exact List.mem_append_right _ (List.mem_cons_of_mem e hm)
    rw [compareName_between]
    exact compareStart_eq_gt hlongest.starts (habove m hm) (hdelimited m hmem)

theorem search_eq_none (h : ∀ m ∈ all, ¬ m.spelling <+: text.map Byte.lower) :
    search (.between before text) = none := by
  cases hsearch : search (.between before text) with
  | none => rfl
  | some m =>
    obtain ⟨hmem, heq⟩ := of_search hsearch
    rw [compareName_between, compareStart_eq_iff (ne_zero_of_mem_spelling hmem)] at heq
    exact absurd heq (h m hmem)

theorem ofName?_eq_some_iff {name : String} :
    ofName? name = some e ↔ e ∈ all ∧ e.spelling = (bytesOf name).map Byte.lower := by
  constructor
  · intro h
    -- whatever the search yields has been probed and was equal
    refine of_chop (P := fun m => m ∈ all ∧ m.spelling = (bytesOf name).map Byte.lower)
      (fun m hm heq => ⟨hm, Std.LawfulEqOrd.eq_of_compare heq⟩) (fun m hm => ?_) h
    exact absurd hm (Option.not_mem_none m)
  · rintro ⟨hmem, hname⟩
    obtain ⟨below, above, hall, hbelow, habove⟩ := exists_split hmem
    rw [hname] at hbelow habove
    rw [ofName?]
    apply chop_eq_some _ hall
    · intro m hm
      have hless : m.compareWhole name = .lt := compare_eq_lt_of_lt (hbelow m hm)
      rw [hless]
      exact Ordering.noConfusion
    · show compare e.spelling ((bytesOf name).map Byte.lower) = .eq
      rw [hname]
      exact Std.ReflOrd.compare_self
    · intro m hm
      exact compare_eq_gt_of_lt (habove m hm)

theorem eq_of_spelling {m m' : Mnemonic} (hm : m ∈ all) (hm' : m' ∈ all)
    (h : m.spelling = m'.spelling) : m = m' := by
  have hfound : ofName? m'.name = some m := ofName?_eq_some_iff.mpr ⟨hm, h⟩
  have hfound' : ofName? m'.name = some m' := ofName?_eq_some_iff.mpr ⟨hm', rfl⟩
  exact Option.some.inj (hfound.symm.trans hfound')

/-- Behind blanks, and where no keyword token stands, the longest mnemonic that starts the text is
found if the byte behind it comes before all with which longer ones go on; what no mnemonic starts
has none, and the cursor stays behind the blanks. An entry of the table is also found by its whole
name, and by no other. -/
theorem lookup_longest :
    (∀ before gap text : List Byte, (∀ b ∈ gap, b.isBlank = true) →
      (∀ b ∈ text.head?, b.isBlank = false ∧ b ≠ Byte.andToken ∧ b ≠ Byte.orToken) →
      (∀ e, Longest (text.map Byte.lower) e → Delimited (text.map Byte.lower) e →
        lookup (.between before (gap ++ text)) = (some e, .between
          (before ++ gap ++ text.take e.spelling.length) (text.drop e.spelling.length))) ∧
      ((∀ m ∈ all, ¬ m.spelling <+: text.map Byte.lower) →
        lookup (.between before (gap ++ text)) = (none, .between (before ++ gap) text))) ∧
    ∀ name,
      (∀ e, ofName? name = some e ↔ e ∈ all ∧ e.spelling = (bytesOf name).map Byte.lower) ∧
      (ofName? name = none ↔ ∀ m ∈ all, m.spelling ≠ (bytesOf name).map Byte.lower) := by
  refine ⟨fun before gap text hgap htext => ⟨fun e hlongest hdelimited => ?_, fun hnone => ?_⟩,
    fun name => ⟨fun e => ofName?_eq_some_iff, ?_⟩⟩
  · -- what is found takes as many bytes as it is spelled with
    have hlength : e.spelling.length ≤ text.length := by
      have := hlongest.starts.length_le
      rwa [List.length_map] at this
    have hadvance := Cursor.advance_between (before ++ gap) (text.take e.spelling.length)
      (text.drop e.spelling.length)
    rw [List.take_append_drop, List.length_take, Nat.min_eq_left hlength] at hadvance
    rw [lookup_between hgap htext, search_eq_some hlongest hdelimited]
    exact congrArg (some e, ·) hadvance
  · rw [lookup_between hgap htext, search_eq_none hnone]
  · rw [Option.eq_none_iff_forall_ne_some]
    simp only [ne_eq, ofName?_eq_some_iff, not_and]

/-- A mnemonic that goes on as others do is found behind its blank. -/
theorem lookup_longest_blank :
    lookup (.between [] (bytesOf "  ldrSb w0")) =
      (some ⟨"LDRSB", .instruction (.signedLoad 0)⟩,
        .between (bytesOf "  ldrSb") (bytesOf " w0")) := by
  have hlongest : Longest ((bytesOf "ldrSb w0").map Byte.lower)
      ⟨"LDRSB", .instruction (.signedLoad 0)⟩ :=
    ⟨by decide +kernel, by decide +kernel, by decide +kernel⟩
  have hdelimited : Delimited ((bytesOf "ldrSb w0").map Byte.lower)
      ⟨"LDRSB", .instruction (.signedLoad 0)⟩ := by
    rw [Delimited]
    decide +kernel
  have hstart : ∀ b ∈ (bytesOf "ldrSb w0").head?,
      b.isBlank = false ∧ b ≠ Byte.andToken ∧ b ≠ Byte.orToken := by
    rintro b ⟨⟩
    decide
  exact (lookup_longest.1 [] (bytesOf "  ") (bytesOf "ldrSb w0") (by decide) hstart).1 _
    hlongest hdelimited

end Lookup

end Mnemonic

end InlineA64
