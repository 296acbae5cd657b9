import InlineA64.Block.Run
import InlineA64.Proofs.Embeds
import InlineA64.Proofs.Reader.Refuses
import Mathlib.Data.List.GetD

/-!
# Finding mnemonics

The search halves the table, so what it finds in a text can hang on a byte behind the text although
no mnemonic has that byte in it: before a colon a name that goes on with a digit comes first, and at
the end of the text it does not. The two can differ only if the text is the start of such a name
(`Mnemonic.search_cases`), of which the table has a few. Where they differ the statement cannot be
assembled, except for `RET` and `SEV` with the token `REM` right behind them, which are missed
(`Mnemonic.missedBeforeRem`): the token is above all bytes of names, so the search goes past the
longer names and does not come back.
-/

namespace InlineA64.Mnemonic

variable {s t : Cursor} {name : List Byte} {order : Mnemonic → Ordering}

/-! ## The search -/

/-- What the search finds is an entry of the table that is equal to what is looked for. -/
theorem of_chop {P : Mnemonic → Prop} (hP : ∀ m ∈ all, order m = .eq → P m)
    {fuel bottom top : Nat} {best : Option Mnemonic} (hbest : ∀ m ∈ best, P m) {m : Mnemonic}
    (h : chop order fuel bottom top best = some m) : P m := by
  induction fuel generalizing bottom top best with
  | zero => exact hbest m h
  | succ fuel ih =>
    -- the best entry so far gives way only to another entry of the table
    change (if bottom < top then _ else best) = some m at h
    split at h
    · dsimp only at h
      split at h
      · exact hbest m h
      · next entry hentry =>
        have hmem : entry ∈ all := List.mem_toArray.mp (Array.mem_of_getElem? hentry)
        split at h
        · exact ih hbest h
        · next heq =>
          exact ih (fun m' hm' => Option.mem_some.mp hm' ▸ hP entry hmem heq) h
        · exact ih hbest h
    · exact hbest m h

theorem of_search {m : Mnemonic} (h : search s = some m) : m ∈ all ∧ m.compareName s = .eq :=
  of_chop (P := fun m => m ∈ all ∧ m.compareName s = .eq) (fun _ hm heq => ⟨hm, heq⟩)
    (fun m hm => absurd hm (Option.not_mem_none m)) h

theorem chop_congr {order' : Mnemonic → Ordering} (h : ∀ m ∈ all, order' m = order m)
    {fuel bottom top : Nat} {best : Option Mnemonic} :
    chop order' fuel bottom top best = chop order fuel bottom top best := by
  induction fuel generalizing bottom top best with
  | zero => rfl
  | succ fuel ih =>
    change (if bottom < top then _ else best) = if bottom < top then _ else best
    split
    · dsimp only
      split
      · rfl
      · next entry hentry =>
        rw [h entry (List.mem_toArray.mp (Array.mem_of_getElem? hentry))]
        split <;> exact ih
    · rfl

theorem search_congr (h : ∀ m ∈ all, m.compareName t = m.compareName s) : search t = search s :=
  chop_congr h

/-- `chop` on the entries themselves in place of their bounds in the table. An entry is found
faster that way when the kernel evaluates many searches. -/
def chopList (s : Cursor) : (fuel : Nat) → List Mnemonic → (best : Option Mnemonic) →
    Option Mnemonic
  | 0, _, best => best
  | fuel + 1, l, best =>
    match l.drop (l.length / 2) with
    | [] => best
    | m :: above =>
      match m.compareName s with
      | .gt => chopList s fuel (l.take (l.length / 2)) best
      | .eq => chopList s fuel above (some m)
      | .lt => chopList s fuel above best

theorem chop_eq_chopList {fuel bottom top : Nat} {best : Option Mnemonic}
    (htop : top ≤ all.length) : chop (·.compareName s) fuel bottom top best =
      chopList s fuel ((all.drop bottom).take (top - bottom)) best := by
  induction fuel generalizing bottom top best with
  | zero => rfl
  | succ fuel ih =>
    change (if bottom < top then _ else best) = _
    rw [chopList]
    by_cases hlt : bottom < top
    · have hlength : ((all.drop bottom).take (top - bottom)).length = top - bottom := by
        rw [List.length_take, List.length_drop]
        omega
      have hmiddle : bottom + (top - bottom) / 2 = (bottom + top) / 2 := by omega
      have hinside : (bottom + top) / 2 < all.length := by omega
      have hentry : table[(bottom + top) / 2]? = some all[(bottom + top) / 2] := by
        rw [table, List.getElem?_toArray, List.getElem?_eq_getElem hinside]
      -- the entries from the middle on, and those below it
      have habove : ((all.drop bottom).take (top - bottom)).drop ((top - bottom) / 2) =
          all[(bottom + top) / 2] ::
            (all.drop ((bottom + top) / 2 + 1)).take (top - ((bottom + top) / 2 + 1)) := by
        rw [List.drop_take, List.drop_drop, hmiddle, List.drop_eq_getElem_cons hinside,
          show top - bottom - (top - bottom) / 2 = top - ((bottom + top) / 2 + 1) + 1 by omega,
          List.take_succ_cons]
      have hbelow : ((all.drop bottom).take (top - bottom)).take ((top - bottom) / 2) =
          (all.drop bottom).take ((bottom + top) / 2 - bottom) := by
        rw [List.take_take, show min ((top - bottom) / 2) (top - bottom) =
          (bottom + top) / 2 - bottom by omega]
      rw [if_pos hlt, hlength, habove, hbelow]
      dsimp only
      rw [hentry]
      dsimp only
      cases all[(bottom + top) / 2].compareName s with
      | gt => exact ih (by omega)
      | eq => exact ih htop
      | lt => exact ih htop
    · rw [if_neg hlt, Nat.sub_eq_zero_of_le (Nat.le_of_not_lt hlt), List.take_zero, List.drop_nil]

theorem search_eq_chopList (s : Cursor) : search s = chopList s table.size all none := by
  have hsize : table.size = all.length := List.size_toArray
  rw [search, chop_eq_chopList (Nat.le_of_eq hsize), List.drop_zero, Nat.sub_zero, hsize,
    List.take_length]

/-! ## Names -/

/-- Names consist of the bytes that are shown of a name when it is unknown. -/
theorem all_plain :
    all.all (fun m => (bytesOf m.name).all fun b => Block.isMnemonicByte b.lower) = true := by
  -- the names of a finite table
  decide +kernel

theorem lower_ne {m : Mnemonic} (hm : m ∈ all) {b c : Byte} (hb : b ∈ bytesOf m.name)
    (hc : Block.isMnemonicByte c = false) : b.lower ≠ c := by
  rintro rfl
  rw [List.all_eq_true.mp (List.all_eq_true.mp all_plain m hm) b hb] at hc
  cases hc

/-- A name compares alike with two texts that are alike up to a byte that is not in it. -/
theorem compareAt_congr {i j n : Nat}
    (hsame : ∀ k ≤ n, (t.byteAt (j + k)).lower = (s.byteAt (i + k)).lower)
    (hname : ∀ b ∈ name, b.lower ≠ (s.byteAt (i + n)).lower) :
    compareAt t name j = compareAt s name i := by
  induction name generalizing i j n with
  | nil => rfl
  | cons b name ih =>
    rw [compareAt, compareAt, show (t.byteAt j).lower = _ from hsame 0 (Nat.zero_le n)]
    rcases n with _ | n
    · -- the byte decides the comparison
      have hne : compare b.lower (s.byteAt i).lower ≠ .eq := fun h =>
        hname b List.mem_cons_self (Std.LawfulEqOrd.eq_of_compare h)
      rw [Nat.add_zero]
      cases hcompare : compare b.lower (s.byteAt i).lower with
      | lt => rfl
      | eq => exact absurd hcompare hne
      | gt => rfl
    · have hrest : compareAt t name (j + 1) = compareAt s name (i + 1) := by
        refine ih (n := n) (fun k hk => ?_) fun c hc => ?_
        · have := hsame (k + 1) (Nat.succ_le_succ hk)
          rwa [Nat.add_comm k, ← Nat.add_assoc, ← Nat.add_assoc] at this
        · have := hname c (List.mem_cons_of_mem b hc)
          rwa [Nat.add_comm n, ← Nat.add_assoc] at this
      rw [hrest, Nat.add_zero]

/-- A name that starts the text is in it. -/
theorem le_size_of_compareAt {i : Nat} (h : compareAt s name i = .eq)
    (hname : ∀ b ∈ name, b.lower ≠ 0) (hi : i ≤ s.text.size) :
    i + name.length ≤ s.text.size := by
  induction name generalizing i with
  | nil => exact hi
  | cons b name ih =>
    rw [compareAt, Ordering.then_eq_eq] at h
    have hbyte := Std.LawfulEqOrd.eq_of_compare h.1
    have hlt : i < s.text.size := by
      refine Nat.lt_of_not_le fun hle => hname b List.mem_cons_self ?_
      rw [hbyte, Cursor.byteAt_of_size_le hle]
      rfl
    have hrest := ih h.2 (fun c hc => hname c (List.mem_cons_of_mem b hc)) hlt
    rw [List.length_cons]
    omega

/-! ## The end of a text -/

variable {before behind : Array Byte} {s' : Cursor}

/-- A name compares alike with a text and with a longer one, unless the text is a start of it. -/
theorem compareAt_embeds (h : s.Embeds before behind s') {i : Nat} (hi : i ≤ s.text.size) :
    compareAt s' name (before.size + i) = compareAt s name i ∨
      ∃ stem d rest, name = stem ++ d :: rest ∧ s.EndsAs i stem := by
  induction name generalizing i with
  | nil => exact .inl rfl
  | cons b name ih =>
    rcases Nat.lt_or_eq_of_le hi with hlt | rfl
    · rw [compareAt, compareAt, Nat.add_assoc, h.byteAt_of_lt hlt]
      cases hcompare : compare b.lower (s.byteAt i).lower with
      | lt => exact .inl rfl
      | gt => exact .inl rfl
      | eq =>
        -- the texts are told apart behind this byte, if at all
        refine (ih hlt).imp id ?_
        rintro ⟨stem, d, rest, rfl, hstem⟩
        exact ⟨b :: stem, d, rest, rfl, hstem.cons (Std.LawfulEqOrd.eq_of_compare hcompare).symm⟩
    · exact .inr ⟨[], b, name, rfl, .nil⟩

theorem endsAs_of_compareAt {i : Nat} (h : compareAt s name i = .eq)
    (hend : i + name.length = s.text.size) : s.EndsAs i name := by
  induction name generalizing i with
  | nil =>
    obtain rfl : i = s.text.size := hend
    exact .nil
  | cons b name ih =>
    rw [compareAt, Ordering.then_eq_eq] at h
    refine (ih h.2 ?_).cons (Std.LawfulEqOrd.eq_of_compare h.1).symm
    rw [← hend, List.length_cons]
    omega

/-! ### The table -/

/-- The statement of the mnemonic cannot be assembled if `rest` is all that is behind it. -/
def refuses (rest : List Byte) (m : Mnemonic) : Bool :=
  match m.meaning with
  | .directive _ => false
  | .instruction i => rest.head?.all (·.lower.isAlphanumeric) && i.encoder.refuses rest 0
  | .unsupported => true

/-- The search misses the mnemonic if the token `REM` is right behind it. -/
def missedBeforeRem (m : Mnemonic) : Bool :=
  m.name == "RET" || m.name == "SEV"

/-- The mnemonic at the start of a text. -/
def find (text : List Byte) : Option Mnemonic :=
  chopList (.ofBytes text.toArray) table.size all none

/-- Where the text is `stem` alone, no byte behind it that ends statements makes a difference to the
search, or the statement of what is found cannot be assembled, or it is missed before `REM`. -/
def settled (stem : List Byte) : Bool :=
  (find stem).all fun m =>
    let rest := stem.drop m.name.utf8ByteSize
    m.refuses rest || Byte.stops.all fun c =>
      find (stem ++ [c]) == some m || rest.isEmpty && m.missedBeforeRem && c == Byte.remToken

/-- All starts of `stem ++ name` from `stem` on are settled, given that those of `stem ++ last`
are. -/
def stemsSettled : (last stem name : List Byte) → Bool
  | _, _, [] => true
  | [], stem, b :: name => settled stem && stemsSettled [] (stem ++ [b]) name
  | c :: last, stem, b :: name => stemsSettled (if c = b then last else []) (stem ++ [b]) name

/-- All starts of the names are settled, given that those of `last` are. -/
def namesSettled : (last : List Byte) → List Mnemonic → Bool
  | _, [] => true
  | last, m :: more => stemsSettled last [] (bytesOf m.name) && namesSettled (bytesOf m.name) more

theorem namesSettled_all : namesSettled [] all = true := by
  -- the names of a finite table
  decide +kernel

theorem settled_of_stemsSettled {last stem name : List Byte}
    (hlast : ∀ p d q, last = p ++ d :: q → settled (stem ++ p) = true)
    (h : stemsSettled last stem name = true) {p q : List Byte} {d : Byte}
    (hname : name = p ++ d :: q) : settled (stem ++ p) = true := by
  induction name generalizing last stem p with
  | nil => cases p <;> cases hname
  | cons b name ih =>
    cases p with
    | nil =>
      -- the stem itself: where `last` goes on behind it, it is one of the stems of that
      rw [List.append_nil]
      cases last with
      | nil =>
        rw [stemsSettled, Bool.and_eq_true] at h
        exact h.1
      | cons c last =>
        have hstem := hlast [] c last rfl
        rwa [List.append_nil] at hstem
    | cons b' p =>
      rw [List.cons_append] at hname
      obtain ⟨rfl, hrest⟩ := List.cons_eq_cons.mp hname
      -- what `last` has beyond the next stem is settled, too
      have hnext {last' : List Byte} (hlast' : ∀ p d q, last' = p ++ d :: q →
          settled (stem ++ b :: p) = true) (h : stemsSettled last' (stem ++ [b]) name = true) :
          settled (stem ++ b :: p) = true := by
        have hp := ih (fun p d q hp => by
          rw [List.append_assoc, List.singleton_append]
          exact hlast' p d q hp) h hrest
        rwa [List.append_assoc, List.singleton_append] at hp
      cases last with
      | nil =>
        rw [stemsSettled, Bool.and_eq_true] at h
        exact hnext (fun p d q hp => by cases p <;> cases hp) h.2
      | cons c last =>
        rw [stemsSettled] at h
        refine hnext (fun p d q hp => ?_) h
        split at hp
        · next heq => exact hlast (b :: p) d q (by rw [heq, hp, List.cons_append])
        · cases p <;> cases hp

theorem settled_of_namesSettled {m : Mnemonic} {stem rest : List Byte} {d : Byte}
    (hname : bytesOf m.name = stem ++ d :: rest) {last : List Byte} {l : List Mnemonic}
    (hlast : ∀ p d q, last = p ++ d :: q → settled p = true) (h : namesSettled last l = true)
    (hm : m ∈ l) : settled stem = true := by
  -- of each name only what it does not share with the one before it has been checked
  induction l generalizing last with
  | nil => cases hm
  | cons first l ih =>
    rw [namesSettled, Bool.and_eq_true] at h
    have hfirst {p q : List Byte} {d : Byte} (hp : bytesOf first.name = p ++ d :: q) :
        settled p = true := by
      have hstem : settled ([] ++ p) = true :=
        settled_of_stemsSettled (by simpa only [List.nil_append] using hlast) h.1 hp
      rwa [List.nil_append] at hstem
    rcases List.mem_cons.mp hm with rfl | hm
    · exact hfirst hname
    · exact ih (fun p d q => hfirst) h.2 hm

theorem settled_of_mem {m : Mnemonic} (hm : m ∈ all) {stem rest : List Byte} {d : Byte}
    (hname : bytesOf m.name = stem ++ d :: rest) : settled stem = true :=
  settled_of_namesSettled hname (fun p d q hp => by cases p <;> cases hp) namesSettled_all hm

/-! ### Searching -/

theorem byteAt_ofBytes (l : List Byte) (i : Nat) :
    (Cursor.ofBytes l.toArray).byteAt i = l.getD i 0 := by
  rw [Cursor.byteAt, Cursor.ofBytes, Array.getD_eq_getD_getElem?, List.getD_eq_getElem?_getD,
    List.getElem?_toArray]

theorem search_of_endsAs {stem : List Byte} (h : s.EndsAs s.pos stem) : search s = find stem := by
  rw [find, ← search_eq_chopList]
  refine search_congr fun m hm => ?_
  refine compareAt_congr (n := stem.length) (fun k _ => ?_) fun b hb => ?_
  · rw [h.byte, byteAt_ofBytes, Cursor.ofBytes, Nat.zero_add]
  · rw [byteAt_ofBytes, Cursor.ofBytes, Nat.zero_add, List.getD_eq_default _ _ (Nat.le_refl _)]
    exact lower_ne hm hb rfl

theorem isMnemonicByte_of_mem_stops : ∀ c ∈ Byte.stops, Block.isMnemonicByte c.lower = false := by
  decide

/-- What follows the byte behind a text makes no difference to the search. -/
theorem search_embeds_of_endsAs {stem : List Byte} (hstem : s.EndsAs s.pos stem)
    (h : s.Embeds before behind s') :
    search s' = find (stem ++ [s'.byteAt (before.size + s.text.size)]) := by
  rw [find, ← search_eq_chopList]
  refine search_congr fun m hm => ?_
  have hsize := hstem.size
  have hend := List.getD_append_right stem [s'.byteAt (before.size + s.text.size)] 0 stem.length
    (Nat.le_refl _)
  rw [Nat.sub_self] at hend
  refine compareAt_congr (n := stem.length) (fun k hk => ?_) fun b hb => ?_
  · rw [byteAt_ofBytes, Cursor.ofBytes, Nat.zero_add, h.pos, Nat.add_assoc]
    rcases Nat.lt_or_eq_of_le hk with hlt | rfl
    · rw [List.getD_append _ _ _ _ hlt, ← hstem.byte k, h.byteAt_of_lt (by omega)]
    · rw [hsize, hend]
      rfl
  · rw [byteAt_ofBytes, Cursor.ofBytes, Nat.zero_add, hend]
    exact lower_ne hm hb (isMnemonicByte_of_mem_stops _ h.byteAt_end_mem)

theorem le_size_of_search {m : Mnemonic} (hm : search s = some m) (hinside : s.pos ≤ s.text.size) :
    s.pos + m.name.utf8ByteSize ≤ s.text.size := by
  obtain ⟨hmem, heq⟩ := of_search hm
  exact le_size_of_compareAt heq (fun b hb => lower_ne hmem hb rfl) hinside

/-- What the search finds in a text it finds in a longer one as well, unless the statement cannot be
assembled or the mnemonic is missed before `REM`. -/
theorem search_cases (h : s.Embeds before behind s') {m : Mnemonic} (hm : search s = some m) :
    search s' = some m ∨ ∃ rest, s.EndsAs (s.pos + m.name.utf8ByteSize) rest ∧
      (m.refuses rest = true ∨
        rest = [] ∧ m.missedBeforeRem = true ∧ Byte.remToken ∈ behind[0]?) := by
  -- where a name of the table compares otherwise, the text is a start of that name
  by_cases hall : ∀ m ∈ all, m.compareName s' = m.compareName s
  · exact .inl ((search_congr hall).trans hm)
  · simp only [not_forall] at hall
    obtain ⟨m₀, hm₀, hne⟩ := hall
    rw [compareName, compareName, h.pos] at hne
    obtain ⟨stem, d, rest, hname, hstem⟩ := (compareAt_embeds h h.inside).resolve_left hne
    have hsettled := settled_of_mem hm₀ hname
    rw [settled, ← search_of_endsAs hstem, hm, Option.all_some, Bool.or_eq_true] at hsettled
    have hrest := hstem.drop (n := m.name.utf8ByteSize) (by
      have hle := le_size_of_search hm h.inside
      have hsize := hstem.size
      omega)
    rcases hsettled with hrefuses | hstops
    · exact .inr ⟨_, hrest, .inl hrefuses⟩
    · have hstop := List.all_eq_true.mp hstops _ h.byteAt_end_mem
      rw [← search_embeds_of_endsAs hstem h, Bool.or_eq_true, beq_iff_eq, Bool.and_eq_true,
        Bool.and_eq_true, List.isEmpty_iff, beq_iff_eq] at hstop
      refine hstop.imp id fun ⟨⟨hempty, hmissed⟩, hrem⟩ => ⟨_, hrest, .inr ⟨hempty, hmissed, ?_⟩⟩
      rw [h.byteAt_end] at hrem
      rcases hbehind : behind[0]? with _ | c
      · rw [hbehind] at hrem
        exact absurd hrem (by decide)
      · rw [hbehind] at hrem
        exact congrArg some hrem

/-- The two mnemonics are not found with the token `REM` right behind them. -/
theorem find_of_missedBeforeRem {m : Mnemonic} (h : m.missedBeforeRem = true) :
    find (bytesOf m.name ++ [Byte.remToken]) = none := by
  rw [missedBeforeRem, Bool.or_eq_true, beq_iff_eq, beq_iff_eq] at h
  rcases h with h | h <;> rw [h] <;> decide +kernel

/-! ## Looking up -/

theorem tokenised?_embeds (h : s.Embeds before behind s') : tokenised? s' = tokenised? s := by
  simp only [tokenised?, h.peek_beq (b := Byte.orToken) (by decide),
    h.peek_beq (b := Byte.andToken) (by decide)]
  by_cases hpeek : s.peek = 0
  · rw [hpeek]
    rfl
  · -- there is a byte, so the one behind it is in the text or ends it
    have hpos := Cursor.pos_lt_of_peek hpeek
    rw [h.test_ahead (f := fun b => b.lower == 'r'.toUInt8) (by decide) hpos,
      h.test_ahead (f := fun b => b.lower == 's'.toUInt8) (by decide) hpos]

theorem le_size_of_tokenised? {found : Option Mnemonic} {length : Nat}
    (h : tokenised? s = some (found, length)) : s.pos + length ≤ s.text.size := by
  -- a byte other than 0 is inside the text, and each token form ends with one
  have hlt {n : Nat} (hahead : s.ahead n ≠ 0) : s.pos + n < s.text.size :=
    Nat.lt_of_not_le fun hle => hahead (Cursor.byteAt_of_size_le hle)
  have hletter {c : Byte} (hc : c ≠ 0) (hahead : ((s.ahead 1).lower == c) = true) :
      s.ahead 1 ≠ 0 := fun hzero => hc (by rw [← beq_iff_eq.mp hahead, hzero]; rfl)
  simp only [tokenised?] at h
  split at h
  · next hor =>
    obtain ⟨-, rfl⟩ := Prod.mk.inj (Option.some.inj h)
    exact hlt (hletter (by decide) (Bool.and_eq_true_iff.mp hor).2)
  · split at h
    · next hands =>
      obtain ⟨-, rfl⟩ := Prod.mk.inj (Option.some.inj h)
      exact hlt (hletter (by decide) (Bool.and_eq_true_iff.mp hands).2)
    · split at h
      · next hand =>
        obtain ⟨-, rfl⟩ := Prod.mk.inj (Option.some.inj h)
        refine hlt (n := 0) fun hzero => absurd (beq_iff_eq.mp hand) ?_
        rw [Cursor.peek, hzero]
        decide
      · cases h

theorem search_of_lookup {m : Mnemonic} (h : lookup s = (some m, t))
    (htoken : tokenised? s.skipBlanks = none) :
    search s.skipBlanks = some m ∧ t = s.skipBlanks.advance m.name.utf8ByteSize := by
  simp only [lookup, htoken] at h
  split at h
  · next m' hsearch =>
    obtain ⟨hsome, rfl⟩ := Prod.mk.inj h
    obtain rfl := Option.some.inj hsome
    exact ⟨hsearch, rfl⟩
  · cases h

/-- What is looked up in a text is looked up in a longer one as well, unless the statement cannot be
assembled or the mnemonic is missed before `REM`. -/
theorem lookup_cases (h : s.Embeds before behind s') {m : Mnemonic}
    (hm : lookup s = (some m, t)) :
    (∃ t', lookup s' = (some m, t') ∧ t.Embeds before behind t') ∨
      ∃ rest, t.EndsAs t.pos rest ∧ (m.refuses rest = true ∨
        rest = [] ∧ m.missedBeforeRem = true ∧ Byte.remToken ∈ behind[0]?) := by
  rcases htoken : tokenised? s.skipBlanks with _ | ⟨found, length⟩
  · obtain ⟨hsearch, rfl⟩ := search_of_lookup hm htoken
    have hle := le_size_of_search hsearch h.skipBlanks.inside
    rcases search_cases h.skipBlanks hsearch with hsearch' | ⟨rest, hrest, hcases⟩
    · refine .inl ⟨s'.skipBlanks.advance m.name.utf8ByteSize, ?_, h.skipBlanks.advance hle⟩
      simp only [lookup, tokenised?_embeds h.skipBlanks, htoken, hsearch']
    · exact .inr ⟨rest, hrest.advance, hcases⟩
  · simp only [lookup, htoken] at hm
    obtain ⟨rfl, rfl⟩ := Prod.mk.inj hm
    refine .inl ⟨s'.skipBlanks.advance length, ?_,
      h.skipBlanks.advance (le_size_of_tokenised? htoken)⟩
    simp only [lookup, tokenised?_embeds h.skipBlanks, htoken]

/-! ## Missed mnemonics -/

theorem tokenised?_eq_none {m : Mnemonic} (hm : lookup s = (some m, t))
    (hmissed : m.missedBeforeRem = true) : tokenised? s.skipBlanks = none := by
  have hother {name : String} (hname : (ofName? name).all (!·.missedBeforeRem) = true) :
      ofName? name ≠ some m := by
    intro hfound
    rw [hfound, Option.all_some, hmissed] at hname
    cases hname
  have hfound {found : Option Mnemonic} {length : Nat}
      (htoken : tokenised? s.skipBlanks = some (found, length)) : found = some m := by
    simp only [lookup, htoken] at hm
    exact (Prod.mk.inj hm).1
  rcases htoken : tokenised? s.skipBlanks with _ | ⟨found, length⟩
  · rfl
  -- a token stands for another mnemonic
  obtain rfl := hfound htoken
  simp only [tokenised?] at htoken
  split at htoken
  · exact absurd (Prod.mk.inj (Option.some.inj htoken)).1 (hother (by decide +kernel))
  split at htoken
  · exact absurd (Prod.mk.inj (Option.some.inj htoken)).1 (hother (by decide +kernel))
  split at htoken
  · exact absurd (Prod.mk.inj (Option.some.inj htoken)).1 (hother (by decide +kernel))
  · cases htoken

/-- A mnemonic that is missed before `REM` starts with one of two letters. -/
theorem peek_of_missedBeforeRem {m : Mnemonic} (hm : lookup s = (some m, t))
    (hmissed : m.missedBeforeRem = true) :
    s.skipBlanks.peek.lower = 'r'.toUInt8 ∨ s.skipBlanks.peek.lower = 's'.toUInt8 := by
  obtain ⟨hsearch, -⟩ := search_of_lookup hm (tokenised?_eq_none hm hmissed)
  have hcompare := (of_search hsearch).2
  rw [missedBeforeRem, Bool.or_eq_true, beq_iff_eq, beq_iff_eq] at hmissed
  have hfirst (b : Byte) (name : List Byte) (hname : bytesOf m.name = b :: name) :
      s.skipBlanks.peek.lower = b.lower := by
    rw [compareName, hname, compareAt, Ordering.then_eq_eq] at hcompare
    exact (Std.LawfulEqOrd.eq_of_compare hcompare.1).symm
  rcases hmissed with hname | hname
  · exact .inl (hfirst 'R'.toUInt8 (bytesOf "ET") (by rw [hname]; decide))
  · exact .inr (hfirst 'S'.toUInt8 (bytesOf "EV") (by rw [hname]; decide))

/-- What ends a text and is missed before `REM` is not found in a text that goes on so. -/
theorem lookup_of_missedBeforeRem (h : s.Embeds before behind s') {m : Mnemonic}
    (hm : lookup s = (some m, t)) (hmissed : m.missedBeforeRem = true)
    (hend : t.pos = t.text.size) (hrem : Byte.remToken ∈ behind[0]?) : (lookup s').1 = none := by
  have htoken := tokenised?_eq_none hm hmissed
  obtain ⟨hsearch, rfl⟩ := search_of_lookup hm htoken
  have hle := le_size_of_search hsearch h.skipBlanks.inside
  have hname : s.skipBlanks.EndsAs s.skipBlanks.pos (bytesOf m.name) := by
    refine endsAs_of_compareAt (of_search hsearch).2 ?_
    rwa [Cursor.advance, Nat.min_eq_left hle] at hend
  have hnone : search s'.skipBlanks = none := by
    rw [search_embeds_of_endsAs hname h.skipBlanks, h.skipBlanks.byteAt_end, hrem]
    exact find_of_missedBeforeRem hmissed
  simp only [lookup, tokenised?_embeds h.skipBlanks, htoken, hnone]

end InlineA64.Mnemonic
