import InlineA64.Proofs.Format.Basic
import InlineA64.Proofs.Reader.Run

/-!
# Answers to requests

What is known of the answer to a request, whatever the text and the environment are: a register is
one of those there are, a keyword is one of its vocabulary, the numbers of a system register are
within their fields. `Request.allows_of_answer` shows it of every answer.
-/

namespace InlineA64

variable {σ Slot α β : Type}

/-! ## Answers -/

namespace SystemRegister

/-- The numbers of a system register are within their fields. -/
structure Valid (r : SystemRegister) : Prop where
  op1_lt : r.op1 < 8
  crn_lt : r.crn < 16
  crm_lt : r.crm < 16
  op2_lt : r.op2 < 8

end SystemRegister

namespace Request

/-- What is known of the answer to a request, whatever the text and the environment are. -/
@[simp]
def Allows : Request β → β → Prop
  | keyword v, answer => ∀ a ∈ answer, a ∈ v.entries.map Prod.snd
  | wholeWord v, answer => ∀ a ∈ answer, a ∈ v.entries.map Prod.snd
  | register, r => r.Valid
  | systemRegister, r => r.Valid
  | _, _ => True

/-- The registers that are taken from the text by a request with this answer. -/
@[simp]
def registers : Request β → β → List Register
  | register, r => [r]
  | _, _ => []

end Request

/-! ### Registers -/

namespace Register

theorem valid_zeroOf (width : Width) : (zeroOf width).Valid :=
  ⟨le_refl 31, fun _ => rfl⟩

theorem valid_link : link.Valid :=
  ⟨by decide, fun h => by cases h⟩

theorem valid_of_mem_named : ∀ entry ∈ named, entry.2.Valid := by
  intro entry h
  constructor
  · revert entry
    decide
  · revert entry
    decide

theorem valid_of_numbered? {s s' : Cursor} {r : Register} (h : numbered? s = some (r, s')) :
    r.Valid := by
  simp only [numbered?, Option.bind_eq_bind, Option.bind_eq_some_iff] at h
  obtain ⟨width, -, tens, -, h⟩ := h
  -- with one digit or two, numbers beyond 30 are turned away
  split at h
  next =>
    split at h
    next hle =>
      obtain ⟨rfl, -⟩ := Prod.mk.inj (Option.some.inj h)
      exact ⟨Nat.le_succ_of_le hle, fun hzero => by cases hzero⟩
    next => cases h
  next =>
    split at h
    next hle =>
      obtain ⟨rfl, -⟩ := Prod.mk.inj (Option.some.inj h)
      exact ⟨Nat.le_succ_of_le hle, fun hzero => by cases hzero⟩
    next => cases h

theorem valid_of_scan? {s s' : Cursor} {r : Register} (h : scan? s = some (r, s')) : r.Valid := by
  rw [scan?] at h
  split at h
  next name r' hfind =>
    obtain ⟨rfl, -⟩ := Prod.mk.inj (Option.some.inj h)
    exact valid_of_mem_named _ (List.mem_of_find?_eq_some hfind)
  next => exact valid_of_numbered? h

theorem valid_of_readFor {mnemonic : String} {s s' : Cursor} {r : Register}
    (h : readFor mnemonic s = .ok r s') : r.Valid := by
  simp only [readFor, bind_eq_ok, modify_eq_ok, get_eq_ok] at h
  obtain ⟨-, _, rfl, s₁, _, ⟨rfl, rfl⟩, h⟩ := h
  split at h
  next => cases h
  next =>
    simp only [read, bind_eq_ok, modify_eq_ok, get_eq_ok] at h
    obtain ⟨-, _, rfl, s₂, _, ⟨rfl, rfl⟩, h⟩ := h
    rcases hscan : scan? s.skipBlanks.skipBlanks with _ | ⟨r', s₃⟩
    · rw [hscan] at h
      cases h
    · rw [hscan] at h
      obtain ⟨-, _, -, h⟩ := bind_eq_ok.mp h
      rw [(pure_eq_ok.mp h).1]
      exact valid_of_scan? hscan

end Register

/-! ### Keywords and system registers -/

namespace Cursor

theorem mem_of_lastMatch? {s : Cursor} {table : List (String × β)} {entry : String × β}
    (h : s.lastMatch? table = some entry) : entry ∈ table :=
  List.mem_reverse.mp (List.mem_of_find?_eq_some h)

/-- A keyword that is taken is one of the table. -/
theorem mem_of_keyword? {s s' : Cursor} {table : List (String × β)} {a : β}
    (h : s.keyword? table = (some a, s')) : a ∈ table.map Prod.snd := by
  rw [keyword?] at h
  split at h
  next word meaning hmatch =>
    obtain ⟨rfl, -⟩ : meaning = a ∧ _ := by simpa using h
    exact List.mem_map_of_mem (mem_of_lastMatch? hmatch)
  next => cases h

/-- A whole word that is taken is one of the table. -/
theorem mem_of_wholeWord? {s s' : Cursor} {table : List (String × β)} {a : β}
    (h : s.wholeWord? table = (some a, s')) : a ∈ table.map Prod.snd := by
  rw [wholeWord?] at h
  split at h
  next meaning s₁ hkeyword =>
    split at h
    next => cases h
    next =>
      obtain ⟨rfl, -⟩ : meaning = a ∧ _ := by simpa using h
      exact mem_of_keyword? hkeyword
  next => cases h

end Cursor

theorem Byte.digit?_lt {base n : ℕ} {b : Byte} (h : b.digit? base = some n) : n < base := by
  rw [Byte.digit?, Option.filter_eq_some_iff, decide_eq_true_eq] at h
  exact h.2

namespace SystemRegister

/-- Whatever an attempt takes satisfies `P`. -/
def Yields (x : Attempt α) (P : α → Prop) : Prop :=
  ∀ s a s', x.run s = (some a, s') → P a

theorem Yields.bind {P : α → Prop} {Q : β → Prop} {x : Attempt α} {f : α → Attempt β}
    (hx : Yields x P) (hf : ∀ a, P a → Yields (f a) Q) : Yields (x >>= f) Q := by
  intro s b s' h
  rw [OptionT.run_bind, Option.elimM] at h
  rcases hrun : x.run s with ⟨_ | a, s₁⟩
  · simp only [Bind.bind, StateT.bind, hrun, Option.elim_none] at h
    cases h
  · simp only [Bind.bind, StateT.bind, hrun, Option.elim_some] at h
    exact hf a (hx s a s₁ hrun) s₁ b s' h

theorem Yields.pure {P : α → Prop} {a : α} (h : P a) : Yields (pure a : Attempt α) P := by
  intro s b s' hrun
  cases hrun
  exact h

theorem Yields.failure {P : α → Prop} : Yields (failure : Attempt α) P := by
  intro s a s' h
  cases h

theorem yields_any (x : Attempt α) : Yields x fun _ => True := fun _ _ _ _ => trivial

theorem digit_yields : Yields digit (· < 10) := by
  intro s n s' h
  simp only [digit, OptionT.run] at h
  split at h
  next m hdigit =>
    cases h
    exact Byte.digit?_lt hdigit
  next => cases h

theorem secondDigit_yields {first : ℕ} (hfirst : first < 10) :
    Yields (secondDigit first) (· < 16) := by
  intro s n s' h
  simp only [secondDigit, OptionT.run] at h
  split at h
  next m hdigit =>
    split at h
    next hle =>
      cases h
      omega
    next =>
      cases h
      omega
  next =>
    cases h
    omega

theorem opcode_yields : Yields opcode (· < 8) := by
  refine (yields_any _).bind fun _ _ => digit_yields.bind fun n _ => ?_
  split
  · exact .pure (by omega)
  · exact .failure

theorem controlRegister_yields : Yields controlRegister (· < 16) := by
  refine (yields_any _).bind fun _ _ => (yields_any _).bind fun _ _ => ?_
  exact digit_yields.bind fun first hfirst => secondDigit_yields hfirst

/-- A system register in its numeric spelling has numbers within their fields. -/
theorem numeric_yields : Yields numeric Valid := by
  refine (yields_any _).bind fun _ _ => (yields_any _).bind fun op0 _ => ?_
  refine opcode_yields.bind fun op1 hop1 => controlRegister_yields.bind fun crn hcrn => ?_
  refine controlRegister_yields.bind fun crm hcrm => opcode_yields.bind fun op2 hop2 => ?_
  refine (yields_any _).bind fun s _ => ?_
  split
  · exact .failure
  · exact .pure ⟨hop1, hcrn, hcrm, hop2⟩

theorem valid_of_mem_named : ∀ r ∈ named.map Prod.snd, r.Valid := by
  intro r h
  -- spelled out, since `Valid` is not decidable as a structure
  have hall : ∀ r ∈ named.map Prod.snd, r.op1 < 8 ∧ r.crn < 16 ∧ r.crm < 16 ∧ r.op2 < 8 := by
    decide
  obtain ⟨h1, h2, h3, h4⟩ := hall r h
  exact ⟨h1, h2, h3, h4⟩

theorem valid_of_read {s s' : Cursor} {r : SystemRegister} (h : read s = .ok r s') : r.Valid := by
  obtain ⟨found, s₁, hword, h⟩ := bind_eq_ok.mp h
  rw [modifyGet_eq_ok] at hword
  -- the numeric spelling is tried when no name matches
  rcases found with _ | r'
  · obtain ⟨s₂, _, -, h⟩ := bind_eq_ok.mp h
    obtain ⟨found, s₃, hnumeric, h⟩ := bind_eq_ok.mp h
    rw [modifyGet_eq_ok] at hnumeric
    rcases found with _ | r'
    · cases h
    · rw [(pure_eq_ok.mp h).1]
      exact numeric_yields _ _ _ hnumeric
  · rw [(pure_eq_ok.mp h).1]
    exact valid_of_mem_named _ (Cursor.mem_of_wholeWord? hword)

end SystemRegister

/-- The answer to a request is what it is known to be. -/
theorem Request.allows_of_answer {around : Surroundings σ Slot} {r r' : Reading σ}
    (q : Request β) {a : β} (h : q.answer around r = .ok a r') : q.Allows a := by
  cases q with
  | keyword v =>
    rintro meaning rfl
    rw [answer] at h
    obtain ⟨s, hkeyword, -⟩ := Reading.step_eq_ok.mp h
    exact Cursor.mem_of_keyword? hkeyword
  | wholeWord v =>
    rintro meaning rfl
    rw [answer] at h
    obtain ⟨s, hword, -⟩ := Reading.step_eq_ok.mp h
    exact Cursor.mem_of_wholeWord? hword
  | register =>
    obtain ⟨s, hread, -⟩ := Reading.scan_eq_ok.mp h
    exact Register.valid_of_readFor hread
  | systemRegister =>
    obtain ⟨s, hread, -⟩ := Reading.scan_eq_ok.mp h
    exact SystemRegister.valid_of_read hread
  | _ => trivial

end InlineA64
