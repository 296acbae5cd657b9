import InlineA64.Proofs.Block.Item
import InlineA64.Proofs.Mnemonic

/-!
# The mnemonic of a statement that is assembled

A statement whose mnemonic refuses what is behind it fails (`Block.perform_ne_ok`). The mnemonic of
a statement that is assembled is therefore the same in a longer text, although the search for it may
look at a byte behind the statement: only the token `REM` may hide it (`Block.lookup_of_perform`).
-/

namespace InlineA64.Block

variable {σ Slot : Type} {env : Environment σ Slot} {b c : Block σ Slot} {m : Mnemonic} {u : Unit}

/-- An instruction whose operands are not read is not assembled. -/
theorem instruction_ne_ok {mnemonic : String} {reader : Reader Encoding}
    (h : ∀ context state, ∃ failure r',
      reader.run ⟨env, context, mnemonic⟩ ⟨b.cursor, state, []⟩ = .error failure r') :
    (do settle; instruction env mnemonic reader) b ≠ .ok u c := by
  intro hc
  rw [settle, modify_bind, instruction, alignStart, modify_bind] at hc
  obtain ⟨encoding, b₁, hoperands, -⟩ := bind_eq_ok.mp hc
  obtain ⟨failure, r', hrun⟩ := h b.placement.align.context b.state
  simp only [operands, hrun, reduceCtorEq] at hoperands

/-- A statement whose mnemonic refuses the rest of the text is not assembled. -/
theorem perform_ne_ok {rest : List Byte} (hrest : b.cursor.EndsAs b.cursor.pos rest)
    (hrefuses : m.refuses rest = true) : perform env m b ≠ .ok u c := by
  rw [Mnemonic.refuses] at hrefuses
  rw [perform]
  split at hrefuses
  · exact absurd hrefuses Bool.false_ne_true
  · next i hmeaning =>
    rw [Bool.and_eq_true] at hrefuses
    obtain ⟨hblank, hend⟩ := hrest.peek_class hrefuses.1
    simp only [hmeaning]
    exact instruction_ne_ok fun context state =>
      Reader.error_of_refuses hrest hblank hend hrefuses.2
  · next hmeaning =>
    simp only [hmeaning]
    exact instruction_ne_ok fun context state => ⟨_, _, rfl⟩

/-- The mnemonic of a statement that is assembled is found in a longer text as well, if it is not
missed before `REM`. -/
theorem lookup_of_perform {before behind : Array Byte} {s' t : Cursor}
    (h : b.cursor.Embeds before behind s') (hlookup : Mnemonic.lookup b.cursor = (some m, t))
    (hperform : perform env m { b with cursor := t } = .ok u c)
    (hmissed : m.missedBeforeRem = true → t.pos = t.text.size → Byte.remToken ∉ behind[0]?) :
    ∃ t', Mnemonic.lookup s' = (some m, t') ∧ t.Embeds before behind t' := by
  refine (Mnemonic.lookup_cases h hlookup).resolve_right ?_
  rintro ⟨rest, hrest, hrefuses | ⟨rfl, hmissed', hrem⟩⟩
  · exact perform_ne_ok (b := { b with cursor := t }) hrest hrefuses hperform
  · exact hmissed hmissed' (hrest.isEmpty.mp rfl) hrem

end InlineA64.Block
