import InlineA64.Proofs.Literal
import InlineA64.Proofs.Mnemonic
import Mathlib.Algebra.Group.Int.Defs
import Mathlib.Algebra.Group.Nat.Defs

/-!
# Data directives

A `Datum` is a data directive with its operand: a number in one of four sizes, or a string. It is
written as its name, a blank and the operand (`Datum.text`), and comes to the low bytes of the
number, the lowest first, or to the bytes of the string as they are (`Datum.layout`). The name of a
directive is found in the table of mnemonics (`Datum.exists_lookup`), and the operand has the value
that it is written for (`Datum.read_literal`).
-/

namespace InlineA64

open Cursor (between)
open Literal (Ends)

namespace Datum

/-- The sizes in which numbers are laid out. -/
inductive Size where
  | byte
  | half
  | word
  | quad
deriving DecidableEq, Repr

namespace Size

/-- The number of bytes. -/
def count : Size → Nat
  | byte => 1
  | half => 2
  | word => 4
  | quad => 8

/-- The names of the directives for a size. -/
def names : Size → List String
  | byte => ["DCB", "EQUB", "DB"]
  | half => ["DCW", "EQUW"]
  | word => ["DCD", "EQUD"]
  | quad => ["EQUQ"]

/-- The directives for a size. -/
def directives : Size → List Directive
  | byte => [.byte, .data]
  | half => [.half]
  | word => [.word]
  | quad => [.quad]

end Size

/-- The names of the directives for strings. -/
def stringNames : List String :=
  ["EQUS", "DCS", "DB"]

/-- The directives for strings. -/
def stringDirectives : List Directive :=
  [.string, .data]

/-- What a data directive lays out. -/
inductive Content where
  /-- A number in some size. -/
  | number (size : Size) (n : Int64)
  /-- A string that can be written in a line. -/
  | string (bytes : List Byte) (plain : ∀ b ∈ bytes, b ≠ 0 ∧ b.isBreak = false)

/-- An integer modulo a power of 256, the lowest byte first. -/
def littleEndian (count : Nat) (n : Int) : List Byte :=
  (List.range count).map fun k => UInt8.ofNat ((n % 2 ^ (8 * count)).toNat / 256 ^ k)

namespace Content

/-- The names of the directives that lay it out. -/
def names : Content → List String
  | number size _ => size.names
  | string _ _ => stringNames

/-- The directives that lay it out. -/
def directives : Content → List Directive
  | number size _ => size.directives
  | string _ _ => stringDirectives

/-- How it is written. -/
def literal : Content → List Byte
  | number _ n => Literal.integer n
  | string bytes _ => Literal.quotation bytes

/-- The value that is written. -/
def value : Content → Value
  | number _ n => .int n
  | string bytes _ => .string bytes

/-- The bytes that it comes to in memory. -/
def bytes : Content → List Byte
  | number size n => littleEndian size.count n.toInt
  | string bytes _ => bytes

/-- The number of bytes that are left free before it when an address has been reached: words stand
at a multiple of four, and nothing else is aligned. -/
def padding (address : Nat) : Content → Nat
  | number .word _ => (4 - address % 4) % 4
  | _ => 0

/-- What it comes to in memory from an address on. -/
def laid (address : Nat) (c : Content) : List Byte :=
  List.replicate (c.padding address) 0 ++ c.bytes

end Content

end Datum

/-- A data directive with its operand. -/
structure Datum where
  /-- The operand. -/
  content : Datum.Content
  /-- The name of the directive. -/
  name : String
  /-- The name is that of a directive for such operands. -/
  name_mem : name ∈ content.names

namespace Datum

/-- A directive as it is written. -/
def text (d : Datum) : List Byte :=
  bytesOf d.name ++ ' '.toUInt8 :: d.content.literal

/-- Directives as they are written, with a colon between any two. -/
def source (items : List Datum) : List Byte :=
  List.intercalate [':'.toUInt8] (items.map text)

/-- A directive has no more bytes than a string may have. -/
def fits (d : Datum) : Bool :=
  d.content.bytes.length ≤ 256

/-- What directives come to in memory from an address on. -/
def layout : (address : Nat) → List Datum → List Byte
  | _, [] => []
  | address, d :: rest =>
    d.content.laid address ++ layout (address + (d.content.laid address).length) rest

/-- The failure of the first directive whose string is too long, where `before` is what stands
before the directives in the text. It points behind the name of the directive. -/
def failure? (before : List Byte) (items : List Datum) : Option Failure :=
  (items.find? fun d => !d.fits).map fun d =>
    ⟨.stringTooLong d.content.bytes.length,
      Span.ofOffset (before ++ source items).toArray (before ++ List.intercalate [':'.toUInt8]
        ((items.takeWhile fits).map text ++ [bytesOf d.name])).length⟩

/-! ## Bytes -/

theorem bytesOfNat_eq (count n : Nat) : Block.bytesOfNat count n =
    (List.range count).map fun k => UInt8.ofNat (n / 256 ^ k) := by
  induction count generalizing n with
  | zero => rfl
  | succ count ih =>
    rw [Block.bytesOfNat, ih, List.range_succ_eq_map, List.map_cons, List.map_map]
    congr 1
    · apply UInt8.toNat_inj.mp
      rw [UInt8.toNat_ofNat', UInt8.toNat_ofNat', Nat.pow_zero, Nat.div_one]
      exact Nat.mod_mod n 256
    · refine List.map_congr_left fun k _ => ?_
      rw [Function.comp_apply, Nat.succ_eq_add_one, Nat.pow_succ', Nat.div_div_eq_div_mul]

theorem toNat_toUInt64 (n : Int64) : n.toUInt64.toNat = (n.toInt % 2 ^ 64).toNat := by
  have hofInt : (BitVec.ofInt 64 n.toBitVec.toInt).toNat = n.toBitVec.toNat := by
    rw [BitVec.ofInt_toInt]
  rw [BitVec.toNat_ofInt, Int64.toInt_toBitVec, Int64.toNat_toBitVec] at hofInt
  exact hofInt.symm

/-- The low bytes of a number are those of the number modulo a power of 256. -/
theorem bytesOfNat_toUInt64 {count : Nat} (hcount : count ≤ 8) (n : Int64) :
    Block.bytesOfNat count n.toUInt64.toNat = littleEndian count n.toInt := by
  rw [bytesOfNat_eq, littleEndian]
  refine List.map_congr_left fun k hk => ?_
  rw [List.mem_range] at hk
  have hpow : 2 ^ (8 * count) = 256 ^ count := Nat.pow_mul 2 8 count
  have hmod : (n.toInt % 2 ^ (8 * count)).toNat = n.toUInt64.toNat % 256 ^ count := by
    have hdvd : ((2 ^ (8 * count) : Nat) : Int) ∣ ((2 ^ 64 : Nat) : Int) :=
      Int.natCast_dvd_natCast.mpr (Nat.pow_dvd_pow 2 (by omega))
    have hnonneg : 0 ≤ n.toInt % 2 ^ 64 := Int.emod_nonneg _ (by decide)
    have hcast : (n.toInt % 2 ^ (8 * count)) = n.toInt % ((2 ^ (8 * count) : Nat) : Int) := by
      rw [Int.natCast_pow]
      rfl
    rw [toNat_toUInt64, hcast, ← Int.emod_emod_of_dvd _ hdvd, ← hpow]
    exact Int.toNat_emod hnonneg (Int.natCast_nonneg _)
  -- a byte below the last one is not touched by the reduction
  obtain ⟨rest, hrest⟩ : ∃ rest, 256 ^ count = 256 ^ k * (256 * 256 ^ rest) :=
    ⟨count - k - 1, by rw [← Nat.pow_succ', ← Nat.pow_add]; congr 1; omega⟩
  apply UInt8.toNat_inj.mp
  rw [UInt8.toNat_ofNat', UInt8.toNat_ofNat', hmod, hrest, Nat.mod_mul_right_div_self]
  exact (Nat.mod_mul_right_mod _ 256 _).symm

/-! ## Names -/

/-- Before a blank the name is that of one of the directives, and it starts with a letter. -/
def recognises (directives : List Directive) (name : String) : Bool :=
  (bytesOf name).head?.any Byte.isUpper &&
    (Mnemonic.search (.ofBytes (bytesOf name ++ [' '.toUInt8]).toArray)).any fun m =>
      m.name.utf8ByteSize == (bytesOf name).length &&
        directives.any (m.meaning == .directive ·)

theorem recognises_of_mem (c : Content) {name : String} (h : name ∈ c.names) :
    recognises c.directives name = true := by
  cases c with
  | number size n =>
    have hall : size.names.all (recognises size.directives) = true := by
      cases size <;> decide +kernel
    exact List.all_eq_true.mp hall name h
  | string bytes plain =>
    have hall : stringNames.all (recognises stringDirectives) = true := by decide +kernel
    exact List.all_eq_true.mp hall name h

end Datum

theorem Mnemonic.search_between (before word behind : List Byte) :
    search (between before (word ++ ' '.toUInt8 :: behind)) =
      search (.ofBytes (word ++ [' '.toUInt8]).toArray) := by
  refine search_congr fun m hm => compareAt_congr (n := word.length) (fun k hk => ?_)
    fun b hb => ?_
  · change ((between before _).byteAt (before.length + k)).lower = _
    rw [Cursor.byteAt_between, byteAt_ofBytes, Cursor.ofBytes, Nat.zero_add]
    rcases Nat.lt_or_eq_of_le hk with hlt | rfl
    · rw [List.getD_append _ _ _ _ hlt, List.getD_append _ _ _ _ hlt]
    · rw [List.getD_append_right _ _ _ _ (Nat.le_refl _),
        List.getD_append_right _ _ _ _ (Nat.le_refl _), Nat.sub_self]
      rfl
  · rw [byteAt_ofBytes, Cursor.ofBytes, Nat.zero_add,
      List.getD_append_right _ _ _ _ (Nat.le_refl _), Nat.sub_self]
    exact lower_ne hm hb rfl

namespace Datum

variable {before behind : List Byte}

theorem exists_text_eq_cons (d : Datum) : ∃ b rest, d.text = b :: rest ∧ b.isUpper = true := by
  have hrecognised := recognises_of_mem d.content d.name_mem
  rw [recognises, Bool.and_eq_true, Option.any_eq_true] at hrecognised
  obtain ⟨⟨b, hhead, hb⟩, -⟩ := hrecognised
  obtain ⟨rest, hrest⟩ : ∃ rest, bytesOf d.name = b :: rest := by
    rcases hname : bytesOf d.name with _ | ⟨c, rest⟩
    · rw [hname] at hhead
      cases hhead
    · rw [hname] at hhead
      cases hhead
      exact ⟨rest, rfl⟩
  exact ⟨b, _, by rw [text, hrest, List.cons_append], hb⟩

/-- No blank stands before a directive. -/
theorem skipBlanks_text (d : Datum) :
    (between before (d.text ++ behind)).skipBlanks = between before (d.text ++ behind) := by
  obtain ⟨b, rest, htext, hb⟩ := d.exists_text_eq_cons
  refine Cursor.skipBlanks_of_not_blank ?_
  rw [Cursor.peek_between, htext]
  change b.isBlank = false
  rw [Byte.isBlank, Expression.beq_of_class hb rfl, Expression.beq_of_class hb rfl, Bool.or_self]

/-- The name of a directive is found in the table. -/
theorem exists_lookup (d : Datum) (before behind : List Byte) : ∃ m directive,
    Mnemonic.lookup (between before (d.text ++ behind)) =
      (some m, between (before ++ bytesOf d.name)
        (' '.toUInt8 :: (d.content.literal ++ behind))) ∧
    m.meaning = .directive directive ∧ directive ∈ d.content.directives := by
  have hrecognised := recognises_of_mem d.content d.name_mem
  simp only [recognises, Bool.and_eq_true, Option.any_eq_true, List.any_eq_true, beq_iff_eq]
    at hrecognised
  obtain ⟨-, m, hsearch, hsize, directive, hmem, hmeaning⟩ := hrecognised
  have hsplit : d.text ++ behind =
      bytesOf d.name ++ ' '.toUInt8 :: (d.content.literal ++ behind) := by
    rw [text, List.append_assoc, List.cons_append]
  have htoken : Mnemonic.tokenised? (between before (d.text ++ behind)) = none := by
    obtain ⟨b, rest, htext, hb⟩ := d.exists_text_eq_cons
    have hpeek : (between before (d.text ++ behind)).peek = b := by
      rw [Cursor.peek_between, htext]
      rfl
    simp only [Mnemonic.tokenised?, hpeek, Expression.beq_of_class (c := Byte.orToken) hb rfl,
      Expression.beq_of_class (c := Byte.andToken) hb rfl, Bool.false_and, Bool.false_eq_true,
      if_false]
  -- the search takes the name up to the blank, since it was found to in front of any text
  refine ⟨m, directive, ?_, hmeaning, hmem⟩
  simp only [Mnemonic.lookup, d.skipBlanks_text, htoken]
  rw [hsplit, Mnemonic.search_between, hsearch]
  change (some m, (between before _).advance m.name.utf8ByteSize) = _
  rw [hsize, Cursor.advance_between]

/-! ## Operands -/

/-- The operand of a directive is read as its value. -/
theorem read_literal (before : List Byte) (c : Content) (scope : Expression.Scope)
    (h : Ends behind) :
    Expression.read scope (between before (' '.toUInt8 :: (c.literal ++ behind))) =
      .ok c.value (between (before ++ ' '.toUInt8 :: c.literal) behind) := by
  cases c with
  | number size n => exact Expression.readIn_integer n h
  | string bytes plain => exact Expression.readIn_quotation plain h

/-! ## Several directives -/

/-- What stands behind a directive if these follow it. -/
def continuation : List Datum → List Byte
  | [] => []
  | rest => ':'.toUInt8 :: source rest

theorem source_cons (d : Datum) (rest : List Datum) :
    source (d :: rest) = d.text ++ continuation rest := by
  cases rest with
  | nil =>
    rw [source, List.map_singleton, List.intercalate_singleton, continuation, List.append_nil]
  | cons e rest =>
    rw [source, List.map_cons, List.map_cons, List.intercalate_cons_cons, List.append_assoc]
    rfl

theorem ends_continuation (rest : List Datum) : Ends (continuation rest) := by
  cases rest with
  | nil => exact fun b hb => absurd hb (Option.not_mem_none b)
  | cons e rest => exact fun b hb => (Option.some.inj hb).symm

theorem intercalate_concat (d : Datum) (items : List Datum) (word : List Byte) :
    List.intercalate [':'.toUInt8] (d.text :: (items.map text ++ [word])) =
      d.text ++ [':'.toUInt8] ++ List.intercalate [':'.toUInt8] (items.map text ++ [word]) :=
  List.intercalate_cons_of_ne_nil (List.append_ne_nil_of_right_ne_nil _ (List.cons_ne_nil _ _))

/-- A directive that is laid out is behind what fails. -/
theorem failure?_of_fits {d : Datum} (h : d.fits = true) (rest : List Datum) :
    failure? before (d :: rest) = failure? (before ++ d.text ++ [':'.toUInt8]) rest := by
  have hfind : (d :: rest).find? (fun d => !d.fits) = rest.find? fun d => !d.fits :=
    List.find?_cons_of_neg (by rw [h]; decide)
  cases rest with
  | nil => rw [failure?, hfind]; rfl
  | cons e rest =>
    have hsource : source (d :: e :: rest) = d.text ++ ([':'.toUInt8] ++ source (e :: rest)) :=
      source_cons d (e :: rest)
    simp only [failure?, hfind, hsource, List.takeWhile_cons_of_pos h, List.map_cons,
      List.cons_append, intercalate_concat, List.append_assoc]

theorem failure?_of_not_fits {d : Datum} (h : d.fits = false) (rest : List Datum) :
    failure? before (d :: rest) = some ⟨.stringTooLong d.content.bytes.length,
      (between before (source (d :: rest))).spanOf (before ++ bytesOf d.name).length⟩ := by
  have hfind : (d :: rest).find? (fun d => !d.fits) = some d :=
    List.find?_cons_of_pos (by rw [h]; rfl)
  have hfitting : (d :: rest).takeWhile fits = [] :=
    List.takeWhile_cons_of_neg (by rw [h]; decide)
  simp only [failure?, hfind, hfitting, List.map_nil, List.nil_append, List.intercalate_singleton]
  rfl

end Datum

end InlineA64
