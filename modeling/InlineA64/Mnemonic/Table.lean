import InlineA64.Mnemonic.Table.AtoE
import InlineA64.Mnemonic.Table.FtoL
import InlineA64.Mnemonic.Table.MtoR
import InlineA64.Mnemonic.Table.StoZ

/-!
# The mnemonic table

All mnemonics in one list, in alphabetical order with no regard to case. The order is what the
search of `Mnemonic.lookup` relies on.
-/

namespace InlineA64.Mnemonic

/-- All mnemonics, in alphabetical order. -/
def all : List Mnemonic :=
  letterA ++ letterB ++ letterC ++ letterD ++ letterE ++ letterF ++ letterH ++ letterI ++
    letterL ++ letterM ++ letterN ++ letterO ++ letterP ++ letterR ++ letterS ++ letterT ++
    letterU ++ letterW ++ letterX ++ letterY ++ letterZ

/-- The mnemonics by position. -/
def table : Array Mnemonic :=
  all.toArray

end InlineA64.Mnemonic
