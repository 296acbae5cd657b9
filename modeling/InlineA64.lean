import InlineA64.Program
import InlineA64.Proofs.Bitmask
import InlineA64.Proofs.Packing
import InlineA64.Proofs.Relative
import InlineA64.Proofs.TwoPass
import InlineA64.Proofs.Relocation
import InlineA64.Proofs.Block.Agreement
import InlineA64.Proofs.Block.Align
import InlineA64.Proofs.Block.Atomic
import InlineA64.Proofs.Block.Binding
import InlineA64.Proofs.Block.Data
import InlineA64.Proofs.Block.Flags
import InlineA64.Proofs.Block.Flushed
import InlineA64.Proofs.Block.Limit
import InlineA64.Proofs.Block.Located
import InlineA64.Proofs.Block.Offset
import InlineA64.Proofs.Block.Split
import InlineA64.Proofs.Block.Terminator
import InlineA64.Proofs.Block.Tiling
import InlineA64.Proofs.Move
import InlineA64.Proofs.Expression.Grammar
import InlineA64.Proofs.Bounds
import InlineA64.Proofs.Addition
import InlineA64.Proofs.Bitfield
import InlineA64.Proofs.Access
import InlineA64.Proofs.LabelAddress
import InlineA64.Proofs.Logical
import InlineA64.Proofs.Mnemonic.Token
import InlineA64.Proofs.MemoryOperand
import InlineA64.Proofs.ScaledAccess
import InlineA64.Proofs.Lines
import InlineA64.Proofs.Written
import InlineA64.Proofs.Listing
import InlineA64.Proofs.SystemRegister
import InlineA64.Proofs.Keyword.Longest
