import InlineA64.Encoder.Arithmetic
import InlineA64.Encoder.Logical
import InlineA64.Encoder.Bitfield
import InlineA64.Encoder.Conditional
import InlineA64.Encoder.Branch
import InlineA64.Encoder.System
import InlineA64.Encoder.Transfer

/-!
# The encoder of each instruction

`Instruction.encoder` gives the reader that takes the operands of an instruction and describes its
word. It stands at the byte behind the mnemonic and takes the operands of its family, no more.
-/

namespace InlineA64.Instruction

/-- The reader of the operands of an instruction. -/
def encoder : Instruction → Reader Encoding
  | threeRegister base => Encoder.threeRegister base
  | addition subtract setsFlags compare => Encoder.addition subtract setsFlags compare
  | logical op invert test => Encoder.logical op invert test
  | shiftedMove base rotate => Encoder.shiftedMove base rotate
  | negateWithCarry base => Encoder.negateWithCarry base
  | move => Encoder.move
  | wideMove base => Encoder.wideMove base
  | shift kind => Encoder.shift kind
  | bitfield op form => Encoder.bitfield op form
  | extension signed source => Encoder.extension signed source
  | extract => Encoder.extract
  | multiplyAdd base => Encoder.multiplyAdd base
  | wideningMultiply base accumulate => Encoder.wideningMultiply base accumulate
  | multiplyHigh base => Encoder.multiplyHigh base
  | select base => Encoder.select base
  | selectOpposite base => Encoder.selectOpposite base
  | setOnCondition base => Encoder.setOnCondition base
  | conditionalCompare base => Encoder.conditionalCompare base
  | bitOperation base wideBits wideOnly => Encoder.bitOperation base wideBits wideOnly
  | checksum base wide => Encoder.checksum base wide
  | address page => Encoder.address page
  | branch link => Encoder.branch link
  | compareBranch base => Encoder.compareBranch base
  | testBranch base => Encoder.testBranch base
  | registerBranch base => Encoder.registerBranch base
  | authenticatedBranch base => Encoder.authenticatedBranch base
  | ret => Encoder.ret
  | fixed word => return Encoding.of word
  | profilingBarrier => Encoder.profilingBarrier
  | exception base => Encoder.exception base
  | debugState base => Encoder.debugState base
  | hint => Encoder.hint
  | barrier base instruction => Encoder.barrier base instruction
  | clearExclusive => Encoder.clearExclusive
  | readSystemRegister => Encoder.readSystemRegister
  | writeSystemRegister => Encoder.writeSystemRegister
  | system result => Encoder.system result
  | maintenance kind => Encoder.maintenance kind
  | authenticate base => Encoder.authenticate base
  | authenticateZero base => Encoder.authenticateZero base
  | genericAuthentication => Encoder.genericAuthentication
  | transfer scale load => Encoder.transfer scale load
  | signedLoad scale => Encoder.signedLoad scale
  | unscaledTransfer base rule => Encoder.unscaledTransfer base rule
  | pairTransfer base kind => Encoder.pairTransfer base kind
  | ordered base rule => Encoder.ordered base rule
  | exclusiveStore base rule => Encoder.exclusiveStore base rule
  | exclusivePairLoad base => Encoder.exclusivePairLoad base
  | exclusivePairStore base => Encoder.exclusivePairStore base
  | atomic base rule => Encoder.atomic base rule
  | atomicStore base rule => Encoder.atomicStore base rule
  | compareAndSwapPairs base => Encoder.compareAndSwapPairs base
  | authenticatedLoad base => Encoder.authenticatedLoad base
  | prefetch => Encoder.prefetch

end InlineA64.Instruction
