import Svs.Native.MappingProvider

/-!
# Encoding

`ndn::encoding::EncodingBuffer` is filled from the back: a `prepend…` puts bytes in
front of those already there and returns how many it wrote.  The encoders of the
repository add these numbers up to get the lengths of the enclosing blocks.

The lengths are `size_t`, which no buffer that fits into memory exceeds.
-/

namespace Svs

namespace Codec

/-- The coding of a TLV type or length in 1, 3, 5 or 9 bytes. -/
def varNumber (n : Nat) : List UInt8 :=
  if n < 253 then [UInt8.ofNat n]
  else if n < 2 ^ 16 then 253 :: toBigEndian n 2
  else if n < 2 ^ 32 then 254 :: toBigEndian n 4
  else 255 :: toBigEndian n 8

end Codec

/-- The bytes of a block. -/
def Block.wire (b : Block) : List UInt8 :=
  Codec.varNumber b.type ++ Codec.varNumber b.value.length ++ b.value

/-- A component as a block. -/
def Component.block (c : Component) : Block := { type := c.type, value := c.value }

/-- `Name::wireEncode`. -/
def Name.wireEncode (n : Name) : Block where
  type := tlv.Name
  value := n.components.flatMap fun c => c.block.wire

/-- `EncodingBuffer`. -/
abbrev EncodingBuffer := StateM (List UInt8)

namespace EncodingBuffer

/-- `prependBytes`. -/
def prependBytes (bytes : List UInt8) : EncodingBuffer Nat :=
  fun buffer => (bytes.length, bytes ++ buffer)

/-- `prependVarNumber`. -/
def prependVarNumber (n : Nat) : EncodingBuffer Nat := prependBytes (Codec.varNumber n)

/-- `prependBlock`. -/
def prependBlock (block : Block) : EncodingBuffer Nat := prependBytes block.wire

/-- `prependNonNegativeIntegerBlock`. -/
def prependNonNegativeIntegerBlock (type : Nat) (n : UInt64) : EncodingBuffer Nat := do
  let mut totalLength ← prependBytes (Codec.integerBytes n)
  totalLength := totalLength + (← prependVarNumber totalLength)
  return totalLength + (← prependVarNumber type)

end EncodingBuffer

open EncodingBuffer

namespace VersionVector

/-- One round of the loop of `VersionVector::encode`. -/
def prependEntry (totalLength : Nat) (entry : NodeID × SeqNo) : EncodingBuffer Nat := do
  let mut entryLength ← prependNonNegativeIntegerBlock tlv.SeqNo entry.2
  entryLength := entryLength + (← prependBlock entry.1.wireEncode)
  let mut totalLength := totalLength + (← prependVarNumber entryLength)
  totalLength := totalLength + (← prependVarNumber tlv.StateVectorEntry)
  return totalLength + entryLength

/-- The body of `VersionVector::encode`; the loop runs over the map backwards. -/
def prependVector (vv : VersionVector) : EncodingBuffer Unit := do
  let totalLength ← vv.entries.reverse.foldlM prependEntry 0
  let _ ← prependVarNumber totalLength
  let _ ← prependVarNumber tlv.StateVector

/-- `VersionVector::encode`: the bytes of the block it returns. -/
def encode (vv : VersionVector) : List UInt8 := (vv.prependVector.run []).2

end VersionVector

namespace MappingList

/-- One round of the inner loop of `MappingList::encode`. -/
def prependAdditional (entryLength : Nat) (block : Block) : EncodingBuffer Nat := do
  return entryLength + (← prependBlock block)

/-- One round of the outer loop of `MappingList::encode`. -/
def prependEntry (totalLength : Nat) (pair : SeqNo × MappingEntryPair) : EncodingBuffer Nat := do
  let mut entryLength ← pair.2.blocks.foldlM prependAdditional 0
  entryLength := entryLength + (← prependBlock pair.2.name.wireEncode)
  entryLength := entryLength + (← prependNonNegativeIntegerBlock tlv.SeqNo pair.1)
  let mut totalLength := totalLength + (← prependVarNumber entryLength)
  totalLength := totalLength + (← prependVarNumber tlv.MappingEntry)
  return totalLength + entryLength

/-- The body of `MappingList::encode`; here both loops run forwards. -/
def prependList (list : MappingList) : EncodingBuffer Unit := do
  let mut totalLength ← list.pairs.foldlM prependEntry 0
  totalLength := totalLength + (← prependBlock list.nodeId.wireEncode)
  let _ ← prependVarNumber totalLength
  let _ ← prependVarNumber tlv.MappingData

/-- `MappingList::encode`: the bytes of the block it returns. -/
def encode (list : MappingList) : List UInt8 := (list.prependList.run []).2

end MappingList

end Svs
