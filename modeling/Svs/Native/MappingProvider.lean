import Svs.Native.Tlv

/-!
# Mappings from publications to application names

`MappingList` as it travels in a `MappingData` block, and the store of
`MappingProvider` that received lists are written to.
-/

namespace Svs

open Std

/-- `MappingEntryPair`: the application name and the additional blocks. -/
structure MappingEntryPair where
  name : Name
  blocks : List Block
deriving DecidableEq, Repr

/-- `MappingList`. -/
structure MappingList where
  nodeId : NodeID := EMPTY_NODE_ID
  pairs : List (SeqNo × MappingEntryPair) := []
deriving DecidableEq

namespace MappingList

/-- The entry in a `MappingEntry` block. -/
def decodeEntry (codec : Codec) (entry : Block) : Decoded (SeqNo × MappingEntryPair) := do
  let elements ← orTlvError (codec.elements entry.value)
  let seqNo ← orTlvError (codec.readNonNegativeInteger (← elementAt elements 0))
  let name ← orTlvError (codec.decodeName (← elementAt elements 1))
  return (seqNo, { name := name, blocks := elements.drop 2 })

/-- One round of the loop of the decoder. -/
def decodeElement (codec : Codec) (list : MappingList) (element : Block) :
    Decoded MappingList := do
  if element.type = tlv.Name then
    return { list with nodeId := ← orTlvError (codec.decodeName element) }
  else if element.type = tlv.MappingEntry then
    return { list with pairs := list.pairs ++ [← decodeEntry codec element] }
  else return list

/-- `MappingList(const Block&)`. -/
def decode (codec : Codec) (block : Block) : Decoded MappingList := do
  let elements ← orTlvError (codec.elements block.value)
  elements.foldlM (decodeElement codec) {}

end MappingList

/-- `m_map` of `MappingProvider`. -/
abbrev MappingStore := ExtTreeMap Name MappingEntryPair

namespace MappingStore

/-- `MappingProvider::insertMapping`. -/
def insertMapping (codec : Codec) (nodeId : NodeID) (seqNo : SeqNo) (entry : MappingEntryPair)
    (store : MappingStore) : MappingStore :=
  store.insert (codec.appendNumber nodeId seqNo) entry

/-- `SVSPubSub::onRecvExtraData`. -/
def onRecvExtraData (codec : Codec) (block : Block) (store : MappingStore) : MappingStore :=
  match MappingList.decode codec block with
  | .ok list => list.pairs.foldl (fun s p => insertMapping codec list.nodeId p.1 p.2 s) store
  | .error _ => store

end MappingStore

end Svs
