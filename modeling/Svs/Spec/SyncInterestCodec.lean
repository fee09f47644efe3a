import Svs.Native.Group
import Svs.Spec.StoredMappings
import Svs.Spec.VectorCodec

/-!
# A Sync Interest on the wire

What `sendSyncInterest` writes, `onSyncInterestValidated` reads: the vector, and the mappings
with their blocks in reverse.

## Key results

- `elements_applicationParameters`: the two blocks of the parameters
- `receives`: what a node makes of the parameters that another one has sent
-/

namespace Svs

open Std

namespace Publisher

open MappingList (listBlock)

variable {vv : VersionVector} {list : MappingList}

theorem applicationParameters_eq (vv : VersionVector) (extra : List UInt8) :
    applicationParameters vv extra = vv.encode ++ extra := by
  simp only [applicationParameters, EncodingBuffer.prependBytes, bind, StateT.bind, pure, StateT.pure,
    StateT.run, List.append_nil]

/-- The parameters are two blocks. -/
theorem elements_applicationParameters (hvv : vv.Encodable) (hlist : list.Encodable) :
    Codec.packetFormat.elements (applicationParameters vv list.encode) =
      some [stateVectorBlock vv, listBlock list] := by
  have hblocks : ∀ b ∈ [stateVectorBlock vv, listBlock list], b.Valid := by
    intro b hb
    rcases List.mem_pair.mp hb with rfl | rfl
    · exact ⟨(by decide : 0 < tlv.StateVector), (by decide : tlv.StateVector < 2 ^ 32),
        hvv.length_value_lt⟩
    · exact ⟨(by decide : 0 < tlv.MappingData), (by decide : tlv.MappingData < 2 ^ 32),
        hlist.length_value_lt⟩
  have hread := Codec.elements_wires hblocks
  rwa [List.flatMap_cons, List.flatMap_singleton, ← encode_eq_wire, ← MappingList.encode_eq_wire,
    ← applicationParameters_eq] at hread

end Publisher

namespace MappingList

/-- The last entry that arrives is the first one that was sent. -/
theorem lastEntry_mirror (list : MappingList) (seqNo : SeqNo) :
    lastEntry list.mirror.pairs seqNo =
      (firstEntry list.pairs seqNo).map fun mapping =>
        { mapping with blocks := mapping.blocks.reverse } := by
  simp only [lastEntry, mirror, List.reverse_reverse, firstEntry, List.find?_map, Option.map_map]
  rfl

end MappingList

namespace Receiver

open MappingList Publisher

variable (P : Platform) (cfg : Config) (m : Moment) {vv : VersionVector} {list : MappingList}

/-- The parameters that a node has sent make another one process the vector.  Of the mappings
    it stores the first entry for each number, with the blocks in reverse. -/
theorem receives (hvv : vv.Encodable) (hlist : list.Encodable) (face : Option UInt64) (r : Receiver) :
    onSyncInterestValidated .packetFormat P cfg (some (pubSubCallback .packetFormat)) m
        ⟨some (applicationParameters vv list.encode), face⟩ r =
      { receiver :=
          { core := (Core.processVector P cfg m vv.wire (face.getD 0) r.core).1
            mappings := r.mappings.onRecvExtraData .packetFormat (listBlock list) }
        effects := (Core.processVector P cfg m vv.wire (face.getD 0) r.core).2 } ∧
      ∀ p, (r.mappings.onRecvExtraData .packetFormat (listBlock list)).getMapping p =
        (if list.nodeId = p.nodeId then
          (firstEntry list.pairs p.seqNo).map fun mapping =>
            { mapping with blocks := mapping.blocks.reverse }
        else none).or (r.mappings.getMapping p) := by
  constructor
  · have hvector : decodeStateVector .packetFormat [stateVectorBlock vv, listBlock list] = .ok vv.wire :=
      decode_stateVectorBlock hvv
    simp only [onSyncInterestValidated, elements_applicationParameters hvv hlist, orTlvError_some, hvector]
    rfl
  · intro p
    rw [MappingStore.getMapping_onRecvExtraData, decode_listBlock hlist, ← lastEntry_mirror]
    rfl

end Receiver

end Svs
