import Svs.Native.PubSub
import Svs.Spec.MappingCodec

/-!
# The mapping store

A mapping is stored under the name of the node with the sequence number appended, and
no two publications have one such name.  Lists come in over two paths: the extra data of
a Sync Interest replaces what is there, a mapping reply does not.

## Key results

- `appendNumber_inj`: different publications have different keys
- `getMapping_addMappings`: the store after a mapping reply
- `getMapping_onRecvExtraData`: the store after extra data
-/

namespace Svs

open Std

namespace Codec

theorem integerBytes_inj {i j : UInt64} : integerBytes i = integerBytes j ↔ i = j := by
  constructor
  · intro h
    have hi := readNonNegativeInteger_integerBytes 0 i
    rw [h, readNonNegativeInteger_integerBytes] at hi
    exact (Option.some.inj hi).symm
  · exact congrArg integerBytes

theorem appendNumber_inj {n n' : Name} {i j : UInt64} :
    packetFormat.appendNumber n i = packetFormat.appendNumber n' j ↔ n = n' ∧ i = j := by
  constructor
  · intro h
    obtain ⟨hname, hnumber⟩ := List.append_inj' (congrArg Name.components h) rfl
    have hvalue := congrArg Component.value (List.cons.inj hnumber).1
    exact ⟨Name.components_injective hname, integerBytes_inj.mp hvalue⟩
  · rintro ⟨rfl, rfl⟩
    rfl

end Codec

namespace MappingList

/-- The first entry of a list for a sequence number. -/
def firstEntry (pairs : List (SeqNo × MappingEntryPair)) (seqNo : SeqNo) : Option MappingEntryPair :=
  (pairs.find? (·.1 = seqNo)).map Prod.snd

/-- The last one. -/
def lastEntry (pairs : List (SeqNo × MappingEntryPair)) (seqNo : SeqNo) : Option MappingEntryPair :=
  firstEntry pairs.reverse seqNo

theorem firstEntry_eq_none_iff {pairs : List (SeqNo × MappingEntryPair)} {seqNo : SeqNo} :
    firstEntry pairs seqNo = none ↔ seqNo ∉ pairs.map (·.1) := by
  simp only [firstEntry, Option.map_eq_none_iff, List.find?_eq_none, List.mem_map, not_exists, not_and,
    decide_eq_true_eq]

/-- An entry that is looked up by node and number. -/
theorem find?_entry (pairs : List (SeqNo × MappingEntryPair)) (nodeId : NodeID) (p : Publication) :
    (pairs.find? fun x => nodeId = p.nodeId ∧ x.1 = p.seqNo).map Prod.snd =
      if nodeId = p.nodeId then firstEntry pairs p.seqNo else none := by
  split
  · next hnode => simp [hnode, firstEntry]
  · next hnode => simp [hnode]

/-- The content of a mapping reply is one block. -/
theorem blockFromValue_encode {list : MappingList} (h : list.Encodable) :
    blockFromValue list.encode = some (listBlock list) := by
  have hvalid : (listBlock list).Valid :=
    ⟨(by decide : 0 < tlv.MappingData), (by decide : tlv.MappingData < 2 ^ 32), h.length_value_lt⟩
  have hread := Codec.readBlock_wire hvalid []
  rw [List.append_nil, ← encode_eq_wire] at hread
  rw [blockFromValue, hread]

end MappingList

namespace MappingStore

open MappingList

theorem getMapping_insertMapping (nodeId : NodeID) (seqNo : SeqNo) (entry : MappingEntryPair)
    (store : MappingStore) (p : Publication) :
    (store.insertMapping .packetFormat nodeId seqNo entry).getMapping p =
      if p = ⟨nodeId, seqNo⟩ then some entry else store.getMapping p := by
  obtain ⟨n, i⟩ := p
  simp only [getMapping, insertMapping, ExtTreeMap.getElem?_insert', Codec.appendNumber_inj,
    Publication.mk.injEq, eq_comm]

/-- The loop over a mapping reply, by the keys of the store. -/
theorem addMappings_eq (nodeId : NodeID) (pairs : List (SeqNo × MappingEntryPair))
    (store : MappingStore) :
    addMappings nodeId pairs store = pairs.foldl (fun store x =>
      if Codec.packetFormat.appendNumber nodeId x.1 ∈ store then store
      else store.insert (Codec.packetFormat.appendNumber nodeId x.1) x.2) store := by
  rw [addMappings]
  congr 1
  funext store x
  split
  · next mapping hmapping =>
    rw [if_pos ((ExtTreeMap.mem_iff_exists_getElem? _ _).mpr ⟨mapping, hmapping⟩)]
  · next hnone =>
    rw [if_neg ?_]
    · rfl
    · intro hmem
      obtain ⟨mapping, hmapping⟩ := (ExtTreeMap.mem_iff_exists_getElem? _ _).mp hmem
      exact absurd (hmapping.symm.trans hnone) (by simp)

/-- Other keys than those of the list's numbers keep what they have. -/
theorem getElem?_addMappings_of_ne {nodeId : NodeID} {pairs : List (SeqNo × MappingEntryPair)}
    {key : Name} (h : ∀ x ∈ pairs, Codec.packetFormat.appendNumber nodeId x.1 ≠ key)
    (store : MappingStore) : (addMappings nodeId pairs store)[key]? = store[key]? := by
  have hfind : pairs.find? (fun x => Codec.packetFormat.appendNumber nodeId x.1 = key) = none := by
    rw [List.find?_eq_none]
    intro x hx
    simpa using h x hx
  rw [addMappings_eq, ExtTreeMap.getElem?_foldl_insertNew fun _ => decide_eq_true_iff, hfind,
    Option.map_none, Option.or_none]

/-- After a mapping reply the store has what it had, else the first entry of the reply. -/
theorem getMapping_addMappings (nodeId : NodeID) (pairs : List (SeqNo × MappingEntryPair))
    (store : MappingStore) (p : Publication) :
    (addMappings nodeId pairs store).getMapping p =
      (store.getMapping p).or (if nodeId = p.nodeId then firstEntry pairs p.seqNo else none) := by
  rw [getMapping, addMappings_eq, ← find?_entry]
  exact ExtTreeMap.getElem?_foldl_insertNew (by simp [Codec.appendNumber_inj]) pairs store

/-- After extra data the store has the last entry of the list, else what it had. -/
theorem getMapping_onRecvExtraData (block : Block) (store : MappingStore) (p : Publication) :
    (store.onRecvExtraData .packetFormat block).getMapping p =
      match MappingList.decode .packetFormat block with
      | .ok list =>
        (if list.nodeId = p.nodeId then lastEntry list.pairs p.seqNo else none).or
          (store.getMapping p)
      | .error _ => store.getMapping p := by
  rw [onRecvExtraData]
  cases MappingList.decode .packetFormat block with
  | error e => rfl
  | ok list =>
    dsimp only
    rw [lastEntry, ← find?_entry]
    exact ExtTreeMap.getElem?_foldl_insert (by simp [Codec.appendNumber_inj]) list.pairs store

end MappingStore

end Svs
