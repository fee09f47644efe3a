import Svs.Native.PubSubPublish
import Svs.Spec.PublishRuns
import Svs.Spec.StoredMappings

/-!
# The two ways to publish

Both take the next sequence number of the node and tell the core of it.  Only the segmented
way hands the caller's blocks on to the mapping.

## Key results

- `publish_core`: both ways take the same sequence number
- `registers_iff`: when the mapping has the caller's blocks
-/

namespace Svs.Publisher

open Std

variable (cfg : PublisherConfig) (m : Moment) (now : UInt64) (name : Name) (value : List UInt8)
  (nodePrefix : Name) (mappingBlocks : List Block) (s : Publisher)

/-- The loop over the segments fills the data store. -/
theorem foldl_insertDataSegment (content : Nat → List UInt8) (nid : NodeID) (seqNo : SeqNo)
    (finalBlock : Component) (l : List Nat) :
    ∃ stored, l.foldl (fun s i => insertDataSegment cfg (content i) nid seqNo i finalBlock tlv.Data s) s =
      { s with dataStore := s.dataStore ++ stored } := by
  induction l generalizing s with
  | nil => exact ⟨[], by simp⟩
  | cons i l ih =>
    obtain ⟨packet, hpacket⟩ : ∃ packet,
        insertDataSegment cfg (content i) nid seqNo i finalBlock tlv.Data s =
          { s with dataStore := s.dataStore ++ [packet] } := ⟨_, rfl⟩
    obtain ⟨stored, hstored⟩ := ih { s with dataStore := s.dataStore ++ [packet] }
    refine ⟨packet :: stored, ?_⟩
    rw [List.foldl_cons, hpacket, hstored, List.append_assoc, List.singleton_append]

/-- A value that does not fit into a packet. -/
theorem publish_of_large (h : MAX_DATA_SIZE < value.length) :
    ∃ stored, publish cfg m now name value nodePrefix mappingBlocks s =
      (Core.nextSeqNo cfg.core nodePrefix s.core,
        { core := (Core.publishData cfg.core m nodePrefix s.core).1
          pubSub := s.pubSub.insertMapping cfg.pubSub now (Core.targetNode cfg.core nodePrefix)
            (Core.nextSeqNo cfg.core nodePrefix s.core) name mappingBlocks
          dataStore := s.dataStore ++ stored
          put := s.put }) := by
  obtain ⟨stored, hstored⟩ := foldl_insertDataSegment cfg s
    (fun i => cfg.wireEncode (segment name value
      ⟨50, Codec.integerBytes (.ofNat (value.length / MAX_DATA_SIZE + 1 - 1))⟩ i))
    (Core.targetNode cfg.core nodePrefix) (Core.nextSeqNo cfg.core nodePrefix s.core)
    ⟨50, Codec.integerBytes (.ofNat (value.length / MAX_DATA_SIZE + 1 - 1))⟩
    (List.range (value.length / MAX_DATA_SIZE + 1))
  refine ⟨stored, ?_⟩
  rw [publish, if_pos h]
  exact congrArg (fun s' : Publisher => (Core.nextSeqNo cfg.core nodePrefix s.core,
    { s' with
      pubSub := s'.pubSub.insertMapping cfg.pubSub now (Core.targetNode cfg.core nodePrefix)
        (Core.nextSeqNo cfg.core nodePrefix s.core) name mappingBlocks
      core := Core.updateSeqNo cfg.core m (Core.nextSeqNo cfg.core nodePrefix s.core)
        (Core.targetNode cfg.core nodePrefix) s'.core })) hstored

/-- A packet is stored, and given to the face. -/
theorem publishPacket_eq (data : Data) :
    ∃ packet, publishPacket cfg m now data nodePrefix mappingBlocks s =
      (Core.nextSeqNo cfg.core nodePrefix s.core,
        { core := (Core.publishData cfg.core m nodePrefix s.core).1
          pubSub := s.pubSub.insertMapping cfg.pubSub now (Core.targetNode cfg.core nodePrefix)
            (Core.nextSeqNo cfg.core nodePrefix s.core) data.name mappingBlocks
          dataStore := s.dataStore ++ [packet]
          put := s.put ++ [packet] }) := by
  have hsame : Core.publishData cfg.core m (Core.targetNode cfg.core nodePrefix) s.core =
      Core.publishData cfg.core m nodePrefix s.core := by
    simp only [Core.publishData, Core.nextSeqNo, Publishers.targetNode_targetNode]
  rw [publishPacket]
  simp only [publishData, hsame]
  exact ⟨_, rfl⟩

/-- What publishing does to the core, and the number it returns, does not depend on the
    value. -/
theorem publish_core :
    (publish cfg m now name value nodePrefix mappingBlocks s).2.core =
        (Core.publishData cfg.core m nodePrefix s.core).1 ∧
      (publish cfg m now name value nodePrefix mappingBlocks s).1 =
        Core.nextSeqNo cfg.core nodePrefix s.core := by
  by_cases hlarge : MAX_DATA_SIZE < value.length
  · obtain ⟨stored, heq⟩ := publish_of_large cfg m now name value nodePrefix mappingBlocks s hlarge
    rw [heq]
    exact ⟨rfl, rfl⟩
  · obtain ⟨packet, heq⟩ := publishPacket_eq cfg m now nodePrefix [] s { name := name, content := value }
    rw [publish, if_neg hlarge, heq]
    exact ⟨rfl, rfl⟩

/-- The mapping that a publication is to have. -/
def mappingOf : MappingEntryPair where
  name := name
  blocks :=
    if cfg.pubSub.opts.useTimestamp then mappingBlocks ++ [PubSub.timestampBlock now] else mappingBlocks

theorem mappingOf_inj {blocks blocks' : List Block} :
    mappingOf cfg now name blocks = mappingOf cfg now name blocks' ↔ blocks = blocks' := by
  simp only [mappingOf, MappingEntryPair.mk.injEq, true_and]
  split <;> simp

/-- After a call of `publish` the store has the publication under its name, with the
    caller's blocks and the time stamp. -/
def Registers : Prop :=
  (publish cfg m now name value nodePrefix mappingBlocks s).2.pubSub.mappings.getMapping
      ⟨Core.targetNode cfg.core nodePrefix,
        (publish cfg m now name value nodePrefix mappingBlocks s).1⟩ =
    some (mappingOf cfg now name mappingBlocks)

/-- What `insertMapping` leaves in the store for the publication. -/
theorem getMapping_insertMapping (nid : NodeID) (seqNo : SeqNo) (pubSub : PubSub) :
    (pubSub.insertMapping cfg.pubSub now nid seqNo name mappingBlocks).mappings.getMapping ⟨nid, seqNo⟩ =
      some (mappingOf cfg now name mappingBlocks) := by
  have hstore : (pubSub.insertMapping cfg.pubSub now nid seqNo name mappingBlocks).mappings =
      pubSub.mappings.insertMapping .packetFormat nid seqNo (mappingOf cfg now name mappingBlocks) := rfl
  rw [hstore, MappingStore.getMapping_insertMapping, if_pos rfl]

/-- The caller's blocks are registered just when there are none, or the value is
    segmented. -/
theorem registers_iff : Registers cfg m now name value nodePrefix mappingBlocks s ↔
    MAX_DATA_SIZE < value.length ∨ mappingBlocks = [] := by
  rw [Registers]
  by_cases hlarge : MAX_DATA_SIZE < value.length
  · obtain ⟨stored, heq⟩ := publish_of_large cfg m now name value nodePrefix mappingBlocks s hlarge
    rw [heq]
    exact iff_of_true (getMapping_insertMapping cfg now name mappingBlocks _ _ _) (.inl hlarge)
  · obtain ⟨packet, heq⟩ := publishPacket_eq cfg m now nodePrefix [] s { name := name, content := value }
    -- the mapping is made without the blocks
    have hmapping := getMapping_insertMapping cfg now name [] (Core.targetNode cfg.core nodePrefix)
      (Core.nextSeqNo cfg.core nodePrefix s.core) s.pubSub
    rw [publish, if_neg hlarge, heq, hmapping, Option.some.injEq, mappingOf_inj, or_iff_right hlarge]
    exact eq_comm

/-- A block of type 200 goes missing. -/
theorem not_registers :
    ¬∀ cfg m now name value nodePrefix mappingBlocks s,
      Registers cfg m now name value nodePrefix mappingBlocks s := by
  intro h
  have hregisters := h ⟨{}, ⟨{}, {}, fun _ => none⟩, .ofBytes [[103]], fun _ => []⟩ (.atMs 1) 0
    (.ofBytes [[98]]) [42] (.ofBytes [[97]]) [⟨200, []⟩]
    ⟨Core.init {} 0, { subscriptionCount := 0 }, [], []⟩
  rw [Registers] at hregisters
  exact absurd hregisters (by decide)

end Svs.Publisher
