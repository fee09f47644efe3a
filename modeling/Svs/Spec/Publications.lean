import Svs.Spec.Atlas
import Svs.Spec.Members
import Svs.Spec.NetworkAgreement
import Svs.Spec.Segmentation

/-!
# The publications of a group

What a call of `publish` puts into the data store and into the mappings, and which call a
publication is.

## Key results

- `PublishCall.perform_eq`: what a call does to its node
- `PublishCall.WellFormed.outer`: a stored packet encapsulates one of the publication
- `PublishCall.WellFormed.reassembled`: the stored segments hold all packets
-/

namespace Svs

open Publisher

/-! ## Calls of `publish` -/

namespace PublishCall

variable (call : PublishCall)

/-- The value does not fit into a packet. -/
def IsLarge : Prop := MAX_DATA_SIZE < call.value.length

instance : Decidable call.IsLarge := inferInstanceAs (Decidable (_ < _))

/-- The packets that the call encapsulates. -/
def packets : List Data :=
  if call.IsLarge then segments call.name call.value else [{ name := call.name, content := call.value }]

/-- The mapping that the call enters; the value of a small publication is published without
    the caller's blocks. -/
def mapping (cfg : PublisherConfig) : MappingEntryPair :=
  PubSub.insertedMapping cfg.pubSub call.now call.name (if call.IsLarge then call.mappingBlocks else [])

/-- The packets that go into the data store. -/
def outers (cfg : PublisherConfig) (p : Publication) : List Data :=
  if call.IsLarge then (segments call.name call.value).mapIdx (outer cfg p.nodeId p.seqNo)
  else
    [{ name := PubSub.getDataName cfg.syncPrefix p
       contentType := tlv.Data, content := cfg.wireEncode { name := call.name, content := call.value } }]

theorem packets_of_large (h : call.IsLarge) : call.packets = segments call.name call.value := if_pos h

theorem packets_of_small (h : ¬call.IsLarge) :
    call.packets = [{ name := call.name, content := call.value }] := if_neg h

theorem finalBlock_of_large (h : call.IsLarge) {d : Data} (hd : d ∈ call.packets) :
    d.finalBlock = some (segmentComponent (call.value.length / MAX_DATA_SIZE)) := by
  rw [packets_of_large call h] at hd
  exact finalBlock_segments call.name call.value d hd

/-- Only segments have a FinalBlockId. -/
theorem isLarge_iff {d : Data} (hd : d ∈ call.packets) : call.IsLarge ↔ d.finalBlock ≠ none := by
  by_cases h : call.IsLarge
  · rw [call.finalBlock_of_large h hd]
    simp [h]
  · rw [packets_of_small call h, List.mem_singleton] at hd
    simp [h, hd]

/-- What the call publishes. -/
def parcel : Parcel where
  name := call.name
  value := call.value
  packets := call.packets
  nonempty := by
    by_cases h : call.IsLarge
    · rw [packets_of_large call h, ← List.length_pos_iff, length_segments]
      exact Nat.succ_pos _
    · rw [packets_of_small call h]
      exact List.cons_ne_nil _ _
  contents := by
    by_cases h : call.IsLarge
    · rw [packets_of_large call h]
      exact contents_segments call.name call.value
    · rw [packets_of_small call h]
      exact List.flatMap_singleton ..
  whole d hd hfinal := by
    by_cases h : call.IsLarge
    · rw [call.finalBlock_of_large h hd] at hfinal
      cases hfinal
    · rw [packets_of_small call h, List.mem_singleton] at hd
      rw [packets_of_small call h, hd]
      exact ⟨rfl, rfl⟩
  segment d hd hfinal := by
    have h := (call.isLarge_iff hd).mpr hfinal
    rw [packets_of_large call h] at hd
    obtain ⟨i, -, rfl⟩ := List.mem_map.mp hd
    exact Name.getPrefix_append call.name.components _ rfl

/-- What a call does to its node. -/
theorem perform_eq (cfg : PublisherConfig) (m : Moment) (s : Publisher) :
    ∃ put, call.perform cfg m s =
      { core := (Core.publishData cfg.core m cfg.core.id s.core).1
        pubSub := s.pubSub.step cfg.pubSub (call.now,
          .insertMapping cfg.core.id (Core.nextSeqNo cfg.core cfg.core.id s.core) call.name
            (if call.IsLarge then call.mappingBlocks else []))
        dataStore := s.dataStore ++
          call.outers cfg ⟨cfg.core.id, Core.nextSeqNo cfg.core cfg.core.id s.core⟩
        put := put } := by
  have htarget : Core.targetNode cfg.core EMPTY_NODE_ID = Core.targetNode cfg.core cfg.core.id := by
    rw [Core.targetNode_self]
    rfl
  have hid := Core.targetNode_self cfg.core
  by_cases h : call.IsLarge
  · obtain ⟨stored, heq⟩ := publish_of_large cfg m call.now call.name call.value EMPTY_NODE_ID
      call.mappingBlocks s h
    obtain ⟨-, hstore⟩ := dataStore_publish cfg m call.now call.name call.value EMPTY_NODE_ID
      call.mappingBlocks s h
    rw [heq] at hstore
    have hstore : s.dataStore ++ stored = _ := hstore
    obtain rfl := List.append_cancel_left hstore
    rw [perform, heq, outers, if_pos h, if_pos h]
    simp only [Core.publishData, Core.nextSeqNo, htarget, hid]
    exact ⟨_, rfl⟩
  · have hsmall : ¬MAX_DATA_SIZE < call.value.length := h
    rw [perform, publish, if_neg hsmall, outers, if_neg h, if_neg h, publishPacket]
    simp only [publishData, Core.publishData, Core.nextSeqNo, htarget, hid]
    exact ⟨_, rfl⟩

/-! ## The stored packets -/

variable {call} {cfg : PublisherConfig} {p : Publication} {d : Data}

/-- A stored packet is one for each packet that the call encapsulates. -/
theorem getElem?_outers {i : ℕ} (h : (call.outers cfg p)[i]? = some d) :
    ∃ inner, call.packets[i]? = some inner ∧ d.contentType = tlv.Data ∧
      d.content = cfg.wireEncode inner ∧ d.finalBlock = inner.finalBlock ∧
        d.name = if call.IsLarge then PubSub.getSegmentName cfg.syncPrefix p (.ofNat i)
          else PubSub.getDataName cfg.syncPrefix p := by
  by_cases hlarge : call.IsLarge
  · rw [outers, if_pos hlarge, List.getElem?_mapIdx] at h
    obtain ⟨inner, hinner, rfl⟩ := Option.map_eq_some_iff.mp h
    rw [packets_of_large call hlarge, if_pos hlarge]
    exact ⟨inner, hinner, rfl, rfl, rfl, rfl⟩
  · rw [outers, if_neg hlarge] at h
    rw [packets_of_small call hlarge, if_neg hlarge]
    rw [List.getElem?_singleton] at h
    split at h
    · next hi =>
      subst hi
      obtain rfl := Option.some.inj h
      exact ⟨_, rfl, rfl, rfl, rfl, rfl⟩
    · cases h

/-- All are under the data name. -/
theorem dataName_prefix (h : d ∈ call.outers cfg p) :
    (PubSub.getDataName cfg.syncPrefix p).components <+: d.name.components := by
  obtain ⟨i, hi⟩ := List.mem_iff_getElem?.mp h
  obtain ⟨inner, -, -, -, -, hname⟩ := getElem?_outers hi
  rw [hname]
  split
  · exact List.prefix_append _ _
  · exact List.prefix_refl _

theorem length_outers : (call.outers cfg p).length = call.packets.length := by
  by_cases hlarge : call.IsLarge
  · rw [outers, if_pos hlarge, packets_of_large call hlarge, List.length_mapIdx]
  · rw [outers, if_neg hlarge, packets_of_small call hlarge]
    rfl

theorem length_packets : call.packets.length =
    if call.IsLarge then call.value.length / MAX_DATA_SIZE + 1 else 1 := by
  by_cases hlarge : call.IsLarge
  · rw [packets_of_large call hlarge, length_segments, if_pos hlarge]
  · rw [packets_of_small call hlarge, if_neg hlarge]
    rfl

variable {ι : Type*} {cfg : ι → PublisherConfig} {i : ι}

/-- The name and the blocks are those of ndn-cxx types, the value fits into memory, and every
    node decodes what the caller encodes. -/
structure WellFormed (cfg : ι → PublisherConfig) (i : ι) (call : PublishCall) : Prop where
  name_valid : call.name.Valid
  types : ∀ b ∈ call.mappingBlocks, 0 < b.type ∧ b.type < 2 ^ 32
  length_lt : call.value.length < 2 ^ 64
  decodes : ∀ d ∈ call.packets, ∃ block : Block, block.Valid ∧ (cfg i).wireEncode d = block.wire ∧
    ∀ j, (cfg j).pubSub.decodeData block = some d

/-- A block that is all of a content. -/
theorem blockFromValue_wire {block : Block} (h : block.Valid) : blockFromValue block.wire = some block := by
  have hread := Codec.readBlock_wire h []
  rw [List.append_nil] at hread
  rw [blockFromValue, hread]

/-- A stored packet encapsulates one of the publication. -/
theorem WellFormed.outer (h : call.WellFormed cfg i) {O : PubSub.Origin}
    (hname : O.dataName p = PubSub.getDataName (cfg i).syncPrefix p) (hd : d ∈ call.outers (cfg i) p) (j : ι) :
    ∃ inner, O.Outer (cfg j).pubSub p call.parcel d inner := by
  obtain ⟨k, hk⟩ := List.mem_iff_getElem?.mp hd
  obtain ⟨inner, hinner, htype, hcontent, hfinal, hdname⟩ := getElem?_outers hk
  have hmem := List.mem_of_getElem? hinner
  obtain ⟨block, hvalid, hwire, hdecode⟩ := h.decodes inner hmem
  refine ⟨inner, hmem, ⟨htype, ?_⟩, ?_⟩
  · rw [hcontent, hwire, blockFromValue_wire hvalid]
    exact hdecode j
  · intro hsegment
    rw [if_pos ((call.isLarge_iff hmem).mpr hsegment)] at hdname
    rw [hdname, hname]
    constructor
    · exact Name.getPrefix_append _ _ rfl
    · rw [PubSub.getSegmentName, List.length_append, Members.components_getDataName, List.length_append]
      simp only [List.length_cons, List.length_nil]
      omega

/-- Segments that are numbered from 0 to the last one are all. -/
theorem WellFormed.segments_eq (h : call.WellFormed cfg i) {segments : List Data}
    (hlength : segments.length < 2 ^ 64) {version : Component}
    (hsegments : ∀ (k : ℕ) d, segments[k]? = some d → d ∈ call.outers (cfg i) p ∧
      d.name = ⟨(PubSub.getDataName (cfg i).syncPrefix p).components ++
        [version, ⟨50, Codec.integerBytes (.ofNat k)⟩]⟩)
    (hfinal : ∃ d ∈ segments, d.finalBlock = some ⟨50, Codec.integerBytes (.ofNat (segments.length - 1))⟩) :
    segments = call.outers (cfg i) p := by
  have hvalue : call.value.length / MAX_DATA_SIZE + 1 < 2 ^ 64 := by
    have hlt := h.length_lt
    rw [MAX_DATA_SIZE]
    omega
  have hpackets := call.length_packets
  -- a packet that is not a segment has a shorter name
  have hlarge : ∀ (k : ℕ) d, segments[k]? = some d → call.IsLarge := by
    intro k d hk
    by_contra hsmall
    obtain ⟨hd, hname⟩ := hsegments k d hk
    obtain ⟨k', hk'⟩ := List.mem_iff_getElem?.mp hd
    obtain ⟨-, -, -, -, -, hdname⟩ := getElem?_outers hk'
    rw [if_neg hsmall] at hdname
    have hlength := congrArg (fun n : Name => n.components.length) (hdname.symm.trans hname)
    simp at hlength
  have hnumber : ∀ (k : ℕ) d, segments[k]? = some d → (call.outers (cfg i) p)[k]? = some d := by
    intro k d hk
    obtain ⟨hd, hname⟩ := hsegments k d hk
    obtain ⟨k', hk'⟩ := List.mem_iff_getElem?.mp hd
    obtain ⟨-, -, -, -, -, hdname⟩ := getElem?_outers hk'
    rw [if_pos (hlarge k d hk)] at hdname
    rw [if_pos (hlarge k d hk)] at hpackets
    have hcomponents := List.append_cancel_left (congrArg Name.components (hdname.symm.trans hname))
    obtain ⟨-, hcomponents⟩ := List.cons_eq_cons.mp hcomponents
    have hnumber := Codec.integerBytes_inj.mp (Component.mk.inj (List.singleton_inj.mp hcomponents)).2
    have hk'lt := (List.getElem?_eq_some_iff.mp hk').1
    have hklt := (List.getElem?_eq_some_iff.mp hk).1
    rw [length_outers] at hk'lt
    have heq : k' = k := by
      have htoNat := congrArg UInt64.toNat hnumber
      rw [UInt64.toNat_ofNat', UInt64.toNat_ofNat', Nat.mod_eq_of_lt (by omega),
        Nat.mod_eq_of_lt (by omega)] at htoNat
      exact htoNat
    rwa [heq] at hk'
  -- the FinalBlockId says how many there are
  have hcount : segments.length = (call.outers (cfg i) p).length := by
    obtain ⟨d, hd, hdfinal⟩ := hfinal
    obtain ⟨k, hk⟩ := List.mem_iff_getElem?.mp hd
    have hl := hlarge k d hk
    obtain ⟨inner, hinner, -, -, hfinal', -⟩ := getElem?_outers (hnumber k d hk)
    rw [call.finalBlock_of_large hl (List.mem_of_getElem? hinner), hdfinal] at hfinal'
    have hnumber := Codec.integerBytes_inj.mp (Component.mk.inj (Option.some.inj hfinal')).2
    have htoNat := congrArg UInt64.toNat hnumber
    rw [UInt64.toNat_ofNat', UInt64.toNat_ofNat', Nat.mod_eq_of_lt (by omega),
      Nat.mod_eq_of_lt (by omega)] at htoNat
    rw [length_outers, hpackets, if_pos hl]
    have hpos := List.length_pos_of_mem hd
    omega
  apply List.ext_getElem?
  intro k
  by_cases hk : k < segments.length
  · rw [List.getElem?_eq_getElem hk]
    exact (hnumber k _ (List.getElem?_eq_getElem hk)).symm
  · rw [List.getElem?_eq_none (by omega), List.getElem?_eq_none (by omega)]

/-- All stored segments are read back as the packets. -/
theorem WellFormed.reassembled (h : call.WellFormed cfg i) (p : Publication) (j : ι) :
    ∃ elements, Codec.packetFormat.elements ((call.outers (cfg i) p).flatMap (·.content)) = some elements ∧
      elements.mapM (cfg j).pubSub.decodeData = some call.packets := by
  -- the packets are stored one by one
  have hcontents : (call.outers (cfg i) p).map (·.content) = call.packets.map (cfg i).wireEncode := by
    apply List.ext_getElem?
    intro k
    rw [List.getElem?_map, List.getElem?_map]
    cases hk : (call.outers (cfg i) p)[k]? with
    | some d =>
      obtain ⟨inner, hinner, -, hcontent, -, -⟩ := getElem?_outers hk
      rw [hinner, Option.map_some, Option.map_some, hcontent]
    | none =>
      rw [List.getElem?_eq_none_iff, length_outers, ← List.getElem?_eq_none_iff] at hk
      rw [hk]
      rfl
  have hblocks : ∀ packets : List Data, (∀ d ∈ packets, d ∈ call.packets) →
      ∃ blocks : List Block, (∀ b ∈ blocks, b.Valid) ∧
        packets.map (cfg i).wireEncode = blocks.map Block.wire ∧
          blocks.mapM (cfg j).pubSub.decodeData = some packets := by
    intro packets
    induction packets with
    | nil => exact fun _ => ⟨[], fun b hb => absurd hb List.not_mem_nil, rfl, rfl⟩
    | cons d packets ih =>
      intro hmem
      obtain ⟨blocks, hvalid, hwires, hdecodes⟩ := ih fun d hd => hmem d (List.mem_cons_of_mem _ hd)
      obtain ⟨block, hblock, hwire, hdecode⟩ := h.decodes d (hmem d List.mem_cons_self)
      refine ⟨block :: blocks, ?_, ?_, ?_⟩
      · intro b hb
        rcases List.mem_cons.mp hb with rfl | hb
        · exact hblock
        · exact hvalid b hb
      · rw [List.map_cons, List.map_cons, hwire, hwires]
      · rw [List.mapM_cons, hdecode j, hdecodes]
        rfl
  obtain ⟨blocks, hvalid, hwires, hdecodes⟩ := hblocks call.packets fun _ hd => hd
  refine ⟨blocks, ?_, hdecodes⟩
  rw [List.flatMap_def, hcontents, hwires, ← List.flatMap_def]
  exact Codec.elements_wires hvalid

end PublishCall

end Svs
