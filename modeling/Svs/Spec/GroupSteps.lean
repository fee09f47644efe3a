import Svs.Spec.GroupHistory
import Svs.Spec.SyncInterestCodec

/-!
# What the core does to the node around it

The core sends Sync Interests and reports missing data.  The node adds its mappings to the
former and looks at the latter.

## Key results

- `Publisher.fire_cases`: a timer sends one Sync Interest at most
- `Publisher.receive_cases`: a Sync Interest that arrives is reported at most once
-/

namespace Svs

open VersionVector

namespace Core

variable (P : Platform) (cfg : Config) (m : Moment) (c : Core)

/-- What is reported is behind the vector that arrives. -/
theorem effects_receive (vvOther : VersionVector) (face : UInt64) :
    (processVector P cfg m vvOther face c).2 = [] ∨
      ∃ info, (processVector P cfg m vvOther face c).2 = [.onUpdate info] ∧
        (∀ stream ∈ info, vvOther.has stream.nodeId = true) ∧
        ∀ p : Publication, info.countP (·.Covers p) ≤
          if c.vv.get p.nodeId < p.seqNo ∧ p.seqNo ≤ vvOther.get p.nodeId then 1 else 0 := by
  have hreceive := effects_processVector P cfg m vvOther face (c := c)
  rw [receiveEffects] at hreceive
  split at hreceive
  · exact Or.inl hreceive
  · refine Or.inr ⟨_, hreceive, ?_, ?_⟩
    · intro stream hstream
      obtain ⟨info, hinfo, rfl⟩ := List.mem_map.mp hstream
      rw [receiveResult, missingInfo_mergeStateVector] at hinfo
      obtain ⟨e, he, rfl⟩ := List.mem_map.mp hinfo
      rw [has_iff]
      exact ⟨e.2, (mem_entries vvOther e.1 e.2).mp (List.mem_filter.mp he).1⟩
    · intro p
      -- among the ranges there is one at most of the publication's node
      have hranges : (processVector P cfg m vvOther face c).2.flatMap (effectRanges p.nodeId) =
          if c.vv.get p.nodeId < vvOther.get p.nodeId then [(c.vv.get p.nodeId + 1, vvOther.get p.nodeId)]
          else [] := effectRanges_processVector m vvOther face p.nodeId
      rw [hreceive, List.flatMap_singleton, effectRanges] at hranges
      have hcovers : ∀ info : List MissingDataInfo, info.countP (·.Covers p) =
          ((info.filter (·.nodeId = p.nodeId)).map fun i => (i.low, i.high)).countP
            fun r => r.1 ≤ p.seqNo ∧ p.seqNo ≤ r.2 := by
        intro info
        rw [List.countP_map, List.countP_filter]
        apply List.countP_congr
        intro i _
        simp [MissingDataInfo.Covers, and_comm]
      rw [hcovers, hranges]
      split
      · next hlt =>
        rw [List.countP_singleton]
        split
        · next hin =>
          have hin := of_decide_eq_true hin
          have hlow : c.vv.get p.nodeId < p.seqNo := by
            have hle := UInt64.le_iff_toNat_le.mp hin.1
            have hlt := UInt64.lt_iff_toNat_lt.mp hlt
            have hmax := (vvOther.get p.nodeId).toNat_lt
            rw [UInt64.toNat_add, UInt64.toNat_one, Nat.mod_eq_of_lt (by omega)] at hle
            exact UInt64.lt_iff_toNat_lt.mpr hle
          rw [if_pos ⟨hlow, hin.2⟩]
        · exact Nat.zero_le _
      · exact Nat.zero_le _

end Core

namespace Publisher

open MappingList (listBlock)

variable (P : Platform) (cfg : PublisherConfig) (m : Moment) (now : UInt64) (s : Publisher)

/-- A timer sends one Sync Interest at most, with the mappings of the node's list. -/
theorem fire_cases {e : Event} (he : e = .start ∨ e = .retx) :
    ((Core.step P cfg.core m e s.core).2 = [] ∧
      s.fire P cfg m now e = ({ s with core := (Core.step P cfg.core m e s.core).1 }, [])) ∨
    ∃ vv, (Core.step P cfg.core m e s.core).2 = [.expressInterest vv] ∧
      (∀ nid, vv.has nid = true → (Core.step P cfg.core m e s.core).1.vv.has nid = true) ∧
      s.fire P cfg m now e =
        ({ s with
            core := (Core.step P cfg.core m e s.core).1
            pubSub := s.pubSub.step cfg.pubSub (now, .onGetExtraData) },
          [applicationParameters vv s.pubSub.notificationMappingList.encode]) := by
  rcases Core.effects_fire P cfg.core m s.core he with hnone | ⟨vv, hsent, hhas⟩
  · refine Or.inl ⟨hnone, ?_⟩
    simp only [fire, hnone, perform]
  · refine Or.inr ⟨vv, hsent, hhas, ?_⟩
    simp only [fire, hsent, perform]
    rfl

/-- A Sync Interest that arrives brings its mappings, and is reported at most once. -/
theorem receive_cases {vv : VersionVector} {list : MappingList} (hvv : vv.Encodable) (hlist : list.Encodable)
    (face : Option UInt64) :
    ∃ pubSub, s.onSyncInterestValidated P cfg m now ⟨some (applicationParameters vv list.encode), face⟩ =
        ({ s with
            core := (Core.processVector P cfg.core m vv.wire (face.getD 0) s.core).1
            pubSub := pubSub }, []) ∧
      (pubSub = s.pubSub.step cfg.pubSub (now, .onRecvExtraData (listBlock list)) ∨
        ∃ info, pubSub = (s.pubSub.step cfg.pubSub (now, .onRecvExtraData (listBlock list))).step cfg.pubSub
            (now, .update info) ∧
          (∀ stream ∈ info, vv.has stream.nodeId = true) ∧
          ∀ p : Publication, info.countP (·.Covers p) ≤
            if s.core.vv.get p.nodeId < p.seqNo ∧ p.seqNo ≤ vv.get p.nodeId then 1 else 0) := by
  have hreceives := (Receiver.receives P cfg.core m hvv hlist face ⟨s.core, s.pubSub.mappings⟩).1
  rw [onSyncInterestValidated, hreceives]
  rcases Core.effects_receive P cfg.core m s.core vv.wire (face.getD 0) with
    hnone | ⟨info, hreported, hhas, hcount⟩
  · simp only [hnone, perform]
    exact ⟨_, rfl, Or.inl rfl⟩
  · simp only [hreported, perform]
    exact ⟨_, rfl, Or.inr ⟨info, rfl, hhas, hcount⟩⟩

end Publisher

end Svs
