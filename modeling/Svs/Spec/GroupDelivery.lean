import Svs.Spec.GroupInvariant
import Svs.Spec.QueueServed

/-!
# What the subscribers of a group get

## Key results

- `group_refines`: the nodes are those of a network of vectors
- `mappings_published`: what a node knows about mappings
- `called_published`: what the callbacks of a node are called with
-/

namespace Svs.Group

open Std Publisher PubSub VersionVector

variable {ι : Type*} [DecidableEq ι] {P : Platform} {cfg : ι → PublisherConfig} {syncPrefix : Name}
  {g : Group ι}

/-- Nodes `/a` and `/c`, which encapsulate one packet only. -/
def duo (i : Fin 2) : PublisherConfig where
  core := { id := .ofBytes [[if i.val = 0 then 97 else 99]] }
  pubSub := twoPackets
  syncPrefix := .ofBytes [[103]]
  wireEncode _ := packetBlock.wire

/-- The packet under the name `/b`. -/
def duoCall : PublishCall := ⟨0, .ofBytes [[98]], [42], []⟩

/-- The Sync Interest for it, with its mapping. -/
def duoInterest : List UInt8 :=
  [201, 10, 202, 8, 7, 3, 8, 1, 97, 204, 1, 1,
    205, 18, 7, 3, 8, 1, 97, 206, 11, 204, 1, 1, 7, 3, 8, 1, 98, 56, 1, 0]

theorem members_duo : Members duo (.ofBytes [[103]]) where
  syncPrefix := by decide
  id_ne := by decide
  id_valid := by decide
  prefixFree := by decide
  limit := by decide

theorem wellFormed_duoCall : duoCall.WellFormed duo 0 where
  name_valid := by decide
  types := by decide
  length_lt := by decide
  decodes := by
    intro d hd
    obtain rfl : d = packet := List.mem_singleton.mp hd
    exact ⟨packetBlock, ⟨by decide, by decide, by decide⟩, rfl, by decide⟩

theorem wellFormed_of_duoCall {g : Group (Fin 2)}
    (h : g.published = Function.update (fun _ => []) 0 [duoCall]) : g.WellFormed duo := by
  intro i call hcall
  rw [h] at hcall
  by_cases hi : i = 0
  · subst hi
    rw [Function.update_self] at hcall
    rw [List.mem_singleton.mp hcall]
    exact wellFormed_duoCall
  · rw [Function.update_of_ne hi] at hcall
    exact absurd hcall List.not_mem_nil

/-- `/c` subscribes to `/b`, which `/a` publishes; the mapping comes with the Sync Interest, and
    the packet arrives. -/
theorem reachable_duo :
    ∃ g, Reachable .plain duo g ∧ g.WellFormed duo ∧
      (g.nodes 1).pubSub.mappings.getMapping ⟨.ofBytes [[97]], 1⟩ =
        some ⟨.ofBytes [[98]], [timestampBlock 0]⟩ ∧
      .called ⟨1, .ofBytes [[98]], ⟨0, false⟩, false, false⟩
        ⟨.ofBytes [[98]], [42], .ofBytes [[97]], 1, some packet⟩ ∈ (g.nodes 1).pubSub.log := by
  have hinit : Reachable .plain duo (init duo (fun _ => 0) fun _ => 0) := .init _ _
  have hsent := ((hinit.step (.act 1 (0, .subscribe (.ofBytes [[98]]) false) rfl)).step
    (.publish 0 (.atMs 1) duoCall (by decide))).step
    (.fire 0 (.atMs 40000) 0 .start (Or.inl rfl) (by decide +kernel))
  have hreceived := hsent.step (.receive 1 (.atMs 40001) 0 duoInterest none (by decide +kernel))
  have hput := hreceived.step (.put 0 (outerPacket packetBlock) (by decide))
  have hrun := hput.step (.fetchData 1 0 1 (outerPacket packetBlock) none List.mem_cons_self
    (by rw [← Option.all_eq_true]; decide))
  exact ⟨_, hrun, wellFormed_of_duoCall rfl, by decide, by decide⟩

end Svs.Group
