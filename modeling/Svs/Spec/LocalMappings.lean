import Svs.ForStd.Run
import Svs.Spec.QueuedOnce

/-!
# The mappings of a node's own publications

A mapping reply leaves the mappings alone that the store has, extra data does not, and
neither looks whose publication it is about.

## Key results

- `getMapping_step`: what a step leaves in the store
- `kept_run_iff`: the runs in which the store keeps what the node inserted
-/

namespace Svs

open Std

namespace PubSub

variable {cfg : PubSubConfig} {s s' : PubSub}

/-! ## The store in a step -/

/-- A mapping reply leaves the mappings alone that there are. -/
theorem getMapping_fetchMapping {p : Publication} {mapping : MappingEntryPair}
    (h : s.mappings.getMapping p = some mapping) (now : UInt64) (event : FetchEvent Data) :
    (s.step cfg (now, .fetchMapping event)).mappings.getMapping p = some mapping := by
  rcases step_fetchMapping_cases cfg now event s with hstep | ⟨info, data, list, -, -, hstep⟩
  · rw [hstep]
    exact h
  · have hframe := (performs_processMappings cfg now info.nodeId list.pairs false
      ((s.afterMappingFetcher cfg event).storeMappings info.nodeId list.pairs)).frame
    have hstored : ((s.afterMappingFetcher cfg event).storeMappings info.nodeId list.pairs).mappings =
        s.mappings.addMappings info.nodeId list.pairs := rfl
    rw [hstep, hframe.mappings, hstored, MappingStore.getMapping_addMappings, h, Option.some_or]

/-- The step is an insertion by the node, or extra data that arrives. -/
def Event.writes : Event → Bool
  | .insertMapping .. => true
  | .onRecvExtraData _ => true
  | _ => false

/-- In every other step the store keeps what it has. -/
theorem getMapping_step {p : Publication} {mapping : MappingEntryPair}
    (h : s.mappings.getMapping p = some mapping) (now : UInt64) {e : Event} (he : e.writes = false) :
    (s.step cfg (now, e)).mappings.getMapping p = some mapping := by
  cases e with
  | subscribe | subscribeToProducer | unsubscribe | onGetExtraData => exact h
  | insertMapping | onRecvExtraData => exact absurd he (by simp [Event.writes])
  | update info =>
    rcases step_update_cases cfg now info s with hstep | ⟨s', hupdate, hstep⟩
    · rw [hstep]
      exact h
    · rw [hstep, (performs_updateCallbackInternal hupdate).frame.mappings, h]
  | fetchMapping event => exact getMapping_fetchMapping h now event
  | fetchData | validationFailed | segmentsComplete | segmentsError | blobAnswer =>
    rwa [(delivers_step rfl).mappings]

/-! ## Runs -/

/-- The mapping that `insertMapping` enters. -/
def insertedMapping (cfg : PubSubConfig) (now : UInt64) (name : Name) (additional : List Block) :
    MappingEntryPair where
  name := name
  blocks := if cfg.opts.useTimestamp then additional ++ [timestampBlock now] else additional

/-- A node, and what it inserted last for each of its publications. -/
structure LocalHistory where
  node : PubSub
  inserted : ExtTreeMap Publication MappingEntryPair := ∅

namespace LocalHistory

/-- One step. -/
def next (cfg : PubSubConfig) (e : UInt64 × Event) (h : LocalHistory) : LocalHistory where
  node := h.node.step cfg e
  inserted :=
    match e.2 with
    | .insertMapping nid seqNo name additional =>
      h.inserted.insert ⟨nid, seqNo⟩ (insertedMapping cfg e.1 name additional)
    | _ => h.inserted

/-- The store has for each publication of the node what the node inserted. -/
def Kept (h : LocalHistory) : Prop :=
  ∀ p mapping, h.inserted[p]? = some mapping → h.node.mappings.getMapping p = some mapping

/-- Extra data arrives whose last entry for a publication of the node is another one. -/
def Overwrites (e : UInt64 × Event) (h : LocalHistory) : Prop :=
  ∃ block list, ∃ p : Publication, ∃ mapping mapping', e.2 = .onRecvExtraData block ∧
    MappingList.decode .packetFormat block = .ok list ∧ h.inserted[p]? = some mapping ∧
    list.nodeId = p.nodeId ∧ MappingList.lastEntry list.pairs p.seqNo = some mapping' ∧
    mapping' ≠ mapping

/-- Only extra data overwrites. -/
theorem Overwrites.eq {e : UInt64 × Event} {h : LocalHistory} (hover : Overwrites e h) :
    ∃ block, e.2 = .onRecvExtraData block := by
  obtain ⟨block, list, p, mapping, mapping', heq, -⟩ := hover
  exact ⟨block, heq⟩

theorem kept_insertMapping {h : LocalHistory} (hkept : h.Kept) (now : UInt64) (nid : NodeID)
    (seqNo : SeqNo) (name : Name) (additional : List Block) :
    (next cfg (now, .insertMapping nid seqNo name additional) h).Kept := by
  intro p mapping hp
  have hnode : (next cfg (now, .insertMapping nid seqNo name additional) h).node.mappings =
      h.node.mappings.insertMapping .packetFormat nid seqNo
        (insertedMapping cfg now name additional) := rfl
  rw [hnode, MappingStore.getMapping_insertMapping]
  simp only [next, ExtTreeMap.getElem?_insert'] at hp
  split at hp
  · next hsame => rwa [if_pos hsame.symm]
  · next hother =>
    rw [if_neg fun heq => hother heq.symm]
    exact hkept p mapping hp

/-- Extra data writes the last entry of its list for each publication. -/
theorem kept_onRecvExtraData_iff {h : LocalHistory} (hkept : h.Kept) (now : UInt64) (block : Block) :
    (next cfg (now, .onRecvExtraData block) h).Kept ↔ ¬Overwrites (now, .onRecvExtraData block) h := by
  have hstore : ∀ p, (next cfg (now, .onRecvExtraData block) h).node.mappings.getMapping p =
      (h.node.mappings.onRecvExtraData .packetFormat block).getMapping p := fun _ => rfl
  simp only [MappingStore.getMapping_onRecvExtraData] at hstore
  constructor
  · rintro hnext ⟨_, list, p, mapping, mapping', heq, hlist, hp, hnode, hlast, hne⟩
    obtain rfl := Event.onRecvExtraData.inj heq
    have hsame := hnext p mapping hp
    rw [hstore, hlist] at hsame
    simp only [hnode, if_true, hlast, Option.some_or, Option.some.injEq] at hsame
    exact hne hsame
  · intro hover p mapping hp
    rw [hstore]
    cases hlist : MappingList.decode .packetFormat block with
    | error e => exact hkept p mapping hp
    | ok list =>
      dsimp only
      split
      · next hnode =>
        cases hlast : MappingList.lastEntry list.pairs p.seqNo with
        | none => exact hkept p mapping hp
        | some mapping' =>
          -- the list repeats what the node inserted
          by_contra hne
          refine hover ⟨block, list, p, mapping, mapping', rfl, hlist, hp, hnode, hlast, ?_⟩
          intro heq
          exact hne (by rw [heq, Option.some_or])
      · -- the list is of another node
        exact hkept p mapping hp

/-- Where the node's mappings are kept, a step loses one just when it overwrites it. -/
theorem kept_next_iff {h : LocalHistory} (hkept : h.Kept) (e : UInt64 × Event) :
    (next cfg e h).Kept ↔ ¬Overwrites e h := by
  obtain ⟨now, event⟩ := e
  cases hwrites : event.writes with
  | false =>
    have hinserted : (next cfg (now, event) h).inserted = h.inserted := by
      cases event <;> first | rfl | exact absurd hwrites (by simp [Event.writes])
    constructor
    · rintro - hover
      obtain ⟨block, heq⟩ := hover.eq
      obtain rfl : event = .onRecvExtraData block := heq
      exact absurd hwrites (by simp [Event.writes])
    · intro _ p mapping hp
      rw [hinserted] at hp
      exact getMapping_step (hkept p mapping hp) now hwrites
  | true =>
    cases event with
    | insertMapping nid seqNo name additional =>
      refine iff_of_true (kept_insertMapping hkept now nid seqNo name additional) ?_
      intro hover
      obtain ⟨block, heq⟩ := hover.eq
      cases heq
    | onRecvExtraData block => exact kept_onRecvExtraData_iff hkept now block
    | _ => exact absurd hwrites (by simp [Event.writes])

/-- In a run the store always has what the node inserted, just when no step overwrites
    it. -/
theorem kept_run_iff (cfg : PubSubConfig) (count : UInt32) (events : List (UInt64 × Event)) :
    Run.Always (next cfg) (fun e h => (next cfg e h).Kept) events ⟨{ subscriptionCount := count }, ∅⟩ ↔
      Run.Always (next cfg) (fun e h => ¬Overwrites e h) events ⟨{ subscriptionCount := count }, ∅⟩ := by
  have hinit : Kept ⟨{ subscriptionCount := count }, ∅⟩ := by
    intro p mapping hp
    simp at hp
  constructor
  · intro hkept
    exact hkept.imp hinit (fun _ _ _ h => h) fun e _ hI h => (kept_next_iff hI e).mp h
  · intro hover
    exact hover.imp hinit (fun e _ hI h => (kept_next_iff hI e).mpr h)
      fun e _ hI h => (kept_next_iff hI e).mpr h

/-- Extra data that maps the first publication of `/a` to `/c`. -/
def foreignMapping : MappingList := ⟨.ofBytes [[97]], [(1, ⟨.ofBytes [[99]], []⟩)]⟩

/-- The mapping of a publication to `/b` is overwritten. -/
theorem not_kept_run : ¬∀ cfg count events,
    Run.Always (next cfg) (fun e h => (next cfg e h).Kept) events
      ⟨{ subscriptionCount := count }, ∅⟩ := by
  intro h
  have hruns := h ⟨{}, {}, fun _ => none⟩ 0 [(5, .insertMapping (.ofBytes [[97]]) 1 (.ofBytes [[98]]) []),
    (6, .onRecvExtraData foreignMapping.listBlock)]
  have hkept := hruns.2.1 ⟨.ofBytes [[97]], 1⟩ ⟨.ofBytes [[98]], [timestampBlock 5]⟩ (by decide)
  exact absurd hkept (by decide)

end LocalHistory

end PubSub

end Svs
