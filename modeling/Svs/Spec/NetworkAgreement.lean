import Svs.Native.Network
import Svs.Spec.ExactlyOnce
import Svs.Spec.BuildCorrect

/-!
# No phantom sequence numbers, and agreement

A group of nodes refines the gossip of `ForStd/Gossip`: forget update times, timers
and suppression, and read each vector as a function to `ℕ`.  What the abstract
transition system guarantees then holds of the nodes.

## Key results

- `abstract_step`: every transition of the group is one of the abstract system
- `has_id`: vectors have entries for nodes only
- `network_agreement`: nobody knows more than was published, and a node that has
  heard each of the others after its last publication knows exactly that
-/

namespace Svs

open VersionVector
open Gossip (Packet)

namespace Core

variable {P : Platform} {cfg : Config} {m : Moment} {c : Core}

theorem targetNode_self (cfg : Config) : targetNode cfg cfg.id = cfg.id := by
  unfold targetNode
  split <;> rfl

theorem RecordedBelow.of_same {c' : Core} (h : RecordedBelow c) (hvv : c'.vv = c.vv)
    (hrec : c'.recordedVv = c.recordedVv) : RecordedBelow c' := by
  intro r hr
  rw [hvv]
  exact h r (hrec ▸ hr)

/-- Without wrap-around a publication raises the node's own entry by one. -/
theorem knows_publishData
    (hwrap : getSeqNo cfg cfg.id c < nextSeqNo cfg cfg.id c) :
    (publishData cfg m cfg.id c).1.vv.knows =
      Function.update c.vv.knows cfg.id (c.vv.knows cfg.id + 1) := by
  have hseq : (nextSeqNo cfg cfg.id c).toNat = c.vv.knows cfg.id + 1 := by
    simp only [nextSeqNo, getSeqNo, targetNode_self] at hwrap ⊢
    rw [UInt64.lt_iff_toNat_lt, UInt64.toNat_add, UInt64.toNat_one] at hwrap
    rw [UInt64.toNat_add, UInt64.toNat_one, VersionVector.knows]
    have hlt := (c.vv.get cfg.id).toNat_lt
    omega
  rw [publishData, targetNode_self, (updateSeqNo_frame cfg m _ _).1, targetNode_self, knows_set,
    hseq]

/-- What a node sends is known to it, with its own entry as it is. -/
theorem knows_buildSyncVector (hid : cfg.id.isEmpty = false)
    (hlimit : cfg.stateVectorStrategy = .Full ∨ 1 ≤ cfg.maxStateVectorEntries) :
    (buildSyncVector P cfg m c).2.wire.knows ≤ c.vv.knows ∧
      (buildSyncVector P cfg m c).2.wire.knows cfg.id = c.vv.knows cfg.id := by
  have hsub := subVector_buildSyncVector P cfg m c
  refine ⟨fun nid => UInt64.le_iff_toNat_le.mp (hsub.get_le nid), ?_⟩
  simp only [VersionVector.knows, get_wire]
  cases hown : c.vv.has cfg.id with
  | true =>
    -- the own entry is the preferred one, so every selection holds it
    have hsize : c.vv.size ≠ 0 := by
      have hlen := List.length_pos_of_mem ((mem_nodes c.vv cfg.id).mpr hown)
      rw [length_nodes] at hlen
      omega
    have hhas := has_buildSyncVector_own P m (one_le_syncLimit cfg c hlimit hsize) hid hown
    rw [hsub.get_eq hhas]
  | false =>
    -- nothing published yet: 0 on both sides
    have hzero := get_of_not_has hown
    have hle := hsub.get_le cfg.id
    rw [hzero, UInt64.le_iff_toNat_le] at hle
    rw [hzero]
    exact Nat.le_zero.mp hle

/-- A timer sends nothing, or one vector with entries that the node has. -/
theorem effects_fire (P : Platform) (cfg : Config) (m : Moment) (c : Core) {e : Event} (he : e = .start ∨ e = .retx) :
    (step P cfg m e c).2 = [] ∨ ∃ vv, (step P cfg m e c).2 = [.expressInterest vv] ∧
      ∀ nid, vv.has nid = true → (step P cfg m e c).1.vv.has nid = true := by
  have hretx : ∀ c : Core, (retxSyncInterest P cfg m true 0 c).2 = [] ∨
      ∃ vv, (retxSyncInterest P cfg m true 0 c).2 = [.expressInterest vv] ∧
        ∀ nid, vv.has nid = true → (retxSyncInterest P cfg m true 0 c).1.vv.has nid = true := by
    intro c
    rcases effects_retxSyncInterest P cfg m (c := c) 0 with hnone | ⟨c', hsent, hvv⟩
    · exact Or.inl hnone
    · refine Or.inr ⟨_, hsent, fun nid hnid => ?_⟩
      rw [← hvv]
      exact (subVector_buildSyncVector P cfg m c').has hnid
  rcases he with rfl | rfl
  · exact hretx _
  · exact hretx _

end Core

namespace Network

open Svs.Core

variable {ι : Type*}

/-- The group as parties that gossip: vectors as functions to `ℕ`. -/
def abstract (s : Network ι) : Gossip.State ι NodeID where
  published := s.published
  know i := (s.cores i).vv.knows
  flight := s.flight.map (Packet.map VersionVector.knows)
  processed i := (s.processed i).map (Packet.map VersionVector.knows)
  lastPublication := s.lastPublication
  clock := s.clock

variable [DecidableEq ι] {P : Platform} {cfg : ι → Config} {s s' : Network ι}

/-- Changing one core changes what one party knows. -/
theorem knows_update (cores : ι → Core) (i : ι) (c : Core) :
    (fun j => (Function.update cores i c j).vv.knows) =
      Function.update (fun j => (cores j).vv.knows) i c.vv.knows :=
  funext fun j => Function.apply_update (fun _ c => c.vv.knows) cores i c j

theorem knows_update_of_eq (cores : ι → Core) (i : ι) {c : Core} (h : c.vv = (cores i).vv) :
    (fun j => (Function.update cores i c j).vv.knows) = fun j => (cores j).vv.knows := by
  rw [knows_update, h]
  exact Function.update_eq_self i _

/-- A recorded vector stays below when one core changes. -/
theorem recordedBelow_update {cores : ι → Core} (h : ∀ j, RecordedBelow (cores j)) {i : ι}
    {c : Core} (hc : RecordedBelow c) (j : ι) : RecordedBelow (Function.update cores i c j) := by
  by_cases hj : j = i
  · subst hj
    rwa [Function.update_self]
  · rw [Function.update_of_ne hj]
    exact h j

/-- Firing the timer of a node is a send or nothing at all. -/
theorem abstract_fire (hid : ∀ i, (cfg i).id.isEmpty = false)
    (hlimit : ∀ i, (cfg i).stateVectorStrategy = .Full ∨ 1 ≤ (cfg i).maxStateVectorEntries)
    (i : ι) (m : Moment) {c : Core} (hc : RecordedBelow c) (hvv : c.vv = (s.cores i).vv) :
    Gossip.Step (fun i => (cfg i).id) s.abstract
      (abstract { s with
        cores := Function.update s.cores i (retxSyncInterest P (cfg i) m true 0 c).1
        flight := s.flight ++ packets i s.clock (retxSyncInterest P (cfg i) m true 0 c).2
        clock := s.clock + 1 }) := by
  have hsame : (retxSyncInterest P (cfg i) m true 0 c).1.vv = (s.cores i).vv :=
    (hc.retxSyncInterest_vv m 0).trans hvv
  have hknow := knows_update_of_eq s.cores i hsame
  rcases effects_retxSyncInterest P (cfg i) m (c := c) 0 with hnone | ⟨c', hsent, hc'⟩
  · rw [hnone]
    simp only [abstract, hknow, packets, List.filterMap_nil, List.append_nil]
    exact .idle
  · rw [hsent]
    simp only [abstract, hknow, packets, List.filterMap_cons, List.filterMap_nil, List.map_append,
      List.map_cons, List.map_nil]
    obtain ⟨hle, hown⟩ := knows_buildSyncVector (P := P) (m := m) (c := c') (hid i) (hlimit i)
    rw [hc'.trans hsame] at hle hown
    exact .send i _ hle hown

/-- Every transition of the group is one of the abstract system. -/
theorem abstract_step (hid : ∀ i, (cfg i).id.isEmpty = false)
    (hlimit : ∀ i, (cfg i).stateVectorStrategy = .Full ∨ 1 ≤ (cfg i).maxStateVectorEntries)
    (hrec : ∀ i, RecordedBelow (s.cores i)) (hstep : Step P cfg s s') :
    Gossip.Step (fun i => (cfg i).id) s.abstract s'.abstract ∧
      ∀ i, RecordedBelow (s'.cores i) := by
  cases hstep with
  | publish i m hwrap =>
    constructor
    · simp only [abstract, knows_update, knows_publishData hwrap]
      exact .publish i
    · apply recordedBelow_update hrec
      apply RecordedBelow.updateSeqNo (hrec i) m
      rwa [targetNode_self]
  | send i m =>
    have hsame := sameWindow_buildSyncVector P (cfg i) m (s.cores i)
    refine ⟨?_, recordedBelow_update hrec ((hrec i).of_same hsame.vv hsame.recordedVv)⟩
    simp only [abstract, knows_update_of_eq s.cores i hsame.vv, List.map_append, List.map_cons,
      List.map_nil]
    obtain ⟨hle, hown⟩ :=
      knows_buildSyncVector (P := P) (m := m) (c := s.cores i) (hid i) (hlimit i)
    exact .send i _ hle hown
  | fire i m e he =>
    -- the first event also sets `initialized`, which nothing here reads
    have hstart : RecordedBelow { s.cores i with initialized := true } := (hrec i).of_same rfl rfl
    rcases he with rfl | rfl
    · exact ⟨abstract_fire hid hlimit i m hstart rfl,
        recordedBelow_update hrec (hstart.retxSyncInterest m 0)⟩
    · exact ⟨abstract_fire hid hlimit i m (hrec i) rfl,
        recordedBelow_update hrec ((hrec i).retxSyncInterest m 0)⟩
  | deliver i m face p hp =>
    refine ⟨?_, recordedBelow_update hrec ((hrec i).processVector m p.content face)⟩
    -- forgetting update times commutes with appending a packet
    have hprocessed : (fun j => (Function.update s.processed i (s.processed i ++ [p]) j).map
          (Packet.map VersionVector.knows)) =
        Function.update (fun j => (s.processed j).map (Packet.map VersionVector.knows)) i
          ((s.processed i).map (Packet.map VersionVector.knows) ++
            [p.map VersionVector.knows]) := by
      funext j
      have happly := Function.apply_update
        (fun _ (l : List (Packet ι VersionVector)) => l.map (Packet.map VersionVector.knows))
        s.processed i (s.processed i ++ [p]) j
      rwa [List.map_append] at happly
    simp only [abstract, knows_update, processVector_vv, knows_raiseEntries, hprocessed]
    exact .deliver i (p.map VersionVector.knows) (List.mem_map_of_mem hp)
  | lose rest hrest => exact ⟨.lose _ (hrest.map _), hrec⟩

/-- The group refines the abstract system in every run. -/
theorem abstract_reachable (hid : ∀ i, (cfg i).id.isEmpty = false)
    (hlimit : ∀ i, (cfg i).stateVectorStrategy = .Full ∨ 1 ≤ (cfg i).maxStateVectorEntries)
    (h : Reachable P cfg s) :
    Gossip.Reachable (fun i => (cfg i).id) s.abstract ∧ ∀ i, RecordedBelow (s.cores i) := by
  induction h with
  | init uninitialized =>
    have hknow : ∀ i, (Core.init (cfg i) (uninitialized i)).vv.knows = 0 := fun i => by
      rw [(init_frame (cfg i) (uninitialized i)).1]
      funext nid
      simp [VersionVector.knows]
    have hinit : abstract (Network.init cfg uninitialized) = .init :=
      Gossip.State.ext rfl (funext hknow) rfl rfl rfl rfl
    rw [hinit]
    exact ⟨.init, fun i => recordedBelow_init (cfg i) (uninitialized i)⟩
  | step _ hstep ih =>
    obtain ⟨hstep', hrec'⟩ := abstract_step hid hlimit ih.2 hstep
    exact ⟨ih.1.step hstep', hrec'⟩

/-- Vectors have entries for nodes only. -/
theorem has_id (hid : ∀ i, (cfg i).id.isEmpty = false)
    (hlimit : ∀ i, (cfg i).stateVectorStrategy = .Full ∨ 1 ≤ (cfg i).maxStateVectorEntries)
    (h : Reachable P cfg s) :
    (∀ i nid, (s.cores i).vv.has nid = true → ∃ j, (cfg j).id = nid) ∧
      ∀ pkt ∈ s.flight, ∀ nid, pkt.content.has nid = true → ∃ j, (cfg j).id = nid := by
  induction h with
  | init uninitialized =>
    refine ⟨?_, fun pkt hpkt => absurd hpkt List.not_mem_nil⟩
    intro i nid hnid
    have hnid : (Core.init (cfg i) (uninitialized i)).vv.has nid = true := hnid
    rw [(Core.init_frame (cfg i) (uninitialized i)).1, has_empty] at hnid
    exact absurd hnid Bool.false_ne_true
  | @step s s' hreach hstep ih =>
    obtain ⟨hcores, hflight⟩ := ih
    have hrec := (abstract_reachable hid hlimit hreach).2
    -- a node whose vector changes does so in a way that keeps to the nodes
    have hupdate : ∀ (i : ι) (c : Core), (∀ nid, c.vv.has nid = true → ∃ j, (cfg j).id = nid) →
        ∀ k nid, (Function.update s.cores i c k).vv.has nid = true → ∃ j, (cfg j).id = nid := by
      intro i c hc k nid hnid
      by_cases hk : k = i
      · subst hk
        rw [Function.update_self] at hnid
        exact hc nid hnid
      · rw [Function.update_of_ne hk] at hnid
        exact hcores k nid hnid
    cases hstep with
    | publish i m hwrap =>
      refine ⟨hupdate i _ ?_, hflight⟩
      intro nid hnid
      rw [Core.publishData, (Core.updateSeqNo_frame (cfg i) m _ _).1, Core.targetNode_self,
        Core.targetNode_self, has_set] at hnid
      rcases hnid with rfl | hnid
      · exact ⟨i, rfl⟩
      · exact hcores i nid hnid
    | send i m =>
      have hsame := Core.sameWindow_buildSyncVector P (cfg i) m (s.cores i)
      refine ⟨hupdate i _ ?_, ?_⟩
      · rw [hsame.vv]
        exact hcores i
      · intro pkt hpkt nid hnid
        rcases List.mem_append.mp hpkt with hpkt | hpkt
        · exact hflight pkt hpkt nid hnid
        · rw [List.mem_singleton.mp hpkt] at hnid
          exact hcores i nid ((Core.subVector_buildSyncVector P (cfg i) m (s.cores i)).has hnid)
    | fire i m e he =>
      have hstart : Core.RecordedBelow { s.cores i with initialized := true } := (hrec i).of_same rfl rfl
      have hvv : (Core.step P (cfg i) m e (s.cores i)).1.vv = (s.cores i).vv := by
        rcases he with rfl | rfl
        · exact hstart.retxSyncInterest_vv m 0
        · exact (hrec i).retxSyncInterest_vv m 0
      refine ⟨hupdate i _ ?_, ?_⟩
      · rw [hvv]
        exact hcores i
      · intro pkt hpkt nid hnid
        rcases List.mem_append.mp hpkt with hpkt | hpkt
        · exact hflight pkt hpkt nid hnid
        · rcases Core.effects_fire P (cfg i) m (s.cores i) he with
            hnone | ⟨vv, hsent, hhas⟩
          · rw [hnone] at hpkt
            exact absurd hpkt List.not_mem_nil
          · rw [hsent] at hpkt
            rw [List.mem_singleton.mp hpkt] at hnid
            have hnid := hhas nid hnid
            rw [hvv] at hnid
            exact hcores i nid hnid
    | deliver i m face p hp =>
      refine ⟨hupdate i _ ?_, hflight⟩
      intro nid hnid
      rw [Core.processVector_vv, (Core.raiseEntries_spec m _ _ nid).2.2] at hnid
      rcases hnid with hnid | hlt
      · exact hcores i nid hnid
      · refine hflight p hp nid (has_of_get_ne_zero ?_)
        intro hzero
        rw [hzero] at hlt
        exact absurd hlt UInt64.not_lt_zero
    | lose rest hrest => exact ⟨hcores, fun pkt hpkt => hflight pkt (hrest.subset hpkt)⟩

/-- In every reachable state the entry for `p` in the vector of any node, in what it
    recorded and in every vector in flight is at most `p`'s own, which counts `p`'s
    publications; and a node that has processed, from every other node that published,
    a vector sent after its last publication has exactly the publication counts. -/
theorem network_agreement (hinj : Function.Injective fun i => (cfg i).id)
    (hid : ∀ i, (cfg i).id.isEmpty = false)
    (hlimit : ∀ i, (cfg i).stateVectorStrategy = .Full ∨ 1 ≤ (cfg i).maxStateVectorEntries)
    (h : Reachable P cfg s) :
    (∀ p, (s.cores p).vv.knows (cfg p).id = s.published (cfg p).id ∧
      (∀ i, (s.cores i).vv.knows (cfg p).id ≤ (s.cores p).vv.knows (cfg p).id ∧
        ∀ r, (s.cores i).recordedVv = some r →
          r.knows (cfg p).id ≤ (s.cores p).vv.knows (cfg p).id) ∧
      ∀ pkt ∈ s.flight, pkt.content.knows (cfg p).id ≤ (s.cores p).vv.knows (cfg p).id) ∧
    ∀ i, (∀ j, j ≠ i → s.published (cfg j).id ≠ 0 →
        ∃ pkt ∈ s.processed i, pkt.sender = j ∧ s.lastPublication j ≤ pkt.sentAt) →
      (s.cores i).vv.knows = s.published := by
  obtain ⟨habs, hrec⟩ := abstract_reachable hid hlimit h
  have hinv := Gossip.inv_of_reachable hinj habs
  have hown : ∀ p, (s.cores p).vv.knows (cfg p).id = s.published (cfg p).id := hinv.own_eq
  have hle : ∀ i, (s.cores i).vv.knows ≤ s.published := hinv.know_le
  refine ⟨fun p => ⟨hown p, fun i => ⟨?_, fun r hr => ?_⟩, fun pkt hpkt => ?_⟩, fun i hheard => ?_⟩
  · rw [hown p]
    exact hle i _
  · rw [hown p]
    exact (hrec i r hr _).trans (hle i _)
  · rw [hown p]
    exact (hinv.flight _ (List.mem_map_of_mem hpkt)).content_le _
  · apply hinv.agreement i
    intro j hj hpub
    obtain ⟨pkt, hpkt, hsender, hlate⟩ := hheard j hj hpub
    exact ⟨_, List.mem_map_of_mem hpkt, hsender, hlate⟩

/-- Nodes `a` and `b`, with the default settings. -/
def pair (i : Fin 2) : Config where
  id := .ofBytes [[if i = 0 then 97 else 98]]

/-- `a` publishes and sends, `b` receives. -/
theorem network_agreement_pair :
    ∃ s : Network (Fin 2), Reachable .plain pair s ∧ s.published (pair 0).id = 1 ∧
      (s.cores 1).vv.knows = s.published := by
  have hinit : Reachable .plain pair (init pair fun _ => 0) := .init _
  have hrun := (((hinit.step
    (.publish 0 (.atMs 0) (by decide))).step
    (.send 0 (.atMs 1))).step
    (.deliver 1 (.atMs 2) 0 _ (List.mem_append_right _ List.mem_cons_self)))
  refine ⟨_, hrun, by decide, (network_agreement (by decide) (by decide)
    (by decide) hrun).2 1 fun j hj _ => ?_⟩
  obtain rfl : j = 0 := by omega
  exact ⟨_, List.mem_cons_self, rfl, by decide⟩

end Network

end Svs
