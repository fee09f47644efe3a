import Svs.Spec.GroupSteps

/-!
# What holds of a group in every state

The cores of the nodes are those of a network of vectors, and every node keeps to what the
group has published.

## Key results

- `inv_step`: every transition of the group keeps the invariant
- `inv_of_reachable`: it holds in every run
-/

namespace Svs.Group

open Std Publisher PubSub VersionVector

variable {ι : Type*} [DecidableEq ι] {P : Platform} {cfg : ι → PublisherConfig} {syncPrefix : Name}
  {g g' : Group ι}

/-- The chances that the core has given for a publication, once its entry is `vv`. -/
def reported (id : NodeID) (vv : VersionVector) (p : Publication) : ℕ :=
  if p.nodeId ≠ id ∧ 0 < p.seqNo ∧ p.seqNo ≤ vv.get p.nodeId then 1 else 0

/-- A range that continues the numbers up to an entry. -/
theorem chances_add (old new seq : SeqNo) :
    (if 0 < seq ∧ seq ≤ old then 1 else 0) + (if old < seq ∧ seq ≤ new then 1 else 0) ≤
      if 0 < seq ∧ seq ≤ (if old < new then new else old) then 1 else 0 := by
  simp only [UInt64.lt_iff_toNat_lt, UInt64.le_iff_toNat_le, apply_ite UInt64.toNat, UInt64.toNat_zero]
  split_ifs <;> omega

/-- The network of vectors below the group: the same cores, and the vectors of all Sync
    Interests in flight. -/
structure Follows (cfg : ι → PublisherConfig) (A : Atlas) (g : Group ι) (s : Network ι) : Prop where
  cores : ∀ i, s.cores i = (g.nodes i).core
  published : ∀ i, s.published (cfg i).core.id = (g.published i).length
  flight : ∀ bytes ∈ g.syncInterests, ∃ vv list, bytes = applicationParameters vv list.encode ∧
    vv.Encodable ∧ A.OfList list ∧ list.Encodable ∧ ∃ pkt ∈ s.flight, pkt.content = vv.wire

/-- What holds in every state. -/
structure Inv (P : Platform) (hcfg : Members cfg syncPrefix) (g : Group ι) (hwf : g.WellFormed cfg) : Prop where
  network : ∃ s, Network.Reachable P (fun i => (cfg i).core) s ∧ Follows cfg (atlas hcfg g hwf) g s
  nodes : ∀ i, Faithful (atlas hcfg g hwf) (origin cfg syncPrefix g) (cfg i).pubSub
    (reported (cfg i).core.id (g.nodes i).core.vv) (g.nodes i).pubSub
  stores : ∀ i, ∀ d ∈ (g.nodes i).dataStore, Genuine cfg (atlas hcfg g hwf) g d
  data : ∀ d ∈ g.data, Genuine cfg (atlas hcfg g hwf) g d

variable {hcfg : Members cfg syncPrefix} {hwf : g.WellFormed cfg} {hwf' : g'.WellFormed cfg}

/-! ## Vectors -/

section

variable {A : Atlas} {s : Network ι}

/-- Nobody knows more than is published, and a node knows what it has published. -/
theorem Follows.knows (h : Follows cfg A g s) (hcfg : Members cfg syncPrefix)
    (hs : Network.Reachable P (fun i => (cfg i).core) s) :
    (∀ i, (g.nodes i).core.vv.knows (cfg i).core.id = (g.published i).length) ∧
      (∀ i j, (g.nodes i).core.vv.knows (cfg j).core.id ≤ (g.published j).length) ∧
      ∀ pkt ∈ s.flight, ∀ j, pkt.content.knows (cfg j).core.id ≤ (g.published j).length := by
  have hinv := Gossip.inv_of_reachable hcfg.id_injective
    (Network.abstract_reachable hcfg.id_nonempty hcfg.limit hs).1
  refine ⟨?_, ?_, ?_⟩
  · intro i
    rw [← h.cores i, ← h.published i]
    exact hinv.own_eq i
  · intro i j
    rw [← h.cores i, ← h.published j]
    exact hinv.know_le i _
  · intro pkt hpkt j
    rw [← h.published j]
    exact (hinv.flight _ (List.mem_map_of_mem hpkt)).content_le _

omit [DecidableEq ι] in
theorem Follows.mono {A' : Atlas} (h : Follows cfg A g s) (hcores : ∀ i, (g'.nodes i).core = (g.nodes i).core)
    (hpublished : g'.published = g.published) (hsubset : ∀ bytes ∈ g'.syncInterests, bytes ∈ g.syncInterests)
    (hmaps : ∀ p mapping, A.maps p mapping → A'.maps p mapping) : Follows cfg A' g' s where
  cores i := (h.cores i).trans (hcores i).symm
  published i := by
    rw [hpublished]
    exact h.published i
  flight bytes hbytes := by
    obtain ⟨vv, list, heq, hvv, hlist, hencodable, hpkt⟩ := h.flight bytes (hsubset bytes hbytes)
    exact ⟨vv, list, heq, hvv, ⟨hlist.nodeId, fun x hx => hmaps _ _ (hlist.pairs x hx)⟩, hencodable, hpkt⟩

end

/-! ## One node -/

/-- A node that the network does not change keeps to what is published. -/
theorem Inv.faithful (h : Inv P hcfg g hwf) (hg : g.Grows g') (i : ι) :
    Faithful (atlas hcfg g' hwf') (origin cfg syncPrefix g') (cfg i).pubSub
      (reported (cfg i).core.id (g.nodes i).core.vv) (g.nodes i).pubSub :=
  (h.nodes i).mono rfl (atlas_mono hg) rfl (origin_mono hg) rfl fun _ => Nat.le_refl _

/-- One node changes. -/
theorem Inv.of_node (h : Inv P hcfg g hwf) (hg : g.Grows g') {i : ι} {n : Publisher}
    (hnodes : g'.nodes = Function.update g.nodes i n)
    (hnetwork : ∃ s, Network.Reachable P (fun i => (cfg i).core) s ∧ Follows cfg (atlas hcfg g' hwf') g' s)
    (hnode : Faithful (atlas hcfg g' hwf') (origin cfg syncPrefix g') (cfg i).pubSub
      (reported (cfg i).core.id n.core.vv) n.pubSub)
    (hstore : ∀ d ∈ n.dataStore, d ∈ (g.nodes i).dataStore ∨ Genuine cfg (atlas hcfg g' hwf') g' d)
    (hdata : ∀ d ∈ g'.data, d ∈ g.data ∨ Genuine cfg (atlas hcfg g' hwf') g' d) :
    Inv P hcfg g' hwf' where
  network := hnetwork
  nodes j := by
    rw [hnodes]
    by_cases hj : j = i
    · subst hj
      rw [Function.update_self]
      exact hnode
    · rw [Function.update_of_ne hj]
      exact h.faithful hg j
  stores j d hd := by
    rw [hnodes] at hd
    by_cases hj : j = i
    · subst hj
      rw [Function.update_self] at hd
      exact (hstore d hd).elim (fun hd => (h.stores j d hd).mono hg (atlas_mono hg)) id
    · rw [Function.update_of_ne hj] at hd
      exact (h.stores j d hd).mono hg (atlas_mono hg)
  data d hd := (hdata d hd).elim (fun hd => (h.data d hd).mono hg (atlas_mono hg)) id

/-- Cores stay the same where a node only changes otherwise. -/
theorem core_update {nodes : ι → Publisher} {i : ι} {n : Publisher} (h : n.core = (nodes i).core) (j : ι) :
    (Function.update nodes i n j).core = (nodes j).core := by
  by_cases hj : j = i
  · subst hj
    rwa [Function.update_self]
  · rw [Function.update_of_ne hj]

/-- Something happens to the pub/sub layer of a node. -/
theorem Inv.act (h : Inv P hcfg g hwf) {i : ι} {e : UInt64 × PubSub.Event}
    (hinforms : Informs (atlas hcfg g hwf) (cfg i).pubSub e (g.nodes i).pubSub)
    (hbrings : Brings (origin cfg syncPrefix g) (cfg i).pubSub e.2 (g.nodes i).pubSub)
    (hreports : e.2.reports = []) : Inv P hcfg (g.act cfg i e) hwf := by
  have hg : g.Grows (g.act cfg i e) := fun _ => List.prefix_refl _
  refine h.of_node hg rfl ?_ ?_ (fun d hd => Or.inl hd) fun d hd => Or.inl hd
  · obtain ⟨s, hs, hfollows⟩ := h.network
    exact ⟨s, hs, hfollows.mono (core_update rfl) rfl (fun _ h => h) fun _ _ h => h⟩
  · refine ((h.nodes i).step hinforms hbrings).mono rfl (atlas_mono hg) rfl (origin_mono hg) rfl ?_
    intro p
    rw [hreports]
    exact Nat.le_refl _

/-- The call is the next one of the node. -/
theorem Inv.nextSeqNo (h : Inv P hcfg g hwf) {i : ι}
    (hwrap : Core.getSeqNo (cfg i).core EMPTY_NODE_ID (g.nodes i).core <
      Core.nextSeqNo (cfg i).core EMPTY_NODE_ID (g.nodes i).core) :
    Core.getSeqNo (cfg i).core (cfg i).core.id (g.nodes i).core <
        Core.nextSeqNo (cfg i).core (cfg i).core.id (g.nodes i).core ∧
      (Core.nextSeqNo (cfg i).core (cfg i).core.id (g.nodes i).core).toNat = (g.published i).length + 1 := by
  have htarget : Core.targetNode (cfg i).core EMPTY_NODE_ID = (cfg i).core.id := rfl
  have hid := Core.targetNode_self (cfg i).core
  have hwrap : Core.getSeqNo (cfg i).core (cfg i).core.id (g.nodes i).core <
      Core.nextSeqNo (cfg i).core (cfg i).core.id (g.nodes i).core := by
    simpa only [Core.nextSeqNo, Core.getSeqNo, htarget, hid] using hwrap
  refine ⟨hwrap, ?_⟩
  obtain ⟨s, hs, hfollows⟩ := h.network
  obtain ⟨hown, -, -⟩ := hfollows.knows hcfg hs
  rw [← hown i, VersionVector.knows]
  simp only [Core.nextSeqNo, Core.getSeqNo, hid] at hwrap ⊢
  have hlt := UInt64.lt_iff_toNat_lt.mp hwrap
  have hmax := ((g.nodes i).core.vv.get (cfg i).core.id).toNat_lt
  rw [UInt64.toNat_add, UInt64.toNat_one] at hlt ⊢
  omega

/-- A node publishes. -/
theorem Inv.publish (h : Inv P hcfg g hwf) {i : ι} {m : Moment} {call : PublishCall}
    (hwrap : Core.getSeqNo (cfg i).core EMPTY_NODE_ID (g.nodes i).core <
      Core.nextSeqNo (cfg i).core EMPTY_NODE_ID (g.nodes i).core)
    (hg' : g' = { g with
      nodes := Function.update g.nodes i (call.perform (cfg i) m (g.nodes i))
      published := Function.update g.published i (g.published i ++ [call]) }) :
    Inv P hcfg g' hwf' := by
  obtain ⟨put, hperform⟩ := call.perform_eq (cfg i) m (g.nodes i)
  have hid := Core.targetNode_self (cfg i).core
  obtain ⟨s, hs, hfollows⟩ := h.network
  obtain ⟨hwrap, hseq⟩ := h.nextSeqNo hwrap
  have hg : g.Grows g' := by
    intro j
    rw [hg']
    by_cases hj : j = i
    · subst hj
      simp only [Function.update_self]
      exact List.prefix_append _ _
    · simp only [Function.update_of_ne hj]
      exact List.prefix_refl _
  have hpublishes : g'.Publishes cfg i
      ⟨(cfg i).core.id, Core.nextSeqNo (cfg i).core (cfg i).core.id (g.nodes i).core⟩ call := by
    refine ⟨rfl, _, hseq, ?_⟩
    rw [hg']
    simp only [Function.update_self]
    exact List.getElem?_concat_length
  have hmono : ∀ p mapping, (atlas hcfg g hwf).maps p mapping → (atlas hcfg g' hwf').maps p mapping :=
    atlas_mono hg
  refine h.of_node hg (congrArg Group.nodes hg') ?_ ?_ ?_ ?_
  · refine ⟨_, hs.step (.publish i m ?_), ?_, ?_, ?_⟩
    · rw [hfollows.cores i]
      exact hwrap
    · intro j
      rw [hg']
      show Function.update s.cores i _ j = (Function.update g.nodes i _ j).core
      by_cases hj : j = i
      · subst hj
        rw [Function.update_self, Function.update_self, hperform, hfollows.cores j]
      · rw [Function.update_of_ne hj, Function.update_of_ne hj]
        exact hfollows.cores j
    · intro j
      rw [hg']
      show Function.update s.published _ _ _ = (Function.update g.published i _ j).length
      by_cases hj : j = i
      · subst hj
        rw [Function.update_self, Function.update_self, hfollows.published j, List.length_append]
        rfl
      · have hne : (cfg j).core.id ≠ (cfg i).core.id := fun heq => hj (hcfg.id_injective heq)
        rw [Function.update_of_ne hne, Function.update_of_ne hj]
        exact hfollows.published j
    · have hsame : Follows cfg (atlas hcfg g' hwf') g s :=
        hfollows.mono (fun _ => rfl) rfl (fun _ h => h) hmono
      intro bytes hbytes
      rw [hg'] at hbytes
      exact hsame.flight bytes hbytes
  · rw [hperform]
    have hinforms : Informs (atlas hcfg g' hwf') (cfg i).pubSub
        (call.now, .insertMapping (cfg i).core.id
          (Core.nextSeqNo (cfg i).core (cfg i).core.id (g.nodes i).core) call.name
          (if call.IsLarge then call.mappingBlocks else [])) (g.nodes i).pubSub :=
      ⟨hcfg.id_valid i, i, call, hpublishes, Or.inl rfl⟩
    have hfaithful : Faithful (atlas hcfg g' hwf') (origin cfg syncPrefix g') (cfg i).pubSub
        (reported (cfg i).core.id (g.nodes i).core.vv) (g.nodes i).pubSub := h.faithful hg i
    refine (hfaithful.step hinforms trivial).mono rfl (fun _ _ h => h) rfl
      (fun _ _ h => h) rfl ?_
    intro p
    -- what others have published is where it was
    simp only [reported, Core.publishData, (Core.updateSeqNo_frame (cfg i).core m _ _).1, hid, get_set]
    by_cases hp : p.nodeId = (cfg i).core.id
    · simp [hp, Event.reports]
    · rw [if_neg (Ne.symm hp)]
      exact Nat.le_refl _
  · intro d hd
    rw [hperform] at hd
    rcases List.mem_append.mp hd with hd | hd
    · exact Or.inl hd
    · exact Or.inr (.packet hpublishes hd)
  · intro d hd
    rw [hg'] at hd
    exact Or.inl hd

/-- A timer of a node fires. -/
theorem Inv.fire (h : Inv P hcfg g hwf) {i : ι} {m : Moment} {now : UInt64} {e : Svs.Event}
    (he : e = .start ∨ e = .retx)
    (hfits : ∀ bytes ∈ ((g.nodes i).fire P (cfg i) m now e).2, bytes.length < 2 ^ 64) :
    Inv P hcfg { g with
      nodes := Function.update g.nodes i ((g.nodes i).fire P (cfg i) m now e).1
      syncInterests := g.syncInterests ++ ((g.nodes i).fire P (cfg i) m now e).2 } hwf := by
  obtain ⟨s, hs, hfollows⟩ := h.network
  have hs' := hs.step (.fire i m e he)
  have hstep : Core.step P (cfg i).core m e (s.cores i) = Core.step P (cfg i).core m e (g.nodes i).core := by
    rw [hfollows.cores i]
  -- a firing leaves the vector alone
  have hrec := (Network.abstract_reachable hcfg.id_nonempty hcfg.limit hs).2 i
  rw [hfollows.cores i] at hrec
  have hstart : Core.RecordedBelow { (g.nodes i).core with initialized := true } := hrec.of_same rfl rfl
  have hvv : (Core.step P (cfg i).core m e (g.nodes i).core).1.vv = (g.nodes i).core.vv := by
    rcases he with rfl | rfl
    · exact hstart.retxSyncInterest_vv m 0
    · exact hrec.retxSyncInterest_vv m 0
  have hcores : ∀ (n : Publisher), n.core = (Core.step P (cfg i).core m e (g.nodes i).core).1 →
      ∀ j, Function.update s.cores i (Core.step P (cfg i).core m e (s.cores i)).1 j =
        (Function.update g.nodes i n j).core := by
    intro n hn j
    by_cases hj : j = i
    · subst hj
      rw [Function.update_self, Function.update_self, hn, hstep]
    · rw [Function.update_of_ne hj, Function.update_of_ne hj]
      exact hfollows.cores j
  rcases Publisher.fire_cases P (cfg i) m now (g.nodes i) he with ⟨-, hfire⟩ | ⟨vv, hsent, hhas, hfire⟩
  · rw [hfire]
    refine h.of_node (fun _ => List.prefix_refl _) rfl ?_ ?_ (fun d hd => Or.inl hd) fun d hd => Or.inl hd
    · refine ⟨_, hs', hcores _ rfl, hfollows.published, ?_⟩
      intro bytes hbytes
      rw [List.append_nil] at hbytes
      obtain ⟨vv, list, heq, hvv, hlist, hencodable, pkt, hpkt, hcontent⟩ := hfollows.flight bytes hbytes
      exact ⟨vv, list, heq, hvv, hlist, hencodable, pkt, List.mem_append_left _ hpkt, hcontent⟩
    · simp only [hvv]
      exact h.nodes i
  · rw [hfire] at hfits ⊢
    have hlength := hfits _ List.mem_cons_self
    rw [applicationParameters_eq, List.length_append] at hlength
    have hlist := (h.nodes i).charted.notifications
    refine h.of_node (fun _ => List.prefix_refl _) rfl ?_ ?_ (fun d hd => Or.inl hd) fun d hd => Or.inl hd
    · refine ⟨_, hs', hcores _ rfl, hfollows.published, ?_⟩
      intro bytes hbytes
      rcases List.mem_append.mp hbytes with hbytes | hbytes
      · obtain ⟨vv, list, heq, hvv, hlist, hencodable, pkt, hpkt, hcontent⟩ := hfollows.flight bytes hbytes
        exact ⟨vv, list, heq, hvv, hlist, hencodable, pkt, List.mem_append_left _ hpkt, hcontent⟩
      · refine ⟨vv, _, List.mem_singleton.mp hbytes, ⟨?_, by omega⟩, hlist, hlist.encodable (by omega),
          ⟨i, vv.wire, s.clock⟩, ?_, rfl⟩
        · -- the entries are for nodes
          intro x hx
          have hnid := hhas x.1 ((has_iff vv x.1).mpr ⟨x.2, (mem_entries vv x.1 x.2).mp hx⟩)
          rw [hvv, ← hfollows.cores i] at hnid
          obtain ⟨j, hj⟩ := (Network.has_id hcfg.id_nonempty hcfg.limit hs).1 i x.1 hnid
          rw [← hj]
          exact hcfg.id_valid j
        · apply List.mem_append_right
          rw [hstep, hsent]
          exact List.mem_singleton_self _
    · simp only [hvv]
      exact (h.nodes i).step (e := (now, .onGetExtraData)) trivial trivial

/-- A Sync Interest arrives at a node. -/
theorem Inv.receive (h : Inv P hcfg g hwf) {i : ι} {m : Moment} {now : UInt64} {bytes : List UInt8}
    {face : Option UInt64} (hbytes : bytes ∈ g.syncInterests) :
    Inv P hcfg { g with
      nodes := Function.update g.nodes i
        ((g.nodes i).onSyncInterestValidated P (cfg i) m now ⟨some bytes, face⟩).1 } hwf := by
  obtain ⟨s, hs, hfollows⟩ := h.network
  obtain ⟨vv, list, rfl, hvv, hlist, hencodable, pkt, hpkt, hcontent⟩ := hfollows.flight bytes hbytes
  obtain ⟨pubSub, hreceive, hpubSub⟩ :=
    Publisher.receive_cases P (cfg i) m now (g.nodes i) hvv hencodable face
  rw [hreceive]
  refine h.of_node (fun _ => List.prefix_refl _) rfl ?_ ?_ (fun d hd => Or.inl hd) fun d hd => Or.inl hd
  · refine ⟨_, hs.step (.deliver i m (face.getD 0) pkt hpkt), ?_, hfollows.published, hfollows.flight⟩
    intro j
    show Function.update s.cores i _ j = (Function.update g.nodes i _ j).core
    by_cases hj : j = i
    · subst hj
      rw [Function.update_self, Function.update_self, hfollows.cores j, hcontent]
    · rw [Function.update_of_ne hj, Function.update_of_ne hj]
      exact hfollows.cores j
  · have hmappings := (h.nodes i).step (e := (now, .onRecvExtraData (MappingList.listBlock list)))
      ⟨list, rfl, hencodable, hlist⟩ trivial
    have hvector : (Core.processVector P (cfg i).core m vv.wire (face.getD 0) (g.nodes i).core).1.vv =
        Core.raiseEntries m (g.nodes i).core.vv vv.wire := Core.processVector_vv P (cfg i).core m _ _
    have hget : ∀ nid, (Core.raiseEntries m (g.nodes i).core.vv vv.wire).get nid =
        if (g.nodes i).core.vv.get nid < vv.get nid then vv.get nid else (g.nodes i).core.vv.get nid :=
      fun nid => (Core.raiseEntries_spec m _ _ nid).1
    simp only [hvector]
    rcases hpubSub with rfl | ⟨info, rfl, hhas, hcount⟩
    · refine hmappings.mono rfl (fun _ _ h => h) rfl (fun _ _ h => h) rfl ?_
      intro p
      show reported _ _ p ≤ reported _ _ p
      simp only [reported, hget]
      have hadd := chances_add ((g.nodes i).core.vv.get p.nodeId) (vv.get p.nodeId) p.seqNo
      by_cases hid : p.nodeId = (cfg i).core.id
      · simp [hid]
      · simp only [ne_eq, hid, not_false_eq_true, true_and]
        exact (Nat.le_add_right _ _).trans hadd
    · have hinforms : ∀ stream ∈ info, stream.nodeId ∈ (atlas hcfg g hwf).ids := by
        intro stream hstream
        have hnid := hhas stream hstream
        rw [← has_wire, ← hcontent] at hnid
        exact (Network.has_id hcfg.id_nonempty hcfg.limit hs).2 pkt hpkt _ hnid
      refine (hmappings.step (e := (now, .update info)) hinforms trivial).mono rfl (fun _ _ h => h) rfl
        (fun _ _ h => h) rfl ?_
      intro p
      -- what is reported had not been known
      have hown : (vv.get (cfg i).core.id).toNat ≤ ((g.nodes i).core.vv.get (cfg i).core.id).toNat := by
        obtain ⟨hknows, -, hsound⟩ := hfollows.knows hcfg hs
        have hle := hsound pkt hpkt i
        rw [hcontent, ← hknows i] at hle
        exact hle
      have hp := hcount p
      show reported _ _ p + 0 + info.countP (·.Covers p) ≤ reported _ _ p
      simp only [reported, hget]
      have hadd := chances_add ((g.nodes i).core.vv.get p.nodeId) (vv.get p.nodeId) p.seqNo
      by_cases hid : p.nodeId = (cfg i).core.id
      · -- a node is not behind on what it has published
        have hnone : ¬((g.nodes i).core.vv.get p.nodeId < p.seqNo ∧ p.seqNo ≤ vv.get p.nodeId) := by
          rw [hid, UInt64.lt_iff_toNat_lt, UInt64.le_iff_toNat_le]
          omega
        rw [if_neg hnone] at hp
        simpa [hid] using hp
      · simp only [ne_eq, hid, not_false_eq_true, true_and, Nat.add_zero]
        exact (Nat.add_le_add_left hp _).trans hadd

/-- The Data in flight changes. -/
theorem Inv.of_data (h : Inv P hcfg g hwf) {syncInterests : List (List UInt8)} {data : List Data}
    (hinterests : ∀ bytes ∈ syncInterests, bytes ∈ g.syncInterests)
    (hdata : ∀ d ∈ data, d ∈ g.data ∨ Genuine cfg (atlas hcfg g hwf) g d) :
    Inv P hcfg { g with syncInterests := syncInterests, data := data } hwf := by
  have hg : g.Grows { g with syncInterests := syncInterests, data := data } := fun _ => List.prefix_refl _
  refine ⟨?_, h.nodes, fun i d hd => (h.stores i d hd).mono hg fun _ _ h => h, ?_⟩
  · obtain ⟨s, hs, hfollows⟩ := h.network
    exact ⟨s, hs, hfollows.mono (fun _ => rfl) rfl hinterests fun _ _ h => h⟩
  · intro d hd
    rcases hdata d hd with hd | hd
    · exact (h.data d hd).mono hg fun _ _ h => h
    · exact hd.mono hg fun _ _ h => h

/-- An answer has the name of the query. -/
theorem name_onMappingQuery {uninitialized : UInt64} {name : Name} {store : MappingStore} {rounds : ℕ}
    {d : Data}
    (h : MappingProvider.onMappingQuery syncPrefix uninitialized name store rounds = some (some d)) :
    d.name = name := by
  obtain ⟨query, -, h⟩ := Option.bind_eq_some_iff.mp h
  obtain ⟨r, -, h⟩ := Option.bind_eq_some_iff.mp h
  obtain ⟨response, -, rfl⟩ := Option.map_eq_some_iff.mp (Option.some.inj h)
  rfl

/-- Every transition of the group keeps the invariant. -/
theorem inv_step (h : Inv P hcfg g hwf) (hstep : Step P cfg g g') : Inv P hcfg g' hwf' := by
  cases hstep with
  | publish i m call hwrap => exact h.publish hwrap rfl
  | fire i m now e he hfits => exact h.fire he hfits
  | receive i m now bytes face hbytes => exact h.receive hbytes
  | act i e he =>
    -- nothing comes from the network
    obtain ⟨now, event⟩ := e
    cases event with
    | fetchData event answer =>
      refine h.act trivial (Fetcher.brings_of_not_isData ?_) rfl
      rwa [← Bool.not_eq_true']
    | fetchMapping event =>
      refine h.act (Fetcher.brings_of_not_isData ?_) trivial rfl
      rwa [← Bool.not_eq_true']
    | subscribe | subscribeToProducer | unsubscribe | validationFailed | segmentsError | blobAnswer =>
      exact h.act trivial trivial rfl
    | _ => exact absurd he Bool.false_ne_true
  | put i d hd =>
    refine h.of_data (fun _ h => h) ?_
    intro d' hd'
    rcases List.mem_append.mp hd' with hd' | hd'
    · exact Or.inl hd'
    · rw [List.mem_singleton.mp hd']
      exact Or.inr (h.stores i d hd)
  | answer i uninitialized name d hfilter hd hfits =>
    refine h.of_data (fun _ h => h) ?_
    intro d' hd'
    rcases List.mem_append.mp hd' with hd' | hd'
    · exact Or.inl hd'
    · obtain rfl := name_onMappingQuery hd
      rw [List.mem_singleton.mp hd']
      exact Or.inr (.mappings (h.nodes i).charted.mappings hfilter hd hfits)
  | fetchData i now id d answer hd hname =>
    refine h.act (e := (now, .fetchData (.data id d) answer)) trivial ?_ rfl
    rintro id' d' qi heq hfind
    obtain ⟨rfl, rfl⟩ := FetchEvent.data.inj heq
    have hname := hname qi hfind
    rw [hcfg.syncPrefix i] at hname
    cases hrequest : qi.request with
    | fetch p =>
      intro hknown
      rw [hrequest] at hname
      exact (h.data _ hd).outer hcfg hwf hknown hname i
    | «prefetch» nodeId seqNo => trivial
  | fetchMapping i now id d hd hname =>
    refine h.act (e := (now, .fetchMapping (.data id d))) ?_ trivial rfl
    rintro id' d' qi heq hfind
    obtain ⟨rfl, rfl⟩ := FetchEvent.data.inj heq
    have hname := hname qi hfind
    rw [hcfg.syncPrefix i] at hname
    refine (h.data _ hd).replies hcfg rfl ?_ hname
    -- a pending query is one that has been asked
    apply (h.nodes i).charted.asked
    have hmem : qi.request ∈ (g.nodes i).pubSub.mappingFetcher.pendingInterests.map (·.request) :=
      List.mem_map_of_mem (List.mem_of_find?_eq_some hfind)
    simp only [Fetcher.outstanding, Multiset.mem_add, Multiset.mem_coe]
    exact Or.inl (Or.inl (Or.inr hmem))
  | segments i now task bytes answers hbytes =>
    refine h.act (e := (now, .segmentsComplete task bytes answers)) trivial ?_ rfl
    rintro p pubName s' htask hknown rfl
    exact reassembles h.data hcfg hwf hknown (hbytes p _ s' htask) i
  | lose syncInterests data hinterests hdata =>
    exact h.of_data (fun _ hmem => hinterests.subset hmem) fun d hd => Or.inl (hdata.subset hd)

theorem inv_init (hcfg : Members cfg syncPrefix) (uninitialized : ι → Int) (count : ι → UInt32)
    (hwf : (init cfg uninitialized count).WellFormed cfg) :
    Inv P hcfg (init cfg uninitialized count) hwf where
  network := by
    refine ⟨_, .init uninitialized, fun _ => rfl, fun _ => rfl, ?_⟩
    rintro bytes ⟨⟩
  nodes i := by
    refine (faithful_init _ _ _ (count i)).mono rfl (fun _ _ h => h) rfl (fun _ _ h => h) rfl ?_
    exact fun _ => Nat.zero_le _
  stores i := by rintro d ⟨⟩
  data := by rintro d ⟨⟩

/-- A step takes back no publication. -/
theorem grows_step (hstep : Step P cfg g g') : g.Grows g' := by
  intro j
  cases hstep with
  | publish i m call hwrap =>
    by_cases hj : j = i
    · subst hj
      simp only [Function.update_self]
      exact List.prefix_append _ _
    · simp only [Function.update_of_ne hj]
      exact List.prefix_refl _
  | _ => exact List.prefix_refl _

/-- The invariant holds in every run. -/
theorem inv_of_reachable (hcfg : Members cfg syncPrefix) (h : Reachable P cfg g) (hwf : g.WellFormed cfg) :
    Inv P hcfg g hwf := by
  induction h with
  | init uninitialized count => exact inv_init hcfg uninitialized count hwf
  | step _ hstep ih => exact inv_step (ih (hwf.of_grows (grows_step hstep))) hstep

/-- What a node knows of another one has been published. -/
theorem publishes_of_known (hcfg : Members cfg syncPrefix) (h : Reachable P cfg g) (hwf : g.WellFormed cfg)
    {i : ι} {p : Publication} (hpos : 0 < p.seqNo) (hle : p.seqNo ≤ (g.nodes i).core.vv.get p.nodeId) :
    ∃ j call, g.Publishes cfg j p call := by
  obtain ⟨s, hs, hfollows⟩ := (inv_of_reachable hcfg h hwf).network
  have hpos := UInt64.lt_iff_toNat_lt.mp hpos
  have hle := UInt64.le_iff_toNat_le.mp hle
  -- an entry that is not 0 is one for a node
  have hhas : (s.cores i).vv.has p.nodeId = true := by
    rw [hfollows.cores i]
    apply has_of_get_ne_zero
    intro hzero
    rw [hzero] at hle
    exact absurd hpos (Nat.not_lt.mpr hle)
  obtain ⟨j, hj⟩ := (Network.has_id hcfg.id_nonempty hcfg.limit hs).1 i p.nodeId hhas
  obtain ⟨-, hknows, -⟩ := hfollows.knows hcfg hs
  have hknows := hknows i j
  rw [hj] at hknows
  have hlt : p.seqNo.toNat - 1 < (g.published j).length := by
    have hget : (g.nodes i).core.vv.knows p.nodeId = ((g.nodes i).core.vv.get p.nodeId).toNat := rfl
    have hpos : 0 < p.seqNo.toNat := hpos
    omega
  refine ⟨j, (g.published j).get ⟨_, hlt⟩, hj.symm, p.seqNo.toNat - 1, ?_, List.getElem?_eq_getElem hlt⟩
  exact (Nat.sub_add_cancel hpos).symm

end Svs.Group
