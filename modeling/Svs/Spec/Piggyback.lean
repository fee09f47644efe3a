import Svs.Spec.GroupDelivery

/-!
# The mappings that Sync Interests carry

`insertMapping` notes a mapping for the next Sync Interest, and `onGetExtraData` hands over
what is noted.  In a run of a node, whatever it receives, each Sync Interest carries the
mappings of just those publications that its vector tells of and none before it told of.

## Key results

- `PubSub.notificationMappingList_keep`: only the node's own publications are noted
- `Publisher.Run`: the runs, with what was sent and what was published
- `announced_once`: what the Sync Interests of a run carry
-/

namespace Svs

open VersionVector

namespace PubSub

variable {cfg : PubSubConfig} {s s' : PubSub}

/-- The event is neither a publication nor a Sync Interest that is sent. -/
def Event.keepsList : Event → Bool
  | .insertMapping _ _ _ _ | .onGetExtraData => false
  | _ => true

theorem notificationMappingList_performs {P : Subscription → Publication → Prop}
    {c : Callback → Publication → Nat} (h : Performs cfg P c s s') :
    s'.notificationMappingList = s.notificationMappingList := by
  obtain ⟨actions, rfl, -, -⟩ := h
  induction actions generalizing s with
  | nil => rfl
  | cons a actions ih => exact ih.trans (apply_mappings a s).1

/-- Only the node's own publications are noted for the next Sync Interest. -/
theorem notificationMappingList_keep {e : UInt64 × Event} (h : e.2.keepsList = true) :
    (s.step cfg e).notificationMappingList = s.notificationMappingList := by
  obtain ⟨now, event⟩ := e
  cases event with
  | insertMapping | onGetExtraData => exact absurd h Bool.false_ne_true
  | subscribe | subscribeToProducer | unsubscribe | onRecvExtraData => rfl
  | update info =>
    show ((s.updateCallbackInternal cfg now info).getD s).notificationMappingList = _
    cases hupdate : s.updateCallbackInternal cfg now info with
    | none => rfl
    | some s' => exact notificationMappingList_performs (performs_updateCallbackInternal hupdate)
  | fetchMapping event =>
    rcases step_fetchMapping_cases cfg now event s with hstep | ⟨info, data, list, -, -, hstep⟩
    · rw [hstep]
      rfl
    · rw [hstep]
      have hkeep := notificationMappingList_performs (performs_processMappings cfg now info.nodeId list.pairs
        false ((s.afterMappingFetcher cfg event).storeMappings info.nodeId list.pairs))
      exact hkeep
  | fetchData | validationFailed | segmentsComplete | segmentsError | blobAnswer =>
    exact notificationMappingList_step rfl

end PubSub

namespace Core

/-- A vector that a timer sends has the node's own entry as the node has it then. -/
theorem own_of_fire {P : Platform} {cfg : Config} {m : Moment} {c : Core} {e : Event}
    (he : e = .start ∨ e = .retx) (hid : cfg.id.isEmpty = false)
    (hlimit : cfg.stateVectorStrategy = .Full ∨ 1 ≤ cfg.maxStateVectorEntries) {vv : VersionVector}
    (hsent : (step P cfg m e c).2 = [.expressInterest vv]) :
    vv.get cfg.id = (step P cfg m e c).1.vv.get cfg.id := by
  have hretx : ∀ c : Core, (retxSyncInterest P cfg m true 0 c).2 = [.expressInterest vv] →
      vv.get cfg.id = (retxSyncInterest P cfg m true 0 c).1.vv.get cfg.id := by
    intro c hsent
    rcases effects_retxSyncInterest P cfg m (c := c) 0 with hnone | ⟨c', hbuilt, hvv⟩
    · rw [hnone] at hsent
      cases hsent
    · rw [hbuilt] at hsent
      obtain rfl := Effect.expressInterest.inj (List.head_eq_of_cons_eq hsent)
      have hown := (knows_buildSyncVector (P := P) (m := m) (c := c') hid hlimit).2
      rw [← UInt64.toNat_inj, ← hvv]
      simpa only [VersionVector.knows, get_wire] using hown
  rcases he with rfl | rfl
  · exact hretx _ hsent
  · exact hretx _ hsent

end Core

namespace Publisher

variable (P : Platform) (cfg : PublisherConfig)

/-- Whatever Interest arrives, the core processes a vector or stays as it is, nothing is sent,
    and what is noted for the next Sync Interest stays. -/
theorem onSyncInterestValidated_cases (m : Moment) (now : UInt64) (interest : SyncInterest) (s : Publisher) :
    (s.onSyncInterestValidated P cfg m now interest).2 = [] ∧
      (s.onSyncInterestValidated P cfg m now interest).1.pubSub.notificationMappingList =
        s.pubSub.notificationMappingList ∧
      ((s.onSyncInterestValidated P cfg m now interest).1.core = s.core ∨
        ∃ vv face, (s.onSyncInterestValidated P cfg m now interest).1.core =
          (Core.processVector P cfg.core m vv face s.core).1) := by
  rw [onSyncInterestValidated, Receiver.onSyncInterestValidated]
  dsimp only
  split
  · exact ⟨rfl, rfl, Or.inl rfl⟩
  · split
    · exact ⟨rfl, rfl, Or.inl rfl⟩
    · split
      · exact ⟨rfl, rfl, Or.inl rfl⟩
      · exact ⟨rfl, rfl, Or.inl rfl⟩
      · next vv _ =>
        rcases Core.effects_receive P cfg.core m s.core vv (interest.incomingFaceId.getD 0) with
          hnone | ⟨info, hreported, -, -⟩
        · simp only [hnone, perform]
          exact ⟨trivial, trivial, Or.inr ⟨_, _, rfl⟩⟩
        · simp only [hreported, perform]
          exact ⟨trivial, PubSub.notificationMappingList_keep rfl, Or.inr ⟨_, _, rfl⟩⟩

/-- A mapping is noted where nothing of another node is. -/
theorem notificationMappingList_insert {s : PubSub} {id : NodeID}
    (h : s.notificationMappingList = {} ∨ s.notificationMappingList.nodeId = id) (now : UInt64)
    (seqNo : SeqNo) (name : Name) (additional : List Block) :
    (s.step cfg.pubSub (now, .insertMapping id seqNo name additional)).notificationMappingList =
      { nodeId := id
        pairs := s.notificationMappingList.pairs ++
          [(seqNo, PubSub.insertedMapping cfg.pubSub now name additional)] } := by
  have hnotify : s.notificationMappingList.nodeId = EMPTY_NODE_ID ∨ s.notificationMappingList.nodeId = id := by
    rcases h with h | h
    · rw [h]
      exact Or.inl rfl
    · exact Or.inr h
  exact if_pos hnotify

/-- A run of a node from its start.  It publishes without a prefix; a Sync Interest may carry
    anything.  With the state goes what has been sent, and the mappings of the publications. -/
inductive Run : Publisher → List (List UInt8) → List (SeqNo × MappingEntryPair) → Prop
  | init (uninitialized : Int) (count : UInt32) :
      Run { core := Core.init cfg.core uninitialized, pubSub := { subscriptionCount := count } } [] []
  /-- `publish`; the sequence number does not wrap. -/
  | publish {s : Publisher} {sent : List (List UInt8)} {publications : List (SeqNo × MappingEntryPair)}
      (m : Moment) (call : PublishCall)
      (hwrap : Core.getSeqNo cfg.core cfg.core.id s.core < Core.nextSeqNo cfg.core cfg.core.id s.core) :
      Run s sent publications →
      Run (call.perform cfg m s) sent
        (publications ++ [(Core.nextSeqNo cfg.core cfg.core.id s.core, call.mapping cfg)])
  /-- `publishPacket`. -/
  | publishPacket {s : Publisher} {sent : List (List UInt8)} {publications : List (SeqNo × MappingEntryPair)}
      (m : Moment) (now : UInt64) (data : Data) (mappingBlocks : List Block)
      (hwrap : Core.getSeqNo cfg.core cfg.core.id s.core < Core.nextSeqNo cfg.core cfg.core.id s.core) :
      Run s sent publications →
      Run (publishPacket cfg m now data EMPTY_NODE_ID mappingBlocks s).2 sent
        (publications ++ [(Core.nextSeqNo cfg.core cfg.core.id s.core,
          PubSub.insertedMapping cfg.pubSub now data.name mappingBlocks)])
  /-- A timer fires. -/
  | fire {s : Publisher} {sent : List (List UInt8)} {publications : List (SeqNo × MappingEntryPair)}
      (m : Moment) (now : UInt64) (e : Event) (he : e = .start ∨ e = .retx) :
      Run s sent publications →
      Run (s.fire P cfg m now e).1 (sent ++ (s.fire P cfg m now e).2) publications
  /-- A Sync Interest arrives. -/
  | receive {s : Publisher} {sent : List (List UInt8)} {publications : List (SeqNo × MappingEntryPair)}
      (m : Moment) (now : UInt64) (interest : SyncInterest) :
      Run s sent publications →
      Run (s.onSyncInterestValidated P cfg m now interest).1
        (sent ++ (s.onSyncInterestValidated P cfg m now interest).2) publications
  /-- Something else happens to the pub/sub layer. -/
  | act {s : Publisher} {sent : List (List UInt8)} {publications : List (SeqNo × MappingEntryPair)}
      (e : UInt64 × PubSub.Event) (he : e.2.keepsList = true) :
      Run s sent publications →
      Run { s with pubSub := s.pubSub.step cfg.pubSub e } sent publications

/-- What has been sent carries the mappings of the publications. -/
structure Announced (s : Publisher) (announcements : List (VersionVector × MappingList))
    (publications : List (SeqNo × MappingEntryPair)) : Prop where
  recorded : s.core.RecordedBelow
  pairs : announcements.flatMap (·.2.pairs) ++ s.pubSub.notificationMappingList.pairs = publications
  noted : s.pubSub.notificationMappingList = {} ∨ s.pubSub.notificationMappingList.nodeId = cfg.core.id
  lists : ∀ a ∈ announcements, a.2 = {} ∨ a.2.nodeId = cfg.core.id
  known : ∀ x ∈ publications, x.1 ≤ s.core.vv.get cfg.core.id
  told : ∀ a ∈ announcements, a.1.get cfg.core.id ≤ s.core.vv.get cfg.core.id
  upTo : ∀ k a, announcements[k]? = some a →
    (announcements.take (k + 1)).flatMap (·.2.pairs) = publications.filter (·.1 ≤ a.1.get cfg.core.id)

variable {P cfg} {s s' : Publisher} {announcements : List (VersionVector × MappingList)}
  {publications : List (SeqNo × MappingEntryPair)}

/-- The node's own entry may only grow. -/
theorem Announced.of_core (h : Announced cfg s announcements publications)
    (hlist : s'.pubSub.notificationMappingList = s.pubSub.notificationMappingList)
    (hrecorded : s'.core.RecordedBelow)
    (hle : s.core.vv.get cfg.core.id ≤ s'.core.vv.get cfg.core.id) :
    Announced cfg s' announcements publications where
  recorded := hrecorded
  pairs := by
    rw [hlist]
    exact h.pairs
  noted := by
    rw [hlist]
    exact h.noted
  lists := h.lists
  known x hx := UInt64.le_trans (h.known x hx) hle
  told a ha := UInt64.le_trans (h.told a ha) hle
  upTo := h.upTo

/-- A new publication is noted, and no vector so far tells of it. -/
theorem Announced.insert (h : Announced cfg s announcements publications) {seqNo : SeqNo}
    {mapping : MappingEntryPair} (hnew : s.core.vv.get cfg.core.id < seqNo)
    (hrecorded : s'.core.RecordedBelow) (hown : s'.core.vv.get cfg.core.id = seqNo)
    (hlist : s'.pubSub.notificationMappingList =
      { nodeId := cfg.core.id, pairs := s.pubSub.notificationMappingList.pairs ++ [(seqNo, mapping)] }) :
    Announced cfg s' announcements (publications ++ [(seqNo, mapping)]) where
  recorded := hrecorded
  pairs := by
    rw [hlist, ← List.append_assoc, h.pairs]
  noted := by
    rw [hlist]
    exact Or.inr rfl
  lists := h.lists
  known x hx := by
    rw [hown]
    rcases List.mem_append.mp hx with hx | hx
    · exact UInt64.le_trans (h.known x hx) (UInt64.le_of_lt hnew)
    · rw [List.mem_singleton.mp hx]
      exact UInt64.le_refl _
  told a ha := by
    rw [hown]
    exact UInt64.le_trans (h.told a ha) (UInt64.le_of_lt hnew)
  upTo k a hk := by
    have hlater : ¬seqNo ≤ a.1.get cfg.core.id :=
      UInt64.not_le.mpr (UInt64.lt_of_le_of_lt (h.told a (List.mem_of_getElem? hk)) hnew)
    rw [h.upTo k a hk, List.filter_append, List.filter_singleton]
    simp [hlater]

/-- A Sync Interest takes all that is noted. -/
theorem Announced.send (h : Announced cfg s announcements publications) {vv : VersionVector}
    (hrecorded : s'.core.RecordedBelow) (hvv : s'.core.vv = s.core.vv)
    (hown : vv.get cfg.core.id = s.core.vv.get cfg.core.id)
    (hlist : s'.pubSub.notificationMappingList = {}) :
    Announced cfg s' (announcements ++ [(vv, s.pubSub.notificationMappingList)]) publications where
  recorded := hrecorded
  pairs := by
    rw [hlist, List.flatMap_append, List.flatMap_singleton]
    exact (List.append_nil _).trans h.pairs
  noted := Or.inl hlist
  lists a ha := by
    rcases List.mem_append.mp ha with ha | ha
    · exact h.lists a ha
    · rw [List.mem_singleton.mp ha]
      exact h.noted
  known x hx := by
    rw [hvv]
    exact h.known x hx
  told a ha := by
    rw [hvv]
    rcases List.mem_append.mp ha with ha | ha
    · exact h.told a ha
    · rw [List.mem_singleton.mp ha, hown]
      exact UInt64.le_refl _
  upTo k a hk := by
    by_cases hlt : k < announcements.length
    · rw [List.getElem?_append_left hlt] at hk
      rw [List.take_append_of_le_length hlt]
      exact h.upTo k a hk
    · -- the new one tells of all publications
      have hlength := (List.getElem?_eq_some_iff.mp hk).1
      rw [List.length_append, List.length_singleton] at hlength
      obtain rfl : k = announcements.length := by omega
      rw [List.getElem?_concat_length] at hk
      obtain rfl := Option.some.inj hk
      have hall : publications.filter (·.1 ≤ vv.get cfg.core.id) = publications := by
        rw [List.filter_eq_self]
        intro x hx
        rw [hown]
        exact decide_eq_true (h.known x hx)
      rw [hall, List.take_of_length_le (by simp), List.flatMap_append, List.flatMap_singleton]
      exact h.pairs

/-- Publishing raises the node's own entry to the number it hands out. -/
theorem Announced.publish (h : Announced cfg s announcements publications) {m : Moment} {now : UInt64}
    {name : Name} {additional : List Block}
    (hwrap : Core.getSeqNo cfg.core cfg.core.id s.core < Core.nextSeqNo cfg.core cfg.core.id s.core)
    (hcore : s'.core = (Core.publishData cfg.core m cfg.core.id s.core).1)
    (hpubSub : s'.pubSub = s.pubSub.step cfg.pubSub (now,
      .insertMapping cfg.core.id (Core.nextSeqNo cfg.core cfg.core.id s.core) name additional)) :
    Announced cfg s' announcements (publications ++ [(Core.nextSeqNo cfg.core cfg.core.id s.core,
      PubSub.insertedMapping cfg.pubSub now name additional)]) := by
  rw [Core.getSeqNo, Core.targetNode_self] at hwrap
  rw [Core.publishData, Core.targetNode_self] at hcore
  refine h.insert hwrap ?_ ?_ ?_
  · rw [hcore]
    apply h.recorded.updateSeqNo
    rwa [Core.getSeqNo, Core.targetNode_self]
  · rw [hcore, (Core.updateSeqNo_frame cfg.core m _ _).1, Core.targetNode_self, get_set, if_pos rfl]
  · rw [hpubSub]
    exact notificationMappingList_insert cfg h.noted now _ name additional

/-- A timer sends at most one Sync Interest, with all that is noted. -/
theorem Announced.fire (h : Announced cfg s announcements publications) (hid : cfg.core.id.isEmpty = false)
    (hlimit : cfg.core.stateVectorStrategy = .Full ∨ 1 ≤ cfg.core.maxStateVectorEntries) (m : Moment)
    (now : UInt64) {e : Event} (he : e = .start ∨ e = .retx) :
    ∃ new : List (VersionVector × MappingList),
      (s.fire P cfg m now e).2 = new.map (fun a => applicationParameters a.1 a.2.encode) ∧
      Announced cfg (s.fire P cfg m now e).1 (announcements ++ new) publications := by
  have hrecorded : (Core.step P cfg.core m e s.core).1.RecordedBelow := by
    apply h.recorded.step m e
    rcases he with rfl | rfl <;> trivial
  -- nothing that was recorded is news
  have hvv : (Core.step P cfg.core m e s.core).1.vv = s.core.vv := by
    rcases he with rfl | rfl
    · have hstart : Core.RecordedBelow { s.core with initialized := true } := h.recorded
      exact hstart.retxSyncInterest_vv m 0
    · exact h.recorded.retxSyncInterest_vv m 0
  rcases s.fire_cases P cfg m now he with ⟨-, hfire⟩ | ⟨vv, hsent, -, hfire⟩
  · rw [hfire]
    refine ⟨[], rfl, ?_⟩
    rw [List.append_nil]
    exact h.of_core rfl hrecorded (by rw [hvv]; exact UInt64.le_refl _)
  · have hown := Core.own_of_fire he hid hlimit hsent
    rw [hvv] at hown
    rw [hfire]
    exact ⟨[(vv, s.pubSub.notificationMappingList)], rfl, h.send hrecorded hvv hown rfl⟩

/-- What arrives can only raise the node's own entry. -/
theorem Announced.receive (h : Announced cfg s announcements publications) (m : Moment) (now : UInt64)
    (interest : SyncInterest) :
    Announced cfg (s.onSyncInterestValidated P cfg m now interest).1 announcements publications := by
  obtain ⟨-, hlist, hcore⟩ := s.onSyncInterestValidated_cases P cfg m now interest
  rcases hcore with hcore | ⟨vv, face, hcore⟩
  · apply h.of_core hlist
    · rw [hcore]
      exact h.recorded
    · rw [hcore]
      exact UInt64.le_refl _
  · apply h.of_core hlist
    · rw [hcore]
      exact h.recorded.processVector m vv face
    · rw [hcore]
      exact h.recorded.get_le_step (P := P) m (e := .syncInterest vv face) (by simp) _

/-- In a run of a node, whatever it receives, the Sync Interests that it has sent carry the
    mappings of its publications in their order, each once, and what they do not carry is noted
    for the next one.  Up to the Interest with a vector, they carry the mappings of just those
    publications that the vector tells of. -/
theorem announced_once (hid : cfg.core.id.isEmpty = false)
    (hlimit : cfg.core.stateVectorStrategy = .Full ∨ 1 ≤ cfg.core.maxStateVectorEntries)
    {sent : List (List UInt8)} (h : Run P cfg s sent publications) :
    ∃ announcements : List (VersionVector × MappingList),
      sent = announcements.map (fun a => applicationParameters a.1 a.2.encode) ∧
      (∀ a ∈ announcements, a.2 = {} ∨ a.2.nodeId = cfg.core.id) ∧
      announcements.flatMap (·.2.pairs) ++ s.pubSub.notificationMappingList.pairs = publications ∧
      ∀ k a, announcements[k]? = some a → (announcements.take (k + 1)).flatMap (·.2.pairs) =
        publications.filter (·.1 ≤ a.1.get cfg.core.id) := by
  have hannounced : ∃ announcements : List (VersionVector × MappingList),
      sent = announcements.map (fun a => applicationParameters a.1 a.2.encode) ∧
      Announced cfg s announcements publications := by
    -- the lists that were encoded are not in the state: the run is followed with them
    induction h with
    | init uninitialized count =>
      refine ⟨[], rfl, ?_⟩
      exact
        { recorded := Core.recordedBelow_init cfg.core uninitialized
          pairs := rfl
          noted := Or.inl rfl
          lists := fun a ha => absurd ha List.not_mem_nil
          known := fun x hx => absurd hx List.not_mem_nil
          told := fun a ha => absurd ha List.not_mem_nil
          upTo := fun k a hk => absurd (List.mem_of_getElem? hk) List.not_mem_nil }
    | @publish s sent publications m call hwrap _ ih =>
      obtain ⟨announcements, rfl, ih⟩ := ih
      obtain ⟨put, hperform⟩ := call.perform_eq cfg m s
      refine ⟨announcements, rfl, ?_⟩
      rw [hperform]
      exact ih.publish hwrap rfl rfl
    | @publishPacket s sent publications m now data mappingBlocks hwrap _ ih =>
      obtain ⟨announcements, rfl, ih⟩ := ih
      exact ⟨announcements, rfl, ih.publish hwrap rfl rfl⟩
    | @fire s sent publications m now e he _ ih =>
      obtain ⟨announcements, rfl, ih⟩ := ih
      obtain ⟨new, hnew, hfire⟩ := ih.fire (P := P) hid hlimit m now he
      refine ⟨announcements ++ new, ?_, hfire⟩
      rw [hnew, List.map_append]
    | @receive s sent publications m now interest _ ih =>
      obtain ⟨announcements, rfl, ih⟩ := ih
      rw [(s.onSyncInterestValidated_cases P cfg m now interest).1, List.append_nil]
      exact ⟨announcements, rfl, ih.receive m now interest⟩
    | @act s sent publications e he _ ih =>
      obtain ⟨announcements, rfl, ih⟩ := ih
      exact ⟨announcements, rfl, ih.of_core (PubSub.notificationMappingList_keep he) ih.recorded
        (UInt64.le_refl _)⟩
  obtain ⟨announcements, hsent, hannounced⟩ := hannounced
  exact ⟨announcements, hsent, hannounced.lists, hannounced.pairs, hannounced.upTo⟩

/-- `/a` publishes before its first Sync Interest, and again after it. -/
theorem announced_once_twice :
    ∃ s publications, Run .plain (Group.duo 0) s [Group.duoInterest] publications ∧
      publications.map (·.1) = [1, 2] ∧
      ∃ announcements : List (VersionVector × MappingList), announcements.length = 1 ∧
        announcements.flatMap (·.2.pairs) ++ s.pubSub.notificationMappingList.pairs = publications := by
  have hinit : Run .plain (Group.duo 0) _ [] [] := .init 0 0
  have hrun := (((hinit.publish (.atMs 1) Group.duoCall (by decide)).fire (.atMs 40000) 0 .start
    (Or.inl rfl)).publish (.atMs 40001) Group.duoCall (by decide +kernel))
  have hsent : [] ++ ((Group.duoCall.perform (Group.duo 0) (.atMs 1)
      { core := Core.init (Group.duo 0).core 0, pubSub := { subscriptionCount := 0 } }).fire .plain
      (Group.duo 0) (.atMs 40000) 0 .start).2 = [Group.duoInterest] := by
    decide +kernel
  rw [hsent] at hrun
  obtain ⟨announcements, hmap, -, hpairs, -⟩ := announced_once (by decide) (by decide) hrun
  refine ⟨_, _, hrun, by decide +kernel, announcements, ?_, hpairs⟩
  have hlength := congrArg List.length hmap
  rw [List.length_map] at hlength
  exact hlength.symm

end Publisher

end Svs
