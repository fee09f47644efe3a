import Svs.Spec.LocalMappings
import Svs.Spec.MappingFetch
import Svs.Spec.Parcels

/-!
# What a node knows about mappings

Mappings come to a node from its own publications, in the extra data of Sync Interests and in
replies to its queries.  As long as all of these say what publications are mapped to, so does
the node: in its store, in the list for its next Sync Interest, and in its own replies.

## Key results

- `Charted.step`: every step keeps to the mappings
- `OfStore.onMappingQuery`: what a node that keeps to them replies
-/

namespace Svs

open Std

/-- The loop of a query makes a round at least. -/
theorem MissingDataInfo.low_le_max (info : MissingDataInfo) : info.low ≤ max info.high info.low := by
  show info.low ≤ if info.high ≤ info.low then info.low else info.high
  split
  · exact UInt64.le_refl _
  · next hlt => exact UInt64.le_of_lt (UInt64.not_le.mp hlt)

/-- What publications are mapped to.  On the way a mapping may have its blocks reversed. -/
structure Atlas where
  ids : Set NodeID
  maps : Publication → MappingEntryPair → Prop
  id_valid : ∀ nid ∈ ids, nid.Valid
  id_ne : ∀ nid ∈ ids, nid ≠ EMPTY_NODE_ID
  nodeId : ∀ p mapping, maps p mapping → p.nodeId ∈ ids
  name_valid : ∀ p mapping, maps p mapping → mapping.name.Valid
  types : ∀ p mapping, maps p mapping → ∀ b ∈ mapping.blocks, 0 < b.type ∧ b.type < 2 ^ 32
  reverse : ∀ p mapping, maps p mapping → maps p { mapping with blocks := mapping.blocks.reverse }

namespace Atlas

variable {A : Atlas}

/-- The store keeps to the mappings. -/
def OfStore (A : Atlas) (store : MappingStore) : Prop :=
  ∀ p mapping, store.getMapping p = some mapping → A.maps p mapping

/-- The list keeps to the mappings. -/
structure OfList (A : Atlas) (list : MappingList) : Prop where
  nodeId : list.nodeId.Valid
  pairs : ∀ x ∈ list.pairs, A.maps ⟨list.nodeId, x.1⟩ x.2

theorem OfList.mirror {list : MappingList} (h : A.OfList list) : A.OfList list.mirror where
  nodeId := h.nodeId
  pairs x hx := by
    rw [MappingList.mirror, List.mem_reverse, List.mem_map] at hx
    obtain ⟨y, hy, rfl⟩ := hx
    exact A.reverse _ _ (h.pairs y hy)

theorem OfList.encodable {list : MappingList} (h : A.OfList list) (hlength : list.encode.length < 2 ^ 64) :
    list.Encodable where
  nodeId := h.nodeId
  names x hx := A.name_valid _ _ (h.pairs x hx)
  types x hx := A.types _ _ (h.pairs x hx)
  length_lt := hlength

theorem ofStore_empty (A : Atlas) : A.OfStore ∅ := by
  intro p mapping h
  simp [MappingStore.getMapping] at h

theorem OfStore.insertMapping {store : MappingStore} (h : A.OfStore store) {nid : NodeID} {seqNo : SeqNo}
    {entry : MappingEntryPair} (hentry : A.maps ⟨nid, seqNo⟩ entry) :
    A.OfStore (store.insertMapping .packetFormat nid seqNo entry) := by
  intro p mapping hp
  rw [MappingStore.getMapping_insertMapping] at hp
  split at hp
  · next heq =>
    rw [heq, ← Option.some.inj hp]
    exact hentry
  · exact h p mapping hp

theorem mem_of_firstEntry {pairs : List (SeqNo × MappingEntryPair)} {seqNo : SeqNo}
    {mapping : MappingEntryPair} (h : MappingList.firstEntry pairs seqNo = some mapping) :
    (seqNo, mapping) ∈ pairs := by
  obtain ⟨x, hfind, rfl⟩ := Option.map_eq_some_iff.mp h
  obtain rfl : x.1 = seqNo := by simpa using List.find?_some hfind
  exact List.mem_of_find?_eq_some hfind

/-- Extra data that keeps to the mappings. -/
theorem OfStore.onRecvExtraData {store : MappingStore} (h : A.OfStore store) {list : MappingList}
    (hlist : A.OfList list) (hencodable : list.Encodable) :
    A.OfStore (store.onRecvExtraData .packetFormat (MappingList.listBlock list)) := by
  intro p mapping hp
  rw [MappingStore.getMapping_onRecvExtraData, MappingList.decode_listBlock hencodable] at hp
  rcases Option.or_eq_some_iff.mp hp with hp | ⟨-, hp⟩
  · rw [Option.ite_none_right_eq_some] at hp
    obtain ⟨hnode, hlast⟩ := hp
    have hmem := mem_of_firstEntry hlast
    have hmaps := hlist.mirror.pairs _ (List.mem_reverse.mp hmem)
    rwa [hnode] at hmaps
  · exact h p mapping hp

/-- A reply that keeps to the mappings. -/
theorem OfStore.addMappings {store : MappingStore} (h : A.OfStore store) {nid : NodeID}
    {pairs : List (SeqNo × MappingEntryPair)} (hpairs : ∀ x ∈ pairs, A.maps ⟨nid, x.1⟩ x.2) :
    A.OfStore (store.addMappings nid pairs) := by
  intro p mapping hp
  rw [MappingStore.getMapping_addMappings] at hp
  rcases Option.or_eq_some_iff.mp hp with hp | ⟨-, hp⟩
  · exact h p mapping hp
  · rw [Option.ite_none_right_eq_some] at hp
    obtain ⟨rfl, hfirst⟩ := hp
    exact hpairs _ (mem_of_firstEntry hfirst)

/-- A response holds what the store has. -/
theorem OfStore.onMappingQuery {store : MappingStore} (h : A.OfStore store) {query : MissingDataInfo}
    {response : MappingList} (hresponse : store.onMappingQuery query = some response) :
    response.nodeId = query.nodeId ∧ ∀ x ∈ response.pairs, A.maps ⟨query.nodeId, x.1⟩ x.2 := by
  obtain ⟨r, hrun, hrest⟩ := Option.bind_eq_some_iff.mp hresponse
  obtain ⟨list, hlist, hrest⟩ := Option.bind_eq_some_iff.mp hrest
  obtain rfl : list = response := by
    split at hrest
    · cases hrest
    · exact Option.some.inj hrest
  refine (Loop.run_invariant (I := fun x => ∀ list, x.2 = some list → list.nodeId = query.nodeId ∧
    ∀ y ∈ list.pairs, A.maps ⟨query.nodeId, y.1⟩ y.2) hrun ?_ ?_).1 list hlist
  · intro list hlist
    obtain rfl := Option.some.inj hlist
    exact ⟨rfl, fun y hy => absurd hy List.not_mem_nil⟩
  · -- a round appends the mapping that the store has
    intro x y hx hround list hlist
    obtain ⟨i, response⟩ := x
    obtain ⟨j, response'⟩ := y
    cases response with
    | none => cases hround
    | some response =>
      rw [MappingStore.onMappingQueryRound] at hround
      split at hround
      · split at hround
        · next mapping hmapping =>
          obtain ⟨-, heq⟩ := Prod.mk.inj (Option.some.inj hround)
          obtain rfl := Option.some.inj (heq.trans hlist)
          obtain ⟨hnode, hpairs⟩ := hx response rfl
          refine ⟨hnode, fun y hy => ?_⟩
          rcases List.mem_append.mp hy with hy | hy
          · exact hpairs y hy
          · rw [List.mem_singleton.mp hy]
            exact h _ _ hmapping
        · obtain ⟨-, heq⟩ := Prod.mk.inj (Option.some.inj hround)
          cases heq.trans hlist
      · cases hround

/-- The Data answers the query out of a store that keeps to the mappings. -/
def Replies (A : Atlas) (query : MissingDataInfo) (data : Data) : Prop :=
  query.nodeId ∈ A.ids ∧ ∃ (store : MappingStore) (response : MappingList), A.OfStore store ∧
    store.onMappingQuery query = some response ∧ response.encode.length < 2 ^ 64 ∧
      data.content = response.encode

theorem Replies.response {query : MissingDataInfo} {data : Data} (h : A.Replies query data) :
    PubSub.IsReply query data ∧ ∃ list, PubSub.mappingListOf data = some list ∧
      ∀ x ∈ list.pairs, A.maps ⟨query.nodeId, x.1⟩ x.2 := by
  obtain ⟨hid, store, response, hstore, hresponse, hlength, hcontent⟩ := h
  obtain ⟨hnode, hpairs⟩ := hstore.onMappingQuery hresponse
  have hlist : A.OfList response := by
    constructor
    · rw [hnode]
      exact A.id_valid _ hid
    · rw [hnode]
      exact hpairs
  have hencodable := hlist.encodable hlength
  refine ⟨⟨store, response, hresponse, hencodable, hcontent⟩, response.mirror, ?_, ?_⟩
  · simp [PubSub.mappingListOf, hcontent, MappingList.blockFromValue_encode hencodable,
      MappingList.decode_listBlock hencodable, Except.toOption]
  · have hmirror := hlist.mirror.pairs
    rw [← hnode]
    exact hmirror

end Atlas

namespace PubSub

variable {A : Atlas} {s s' : PubSub} {cfg : PubSubConfig}

/-- A node that keeps to the mappings, and asks for those of the nodes only. -/
structure Charted (A : Atlas) (s : PubSub) : Prop where
  registered : Registered s
  mappings : A.OfStore s.mappings
  notifications : A.OfList s.notificationMappingList
  asked : ∀ info ∈ s.mappingFetcher.outstanding, info.nodeId ∈ A.ids
  vouched : s.mappingFetcher.Vouched A.Replies

/-- What the event brings keeps to the mappings. -/
def Informs (A : Atlas) (cfg : PubSubConfig) (e : UInt64 × Event) (s : PubSub) : Prop :=
  match e.2 with
  | .insertMapping nid seqNo name additional =>
    nid.Valid ∧ A.maps ⟨nid, seqNo⟩ (insertedMapping cfg e.1 name additional)
  | .onRecvExtraData block =>
    ∃ list, block = MappingList.listBlock list ∧ list.Encodable ∧ A.OfList list
  | .update info => ∀ stream ∈ info, stream.nodeId ∈ A.ids
  | .fetchMapping event => s.mappingFetcher.Brings A.Replies event
  | _ => True

theorem charted_init (A : Atlas) (count : UInt32) : Charted A { subscriptionCount := count } where
  registered := registered_init count
  mappings := A.ofStore_empty
  notifications := by
    constructor
    · rintro c ⟨⟩
    · rintro x ⟨⟩
  asked := by
    rintro info hinfo
    exact absurd hinfo (Multiset.notMem_zero info)
  vouched := by rintro x ⟨⟩

theorem Charted.of_eq (h : Charted A s) (hreg : Registered s') (hmappings : s'.mappings = s.mappings)
    (hlist : s'.notificationMappingList = s.notificationMappingList)
    (hfetcher : s'.mappingFetcher = s.mappingFetcher) : Charted A s' := by
  refine ⟨hreg, ?_, ?_, ?_, ?_⟩
  · rw [hmappings]
    exact h.mappings
  · rw [hlist]
    exact h.notifications
  · rw [hfetcher]
    exact h.asked
  · rw [hfetcher]
    exact h.vouched

/-- An action keeps the list and what is being validated, and requests what it says. -/
theorem apply_mappings (a : Action) (s : PubSub) :
    (a.apply cfg s).notificationMappingList = s.notificationMappingList ∧
      (a.apply cfg s).mappingFetcher.validating = s.mappingFetcher.validating ∧
      ∀ info ∈ (a.apply cfg s).mappingFetcher.outstanding,
        info ∈ s.mappingFetcher.outstanding ∨ a = .fetchNameMapping info := by
  cases a with
  | fetchNameMapping info =>
    refine ⟨rfl, Fetcher.validating_expressInterest .., ?_⟩
    intro info' hinfo
    rw [Action.apply, fetchNameMapping, Fetcher.outstanding_expressInterest, Multiset.mem_add,
      Multiset.mem_singleton] at hinfo
    rcases hinfo with rfl | hinfo
    · exact Or.inr rfl
    · exact Or.inl hinfo
  | fetchOne p =>
    rw [Action.apply, fetchOne]
    split <;> exact ⟨rfl, rfl, fun _ h => Or.inl h⟩
  | _ => exact ⟨rfl, rfl, fun _ h => Or.inl h⟩

/-- Actions that give chances for the nodes only request the mappings of the nodes only. -/
theorem Charted.performs {P : Subscription → Publication → Prop} {c : Callback → Publication → Nat}
    (h : Charted A s) (hp : Performs cfg P c s s')
    (hc : ∀ cb p, 0 < c cb p → p.nodeId ∈ A.ids) : Charted A s' := by
  have hreg := hp.frame.registered h.registered
  have hmappings := hp.frame.mappings
  obtain ⟨actions, rfl, -, hcount⟩ := hp
  have hcount := hcount h.registered
  -- a request gives a chance for the first number that it asks for
  have hids : ∀ info, .fetchNameMapping info ∈ actions → info.nodeId ∈ A.ids := by
    intro info hmem
    apply hc ⟨0, false⟩ ⟨info.nodeId, info.low⟩
    apply Nat.lt_of_lt_of_le _ (hcount _ _)
    apply List.countP_pos_iff.mpr ⟨_, hmem, _⟩
    rw [Action.gives, decide_eq_true_eq]
    exact ⟨rfl, rfl, UInt64.le_refl _, info.low_le_max⟩
  have hrest : ∀ (l : List Action) (a : PubSub), (∀ x ∈ l, x ∈ actions) →
      a.notificationMappingList = s.notificationMappingList ∧
        a.mappingFetcher.validating = s.mappingFetcher.validating ∧
        (∀ info ∈ a.mappingFetcher.outstanding, info.nodeId ∈ A.ids) →
      (perform cfg l a).notificationMappingList = s.notificationMappingList ∧
        (perform cfg l a).mappingFetcher.validating = s.mappingFetcher.validating ∧
        ∀ info ∈ (perform cfg l a).mappingFetcher.outstanding, info.nodeId ∈ A.ids := by
    intro l
    induction l with
    | nil => exact fun a _ ha => ha
    | cons x l ih =>
      intro a hl ha
      refine ih (x.apply cfg a) (fun y hy => hl y (List.mem_cons_of_mem _ hy)) ?_
      obtain ⟨hlist, hvalidating, hasked⟩ := apply_mappings x a
      refine ⟨hlist.trans ha.1, hvalidating.trans ha.2.1, fun info hinfo => ?_⟩
      rcases hasked info hinfo with hinfo | rfl
      · exact ha.2.2 info hinfo
      · exact hids info (hl _ List.mem_cons_self)
  obtain ⟨hlist, hvalidating, hasked⟩ := hrest actions s (fun _ h => h) ⟨rfl, rfl, h.asked⟩
  refine ⟨hreg, ?_, ?_, hasked, ?_⟩
  · rw [hmappings]
    exact h.mappings
  · rw [hlist]
    exact h.notifications
  · intro x hx
    rw [hvalidating] at hx
    exact h.vouched x hx

/-- A step of the mapping fetcher asks for nothing new. -/
theorem asked_step (cfg : PubSubConfig) (event : FetchEvent Data) (s : PubSub) {info : MissingDataInfo}
    (h : info ∈ (s.mappingFetcher.step cfg.securityOptions event).1.outstanding) :
    info ∈ s.mappingFetcher.outstanding := by
  rw [s.mappingFetcher.outstanding_step cfg.securityOptions event]
  exact Multiset.mem_add.mpr (Or.inr h)

theorem Charted.fetchMapping (h : Charted A s) (now : UInt64) {event : FetchEvent Data}
    (hbrings : s.mappingFetcher.Brings A.Replies event) :
    Charted A (s.step cfg (now, .fetchMapping event)) := by
  have hfetched : Charted A (s.afterMappingFetcher cfg event) :=
    ⟨h.registered.of_eq rfl rfl rfl, h.mappings, h.notifications,
      fun info hinfo => h.asked info (asked_step cfg event s hinfo), h.vouched.step hbrings⟩
  rcases step_fetchMapping_cases cfg now event s with hstep | ⟨info, data, list, hended, hlist, hstep⟩
  · rw [hstep]
    exact hfetched
  · have hends := (s.mappingFetcher.step_eq_some_iff cfg.securityOptions event _ _).mp hended
    have hreplies := h.vouched.of_ends hbrings hends
    obtain ⟨-, list', hlist', hpairs⟩ := hreplies.response
    obtain rfl := Option.some.inj (hlist.symm.trans hlist')
    have hstored : Charted A ((s.afterMappingFetcher cfg event).storeMappings info.nodeId list.pairs) :=
      ⟨h.registered.of_eq rfl rfl rfl, hfetched.mappings.addMappings hpairs, hfetched.notifications,
        hfetched.asked, hfetched.vouched⟩
    rw [hstep]
    refine hstored.performs (performs_processMappings cfg now info.nodeId list.pairs false _) ?_
    intro cb p hpos
    split at hpos
    · next hnode =>
      rw [← hnode.2]
      exact hreplies.1
    · exact absurd hpos (lt_irrefl 0)

/-- A list that keeps to the mappings takes one more of its node. -/
theorem Charted.insertMapping (h : Charted A s) {now : UInt64} {nid : NodeID} {seqNo : SeqNo} {name : Name}
    {additional : List Block} (hnid : nid.Valid)
    (hmaps : A.maps ⟨nid, seqNo⟩ (insertedMapping cfg now name additional)) :
    Charted A (s.insertMapping cfg now nid seqNo name additional) where
  registered := h.registered.of_eq rfl rfl rfl
  mappings := h.mappings.insertMapping hmaps
  notifications := by
    show A.OfList (if _ then _ else _)
    split
    · next hnotify =>
      refine ⟨hnid, fun x hx => ?_⟩
      rcases List.mem_append.mp hx with hx | hx
      · rcases hnotify with hempty | hsame
        · -- a list without a node has no entries
          exact absurd hempty (A.id_ne _ (A.nodeId _ _ (h.notifications.pairs x hx)))
        · have hpair := h.notifications.pairs x hx
          rwa [hsame] at hpair
      · rw [List.mem_singleton.mp hx]
        exact hmaps
    · exact h.notifications
  asked := h.asked
  vouched := h.vouched

/-- Deliveries leave the list for the next Sync Interest alone. -/
theorem notificationMappingList_step {e : UInt64 × Event} (h : e.2.isDelivery = true) :
    (s.step cfg e).notificationMappingList = s.notificationMappingList := by
  -- nothing has to be known about the tasks and the calls
  let O : Origin := ⟨fun _ => False, fun _ _ => False, fun p => p.nodeId⟩
  obtain ⟨now, event⟩ := e
  cases event with
  | fetchData event answer =>
    show (onDataOutcome cfg answer _ (s.dataFetcher.step cfg.securityOptions event).2).notificationMappingList = _
    unfold onDataOutcome
    split
    · exact (proceeds_onSyncData (O := O) (fun h => h.elim) answer _).notificationMappingList
    · rfl
  | validationFailed task =>
    rw [PubSub.step]
    dsimp only
    split
    · next p s' htask =>
      exact (proceeds_takeTask (T := fun _ => True) (C := fun _ _ => True) htask).1.notificationMappingList
    · rfl
  | segmentsComplete task data answers =>
    rw [PubSub.step]
    dsimp only
    split
    · next p pubName s' htask =>
      have htaken := (proceeds_takeTask (T := fun _ => True) (C := fun _ _ => True) htask).1
      exact (proceeds_onComplete (O := O) (fun h => h.elim) (fun h => h.elim) s').notificationMappingList.trans
        htaken.notificationMappingList
    · rfl
  | segmentsError task =>
    rw [PubSub.step]
    dsimp only
    split
    · next p pubName s' htask =>
      exact (proceeds_takeTask (T := fun _ => True) (C := fun _ _ => True) htask).1.notificationMappingList
    · rfl
  | blobAnswer task accepted =>
    rw [PubSub.step]
    dsimp only
    split
    · next b s' htask =>
      have htaken := (proceeds_takeTask (T := fun _ => True) (C := fun _ _ => True) htask).1
      have hanswered : ∀ b' : Blob, O.Awaits cfg (.blob b') := fun _ h => h.elim
      exact ((proceeds_sendFinalBuffer (hanswered _) s').trans
        (proceeds_keepBlob (hanswered _) _)).notificationMappingList.trans htaken.notificationMappingList
    · rfl
  | _ => exact absurd h Bool.false_ne_true

/-- Deliveries leave alone what a node knows about mappings. -/
theorem Charted.delivers {e : UInt64 × Event} (h : Charted A s) (he : e.2.isDelivery = true) :
    Charted A (s.step cfg e) := by
  have hdelivers : Delivers s (s.step cfg e) := delivers_step he
  exact h.of_eq (hdelivers.registered h.registered) hdelivers.mappings (notificationMappingList_step he)
    hdelivers.mappingFetcher

/-- Every step keeps to the mappings. -/
theorem Charted.step {e : UInt64 × Event} (h : Charted A s) (hinforms : Informs A cfg e s) :
    Charted A (s.step cfg e) := by
  obtain ⟨now, event⟩ := e
  cases event with
  | subscribe pref packets => exact h.of_eq (registered_subscribe h.registered pref packets) rfl rfl rfl
  | subscribeToProducer nodePrefix prefetch packets =>
    exact h.of_eq (registered_subscribeToProducer h.registered nodePrefix prefetch packets) rfl rfl rfl
  | unsubscribe handle => exact h.of_eq (registered_unsubscribe h.registered handle) rfl rfl rfl
  | insertMapping nid seqNo name additional => exact h.insertMapping hinforms.1 hinforms.2
  | onGetExtraData =>
    exact ⟨h.registered.of_eq rfl rfl rfl, h.mappings, (charted_init A 0).notifications, h.asked, h.vouched⟩
  | onRecvExtraData block =>
    obtain ⟨list, rfl, hencodable, hlist⟩ := hinforms
    exact ⟨h.registered.of_eq rfl rfl rfl, h.mappings.onRecvExtraData hlist hencodable, h.notifications,
      h.asked, h.vouched⟩
  | update info =>
    rcases step_update_cases cfg now info s with hstep | ⟨s', hupdate, hstep⟩
    · rw [hstep]
      exact h
    · rw [hstep]
      apply h.performs (performs_updateCallbackInternal hupdate)
      intro _ p hpos
      obtain ⟨stream, hstream, hcovers⟩ := List.countP_pos_iff.mp hpos
      rw [← (of_decide_eq_true hcovers).1]
      exact hinforms stream hstream
  | fetchMapping event => exact h.fetchMapping now hinforms
  | _ => exact h.delivers rfl

/-- With more publications the same is true. -/
theorem Charted.mono {A' : Atlas} (h : Charted A s) (hids : A'.ids = A.ids)
    (hmaps : ∀ p mapping, A.maps p mapping → A'.maps p mapping) : Charted A' s where
  registered := h.registered
  mappings p mapping hp := hmaps p mapping (h.mappings p mapping hp)
  notifications := ⟨h.notifications.nodeId, fun x hx => hmaps _ _ (h.notifications.pairs x hx)⟩
  asked info hinfo := by
    rw [hids]
    exact h.asked info hinfo
  vouched x hx := by
    obtain ⟨hid, store, response, hstore, hrest⟩ := h.vouched x hx
    rw [← hids] at hid
    exact ⟨hid, store, response, fun p mapping hp => hmaps p mapping (hstore p mapping hp), hrest⟩

end PubSub

end Svs
