import Svs.Spec.QueueServed
import Svs.Spec.QueuedOnce

/-!
# Each callback is called at most once for a publication

## Key results

- `QueueInv.step`: one step keeps the chances within the reports, and the queue matching
- `called_once_matching`: what that says about the calls in a run
-/

namespace Svs

open Std Delivery

namespace PubSub

variable {M : Publication → Name → Prop} {N : Publication → Nat} {s s' : PubSub} {cfg : PubSubConfig}
  {e : UInt64 × Event}

/-- The streams that the core reports with an event. -/
def Event.reports : Event → List MissingDataInfo
  | .update info => info
  | _ => []

/-- A mapping reply that is processed answers the query. -/
def Answers (cfg : PubSubConfig) (e : UInt64 × Event) (s : PubSub) : Prop :=
  ∀ event info data, e.2 = .fetchMapping event →
    s.mappingFetcher.Ends cfg.securityOptions event info (.satisfied data) → IsReply info data

/-- The subscription's prefix is one of the producer's name, or of a name that the
    publication is mapped to. -/
def Matched (M : Publication → Name → Prop) (sub : Subscription) (p : Publication) : Prop :=
  if sub.callback.toProducer then sub.pref.isPrefixOf p.nodeId = true
  else ∃ name, M p name ∧ sub.pref.isPrefixOf name = true

/-- The names in the store are among those that publications are mapped to. -/
def Names (M : Publication → Name → Prop) (mappings : MappingStore) : Prop :=
  ∀ p mapping, mappings.getMapping p = some mapping → M p mapping.name

/-- Each callback has at most `N` chances, and whoever has been queued matches. -/
structure QueueInv (M : Publication → Name → Prop) (N : Publication → Nat) (s : PubSub) : Prop where
  registered : Registered s
  chances_le : ∀ cb p, s.chances cb p ≤ N p
  matched : ∀ sub p, .queued sub p ∈ s.log → Matched M sub p

theorem matched_of_wants {now : UInt64} (hreg : Registered s) (hM : Names M s.mappings)
    {sub : Subscription} {p : Publication} (hsub : sub ∈ s.prefixSubscriptions)
    (h : Wants cfg now s.mappings p sub) : Matched M sub p := by
  obtain ⟨mapping, hmapping, -, hpref⟩ := h
  have hnot : ¬sub.callback.toProducer = true := by
    rw [(hreg.pref sub hsub).1]
    exact Bool.false_ne_true
  rw [Matched, if_neg hnot]
  exact ⟨mapping.name, hM p mapping hmapping, hpref⟩

theorem matched_of_joins {now : UInt64} (hreg : Registered s) (hM : Names M s.mappings)
    {sub : Subscription} {p : Publication} (h : Joins cfg now s p sub) : Matched M sub p := by
  rcases h with ⟨hsub, hpref⟩ | ⟨hsub, hwants⟩
  · rw [Matched, if_pos (hreg.producer sub hsub).1]
    exact hpref
  · exact matched_of_wants hreg hM hsub hwants

/-! ## Steps -/

theorem QueueInv.mono {N' : Publication → Nat} (h : QueueInv M N s) (hN : ∀ p, N p ≤ N' p) :
    QueueInv M N' s :=
  ⟨h.registered, fun cb p => (h.chances_le cb p).trans (hN p), h.matched⟩

/-- Actions that queue whom an update would queue keep the invariant. -/
theorem QueueInv.performs {now : UInt64} {Q : Publication → Prop} {d : Publication → Nat}
    (h : QueueInv M N s)
    (hperforms : Performs cfg (fun sub p => Q p ∧ Joins cfg now s p sub) (fun _ p => d p) s s')
    (hM : Names M s.mappings) : QueueInv M (fun p => N p + d p) s' where
  registered := hperforms.frame.registered h.registered
  chances_le cb p :=
    (hperforms.chances_le h.registered cb p).trans (Nat.add_le_add_right (h.chances_le cb p) _)
  matched sub p hmem := (hperforms.queued hmem).elim (h.matched sub p)
    fun hqueued => matched_of_joins h.registered hM hqueued.2

theorem QueueInv.quiet (h : QueueInv M N s) (hq : Quiet s s') : QueueInv M N s' where
  registered := hq.registered h.registered
  chances_le cb p := (hq.chances_eq cb p).trans_le (h.chances_le cb p)
  matched sub p hmem := h.matched sub p (hq.queued hmem)

/-- Other subscriptions, or another store, as long as the callbacks are kept apart. -/
theorem QueueInv.of_registered (h : QueueInv M N s) (hlog : s'.log = s.log)
    (hfetcher : s'.mappingFetcher = s.mappingFetcher) (hreg : Registered s') : QueueInv M N s' where
  registered := hreg
  chances_le cb p := by
    rw [chances, asked, hlog, hfetcher]
    exact h.chances_le cb p
  matched sub p hmem := h.matched sub p (hlog ▸ hmem)

/-- A new callback is none of those registered before. -/
theorem nodup_callbacks_append {subs : List Subscription} {n : Nat} {sub : Subscription}
    (hnodup : (subs.map (·.callback)).Nodup) (hlt : ∀ x ∈ subs, x.callback.registration < n)
    (hsub : sub.callback.registration = n) : ((subs ++ [sub]).map (·.callback)).Nodup := by
  rw [List.map_append, List.map_singleton, List.nodup_append]
  refine ⟨hnodup, List.nodup_singleton _, ?_⟩
  rintro cb hcb _ hmem rfl
  -- the callbacks before have smaller numbers
  obtain ⟨x, hx, rfl⟩ := List.mem_map.mp hcb
  rw [List.mem_singleton] at hmem
  have := hlt x hx
  rw [hmem, hsub] at this
  exact lt_irrefl n this

theorem registered_subscribe (h : Registered s) (pref : Name) (packets : Bool) :
    Registered (s.subscribe pref packets) where
  producer sub hsub := (h.producer sub hsub).imp_right Nat.lt_succ_of_lt
  pref sub hsub := by
    rw [subscribe, List.mem_append, List.mem_singleton] at hsub
    rcases hsub with hsub | rfl
    · exact (h.pref sub hsub).imp_right Nat.lt_succ_of_lt
    · exact ⟨rfl, Nat.lt_succ_self _⟩
  producer_nodup := h.producer_nodup
  prefix_nodup := nodup_callbacks_append h.prefix_nodup (fun x hx => (h.pref x hx).2) rfl

theorem registered_subscribeToProducer (h : Registered s) (nodePrefix : Name) (prefetch packets : Bool) :
    Registered (s.subscribeToProducer nodePrefix prefetch packets) where
  producer sub hsub := by
    rw [subscribeToProducer, List.mem_append, List.mem_singleton] at hsub
    rcases hsub with hsub | rfl
    · exact (h.producer sub hsub).imp_right Nat.lt_succ_of_lt
    · exact ⟨rfl, Nat.lt_succ_self _⟩
  pref sub hsub := (h.pref sub hsub).imp_right Nat.lt_succ_of_lt
  producer_nodup := nodup_callbacks_append h.producer_nodup (fun x hx => (h.producer x hx).2) rfl
  prefix_nodup := h.prefix_nodup

theorem registered_unsubscribe (h : Registered s) (handle : UInt32) :
    Registered (s.unsubscribe handle) where
  producer sub hsub := h.producer sub (List.mem_of_mem_eraseP hsub)
  pref sub hsub := h.pref sub (List.mem_of_mem_eraseP hsub)
  producer_nodup := h.producer_nodup.sublist (List.eraseP_sublist.map _)
  prefix_nodup := h.prefix_nodup.sublist (List.eraseP_sublist.map _)

/-- The event neither registers a subscription nor queues one. -/
def Event.isQuiet : Event → Bool
  | .subscribe _ _ | .subscribeToProducer _ _ _ | .unsubscribe _ | .update _ | .fetchMapping _ => false
  | _ => true

theorem quiet_step (h : e.2.isQuiet = true) : Quiet s (s.step cfg e) := by
  obtain ⟨now, event⟩ := e
  cases event with
  | insertMapping | onGetExtraData | onRecvExtraData => exact quiet_of_eq rfl rfl rfl rfl rfl
  | fetchData | validationFailed | segmentsComplete | segmentsError | blobAnswer =>
    exact (delivers_step rfl).toQuiet
  | _ => exact absurd h Bool.false_ne_true

/-- What a request that ends asked for is not asked for any more. -/
theorem asked_afterMappingFetcher (cfg : PubSubConfig) (event : FetchEvent Data) (s : PubSub)
    (p : Publication) :
    s.asked p = (s.afterMappingFetcher cfg event).asked p +
      (Fetcher.ended (s.mappingFetcher.step cfg.securityOptions event).2).countP (·.Asks p) := by
  have houtstanding := s.mappingFetcher.outstanding_step cfg.securityOptions event
  rw [asked, houtstanding, Multiset.countP_add, Nat.add_comm]
  rfl

theorem QueueInv.afterMappingFetcher (h : QueueInv M N s) (event : FetchEvent Data) :
    QueueInv M N (s.afterMappingFetcher cfg event) where
  registered := h.registered.of_eq rfl rfl rfl
  chances_le cb p := by
    have hasked := asked_afterMappingFetcher cfg event s p
    have hle := h.chances_le cb p
    have hlog : (s.afterMappingFetcher cfg event).log = s.log := rfl
    rw [chances] at hle ⊢
    rw [hlog]
    grind
  matched := h.matched

theorem registered_init (count : UInt32) : Registered { subscriptionCount := count } :=
  ⟨nofun, nofun, List.nodup_nil, List.nodup_nil⟩

/-- A step keeps the callbacks apart. -/
theorem registered_step (h : Registered s) : Registered (s.step cfg e) := by
  obtain ⟨now, event⟩ := e
  cases event with
  | subscribe pref packets => exact registered_subscribe h pref packets
  | subscribeToProducer nodePrefix prefetch packets =>
    exact registered_subscribeToProducer h nodePrefix prefetch packets
  | unsubscribe handle => exact registered_unsubscribe h handle
  | update info =>
    rcases step_update_cases cfg now info s with hstep | ⟨s', hupdate, hstep⟩
    · rw [hstep]
      exact h
    · rw [hstep]
      exact (performs_updateCallbackInternal hupdate).frame.registered h
  | fetchMapping event =>
    rcases step_fetchMapping_cases cfg now event s with hstep | ⟨info, data, list, -, -, hstep⟩
    · rw [hstep]
      exact h.of_eq rfl rfl rfl
    · rw [hstep]
      exact (performs_processMappings cfg now info.nodeId list.pairs false _).frame.registered
        (h.of_eq rfl rfl rfl)
  | _ => exact (quiet_step rfl).registered h

/-- A mapping reply that answers its query uses the chances that the request had. -/
theorem QueueInv.fetchMapping (h : QueueInv M N s) (now : UInt64) {event : FetchEvent Data}
    (hanswers : Answers cfg (now, .fetchMapping event) s)
    (hM : Names M (s.step cfg (now, .fetchMapping event)).mappings) :
    QueueInv M N (s.step cfg (now, .fetchMapping event)) := by
  rcases step_fetchMapping_cases cfg now event s with hstep | ⟨info, data, list, hended, hlist, hstep⟩
  · rw [hstep]
    exact h.afterMappingFetcher event
  · have hends := (s.mappingFetcher.step_eq_some_iff cfg.securityOptions event _ _).mp hended
    obtain ⟨list', hlist', hcount⟩ := mappingListOf_reply (hanswers event info data rfl hends)
    obtain rfl : list = list' := Option.some.inj (hlist.symm.trans hlist')
    have hreg : Registered ((s.afterMappingFetcher cfg event).storeMappings info.nodeId list.pairs) :=
      h.registered.of_eq rfl rfl rfl
    have hperforms := performs_processMappings cfg now info.nodeId list.pairs false
      ((s.afterMappingFetcher cfg event).storeMappings info.nodeId list.pairs)
    rw [hstep, hperforms.frame.mappings] at hM
    rw [hstep]
    refine ⟨hperforms.frame.registered hreg, ?_, ?_⟩
    · intro cb p
      -- the request's chance goes, and each entry for the publication brings one
      have hasked := asked_afterMappingFetcher cfg event s p
      rw [hended, Fetcher.ended_some, ← Multiset.cons_zero, Multiset.countP_cons,
        Multiset.countP_zero] at hasked
      have hle := h.chances_le cb p
      have hstep := hperforms.chances_le hreg cb p
      have hbefore :
          chances cb p ((s.afterMappingFetcher cfg event).storeMappings info.nodeId list.pairs) =
          queuedTimes cb p s.log +
            if cb.toProducer then 0 else (s.afterMappingFetcher cfg event).asked p := rfl
      have hnamed := hcount p
      rw [hbefore] at hstep
      rw [chances] at hle
      grind
    · intro sub p hmem
      exact (hperforms.queued hmem).elim (h.matched sub p)
        fun hqueued => matched_of_wants hreg hM hqueued.2.1 hqueued.2.2

/-- One step gives each callback at most as many chances as it reports the publication. -/
theorem QueueInv.step (h : QueueInv M N s) (hanswers : Answers cfg e s)
    (hM : Names M (s.step cfg e).mappings) :
    QueueInv M (fun p => N p + e.2.reports.countP (·.Covers p)) (s.step cfg e) := by
  obtain ⟨now, event⟩ := e
  cases event with
  | subscribe pref packets =>
    exact h.of_registered rfl rfl (registered_subscribe h.registered pref packets)
  | subscribeToProducer nodePrefix prefetch packets =>
    exact h.of_registered rfl rfl
      (registered_subscribeToProducer h.registered nodePrefix prefetch packets)
  | unsubscribe handle => exact h.of_registered rfl rfl (registered_unsubscribe h.registered handle)
  | update info =>
    rcases step_update_cases cfg now info s with hstep | ⟨s', hupdate, hstep⟩
    · rw [hstep]
      exact h.mono fun p => Nat.le_add_right _ _
    · have hperforms := performs_updateCallbackInternal hupdate
      rw [hstep, hperforms.frame.mappings] at hM
      rw [hstep]
      exact h.performs hperforms hM
  | fetchMapping event => exact h.fetchMapping now hanswers hM
  | _ => exact h.quiet (quiet_step rfl)

/-! ## Runs -/

theorem queueInv_init (M : Publication → Name → Prop) (count : UInt32) :
    QueueInv M (fun _ => 0) { subscriptionCount := count } where
  registered := registered_init count
  chances_le cb p := by simp [chances, asked, queuedTimes]
  matched := nofun

theorem QueueInv.run {events : List (UInt64 × Event)} (h : QueueInv M N s)
    (hanswers : Run.Always (PubSub.step cfg) (Answers cfg) events s)
    (hM : Run.Always (PubSub.step cfg) (fun e s => Names M (s.step cfg e).mappings) events s) :
    QueueInv M (fun p => N p + (events.flatMap (·.2.reports)).countP (·.Covers p))
      (Run.state (PubSub.step cfg) events s) := by
  induction events generalizing s N with
  | nil => exact h
  | cons e events ih =>
    refine (ih (h.step hanswers.1 hM.1) hanswers.2 hM.2).mono ?_
    intro p
    rw [List.flatMap_cons, List.countP_append, Nat.add_assoc]

/-- How often the callback has been called for the publication. -/
def calledTimes (cb : Callback) (p : Publication) (log : List Effect) : Nat :=
  log.countP fun
    | .called sub subData =>
      sub.callback = cb ∧ Publication.mk subData.producerPrefix subData.seqNo = p
    | _ => false

theorem calledTimes_eq (cb : Callback) (p : Publication) (log : List Effect) :
    calledTimes cb p log =
      servedCount (fun sub : Subscription => sub.callback = cb) (log.filterMap (Effect.entry p)) := by
  rw [servedCount, List.countP_filterMap, calledTimes]
  congr 1
  funext effect
  cases effect <;> grind [Effect.entry]

theorem queuedTimes_eq (cb : Callback) (p : Publication) (log : List Effect) :
    queuedTimes cb p log =
      queuedCount (fun sub : Subscription => sub.callback = cb) (log.filterMap (Effect.entry p)) := by
  rw [queuedCount, List.countP_filterMap, queuedTimes]
  congr 1
  funext effect
  cases effect <;> grind [Effect.entry]

theorem balanced_run (cfg : PubSubConfig) {p : Publication} (events : List (UInt64 × Event))
    (h : Sound (s.item p) ∧ Balanced (·.isPacketSubscription) (s.item p)) :
    Balanced (·.isPacketSubscription) ((Run.state (step cfg) events s).item p) := by
  induction events generalizing s with
  | nil => exact h.2
  | cons e events ih => exact ih ⟨sound_step h.1, (step_refines cfg p e s).balanced h.1 h.2⟩

/-- The calls of a run are no more than the queueings. -/
theorem served_le_queued (cfg : PubSubConfig) (count : UInt32) (p : Publication)
    (events : List (UInt64 × Event)) (q : Subscription → Bool) :
    servedCount q ((Run.state (step cfg) events { subscriptionCount := count }).log.filterMap
        (Effect.entry p)) ≤
      queuedCount q ((Run.state (step cfg) events { subscriptionCount := count }).log.filterMap
        (Effect.entry p)) := by
  have hinit : Balanced (·.isPacketSubscription) (item p { subscriptionCount := count }) := by
    rw [item_init]
    exact fun _ => le_rfl
  have hbalanced := balanced_run cfg events ⟨sound_init p count, hinit⟩ q
  exact (Nat.le_add_right _ _).trans hbalanced

/-- Whoever has been called had been queued. -/
theorem queued_of_called {count : UInt32} {events : List (UInt64 × Event)} {sub : Subscription}
    {subData : SubscriptionData}
    (h : .called sub subData ∈ (Run.state (step cfg) events { subscriptionCount := count }).log) :
    .queued sub ⟨subData.producerPrefix, subData.seqNo⟩ ∈
      (Run.state (step cfg) events { subscriptionCount := count }).log := by
  have hle := served_le_queued cfg count ⟨subData.producerPrefix, subData.seqNo⟩ events (· = sub)
  -- the call counts as a serving, so there is a queueing to match it
  have hserved : 0 < servedCount (σ := Subscription) (· = sub)
      ((Run.state (step cfg) events { subscriptionCount := count }).log.filterMap
        (Effect.entry ⟨subData.producerPrefix, subData.seqNo⟩)) := by
    rw [servedCount, List.countP_pos_iff]
    refine ⟨.served sub, List.mem_filterMap.mpr ⟨_, h, ?_⟩, by simp⟩
    rw [Effect.entry, if_pos rfl]
  obtain ⟨entry, hentry, hsub⟩ := List.countP_pos_iff.mp (hserved.trans_le hle)
  obtain ⟨effect, heffect, heq⟩ := List.mem_filterMap.mp hentry
  cases entry with
  | queued sub' =>
    obtain rfl : sub' = sub := by simpa using hsub
    -- only queueing makes such an entry
    obtain rfl := Effect.entry_eq_queued_iff.mp heq
    exact heffect
  | served _ => exact absurd hsub Bool.false_ne_true
  | dropped _ => exact absurd hsub Bool.false_ne_true

/-- At some time of the run the store maps the publication to the name. -/
def Mapped (cfg : PubSubConfig) (count : UInt32) (events : List (UInt64 × Event)) (p : Publication)
    (name : Name) : Prop :=
  ∃ before mapping, before <+: events ∧
    (Run.state (step cfg) before { subscriptionCount := count }).mappings.getMapping p = some mapping ∧
      mapping.name = name

theorem names_mapped (cfg : PubSubConfig) (count : UInt32) (events : List (UInt64 × Event)) :
    Run.Always (step cfg) (fun e s => Names (Mapped cfg count events) (s.step cfg e).mappings) events
      { subscriptionCount := count } := by
  rw [Run.always_iff]
  rintro before e after rfl p mapping hmapping
  refine ⟨before ++ [e], mapping, ⟨after, by simp⟩, ?_, rfl⟩
  rw [Run.state_append]
  exact hmapping

/-- In a run in which the core reports each publication at most once, and mapping replies
    answer their queries, each callback is called at most once for each publication.  The
    prefix of a producer subscription that is called is one of the producer's name, and the
    prefix of another one is one of a name that the publication is mapped to. -/
theorem called_once_matching (cfg : PubSubConfig) (count : UInt32) (events : List (UInt64 × Event))
    (hreports : ∀ p, (events.flatMap (·.2.reports)).countP (·.Covers p) ≤ 1)
    (hanswers : Run.Always (step cfg) (Answers cfg) events { subscriptionCount := count }) :
    (∀ cb p,
      calledTimes cb p (Run.state (step cfg) events { subscriptionCount := count }).log ≤ 1) ∧
      ∀ sub subData,
        .called sub subData ∈ (Run.state (step cfg) events { subscriptionCount := count }).log →
          Matched (Mapped cfg count events) sub ⟨subData.producerPrefix, subData.seqNo⟩ := by
  have hinv := (queueInv_init (Mapped cfg count events) count).run hanswers
    (names_mapped cfg count events)
  constructor
  · -- calls are no more than queueings, those than chances, and those than reports
    intro cb p
    have hle := served_le_queued cfg count p events (·.callback = cb)
    rw [← calledTimes_eq, ← queuedTimes_eq] at hle
    have hchances := hinv.chances_le cb p
    have hreport := hreports p
    rw [chances] at hchances
    omega
  · intro sub subData hcalled
    exact hinv.matched sub _ (queued_of_called hcalled)

/-- The mapping of the first publication of `/a` to `/b`. -/
def mappingResponse : MappingList := ⟨.ofBytes [[97]], [(1, ⟨.ofBytes [[98]], []⟩)]⟩

/-- The reply to the query for that mapping. -/
def mappingReply : Data := { name := .ofBytes [[97]], content := mappingResponse.encode }

/-- The node subscribes to `/b`, and gets the mapping of a publication and then its packet. -/
def receivedMapping : List (UInt64 × Event) :=
  [(0, .subscribe (.ofBytes [[98]]) false), (0, .update [⟨.ofBytes [[97]], 1, 1, 0⟩]),
    (0, .fetchMapping (.data 1 mappingReply)), (0, .fetchData (.data 1 (outerPacket packetBlock)) none)]

theorem isReply_mappingReply : IsReply ⟨.ofBytes [[97]], 1, 1, 0⟩ mappingReply := by
  have hencodable : mappingResponse.Encodable :=
    ⟨by decide, by decide, by decide, by decide⟩
  refine ⟨MappingStore.insertMapping .packetFormat (.ofBytes [[97]]) 1 ⟨.ofBytes [[98]], []⟩ ∅,
    mappingResponse, ?_, hencodable, rfl⟩
  decide

/-- A run in which a mapping reply queues a prefix subscription, and the packet arrives. -/
theorem called_once_matching_reply :
    (∀ cb p, calledTimes cb p
      (Run.state (step twoPackets) receivedMapping { subscriptionCount := 0 }).log ≤ 1) ∧
      ∀ sub subData,
        .called sub subData ∈
            (Run.state (step twoPackets) receivedMapping { subscriptionCount := 0 }).log →
          Matched (Mapped twoPackets 0 receivedMapping) sub
            ⟨subData.producerPrefix, subData.seqNo⟩ := by
  apply called_once_matching
  · intro p
    have hreports : receivedMapping.flatMap (·.2.reports) = [⟨.ofBytes [[97]], 1, 1, 0⟩] := rfl
    rw [hreports]
    exact List.countP_le_length
  · refine ⟨nofun, nofun, ?_, nofun, trivial⟩
    intro event info data hevent hends
    obtain rfl := Event.fetchMapping.inj hevent
    rw [← Fetcher.step_eq_some_iff] at hends
    have hended : (Fetcher.step twoPackets.securityOptions (.data 1 mappingReply)
        (Run.state (step twoPackets) (receivedMapping.take 2)
          { subscriptionCount := 0 }).mappingFetcher).2 =
        some (⟨.ofBytes [[97]], 1, 1, 0⟩, .satisfied mappingReply) := by
      decide
    obtain ⟨rfl, hdata⟩ := Prod.mk.inj (Option.some.inj (hended.symm.trans hends))
    obtain rfl := FetchOutcome.satisfied.inj hdata
    exact isReply_mappingReply

end PubSub

end Svs
