import Svs.Spec.FetcherCorrect
import Svs.Spec.StoredMappings
import Svs.Spec.UpdateActions

/-!
# How often a subscription is queued

A callback has had a chance each time that a subscription with it has been queued, and
has one with each outstanding request for a mapping whose reply may make a subscription
be queued.  Only the actions of updates and mapping replies give chances.

## Key results

- `chances_perform`: actions add to the chances what they give
- `delivers_step`: the steps of a delivery queue nobody
- `mappingListOf_reply`: the list in the reply to a query
-/

namespace Svs

open Std

namespace PubSub

/-- How often a subscription with the callback has been queued for the publication. -/
def queuedTimes (cb : Callback) (p : Publication) (log : List Effect) : Nat :=
  log.countP fun
    | .queued sub p' => sub.callback = cb ∧ p' = p
    | _ => false

@[simp] theorem queuedTimes_append (cb : Callback) (p : Publication) (log log' : List Effect) :
    queuedTimes cb p (log ++ log') = queuedTimes cb p log + queuedTimes cb p log' :=
  List.countP_append

/-- Where the callback's subscriptions are not among the entries, it has not been queued. -/
theorem queuedTimes_eq_zero {cb : Callback} {p : Publication} {log : List Effect}
    (h : ∀ sub, .queued sub p ∈ log → sub.callback ≠ cb) : queuedTimes cb p log = 0 := by
  rw [queuedTimes, List.countP_eq_zero]
  intro effect heffect
  cases effect with
  | queued sub p' =>
    simp only [decide_eq_true_eq, not_and]
    rintro hcb rfl
    exact h sub heffect hcb
  | _ => exact Bool.false_ne_true

/-- The outstanding requests that ask for the publication's mapping. -/
def asked (p : Publication) (s : PubSub) : Nat := s.mappingFetcher.outstanding.countP (·.Asks p)

/-- The chances that the callback has had, or has, to be queued for the publication. -/
def chances (cb : Callback) (p : Publication) (s : PubSub) : Nat :=
  queuedTimes cb p s.log + if cb.toProducer then 0 else s.asked p

variable {P : Subscription → Publication → Prop} {c : Callback → Publication → Nat}
  {s s' s'' : PubSub} {cfg : PubSubConfig}

/-! ## Actions -/

theorem asked_fetchNameMapping (info : MissingDataInfo) (nRetries : Int) (p : Publication) :
    (fetchNameMapping cfg info nRetries s).asked p = s.asked p + if info.Asks p then 1 else 0 := by
  rw [asked, fetchNameMapping, Fetcher.outstanding_expressInterest, Multiset.singleton_add,
    Multiset.countP_cons, asked]

theorem chances_apply (cfg : PubSubConfig) (s : PubSub) (a : Action) (cb : Callback) (p : Publication) :
    (a.apply cfg s).chances cb p = s.chances cb p + if a.gives cb p then 1 else 0 := by
  cases a with
  | queue p' sub =>
    have htimes : queuedTimes cb p [.queued sub p'] = if sub.callback = cb ∧ p' = p then 1 else 0 := by
      simp [queuedTimes, List.countP_singleton]
    have hchances : (s.queue p' sub).chances cb p =
        queuedTimes cb p (s.log ++ [.queued sub p']) + if cb.toProducer then 0 else s.asked p := rfl
    rw [Action.apply, hchances, chances, queuedTimes_append, htimes]
    simp only [Action.gives, decide_eq_true_eq]
    omega
  | fetchOne p' =>
    rw [Action.apply, fetchOne]
    split <;> rfl
  | prefetch nodeId seqNo => rfl
  | fetchNameMapping info =>
    have hlog : (fetchNameMapping cfg info (-1) s).log = s.log := rfl
    rw [Action.apply, chances, chances, hlog, asked_fetchNameMapping]
    cases hcb : cb.toProducer with
    | true => simp [Action.gives, hcb]
    | false =>
      simp only [Action.gives, hcb, Bool.false_eq_true, if_false, true_and, decide_eq_true_eq]
      omega
  | updated info =>
    have hchances : ((Action.updated info).apply cfg s).chances cb p =
        queuedTimes cb p (s.log ++ [.updated info]) + if cb.toProducer then 0 else s.asked p := rfl
    rw [hchances, queuedTimes_append]
    rfl

/-- Actions add to the chances what they give. -/
theorem chances_perform (cfg : PubSubConfig) (actions : List Action) (s : PubSub) (cb : Callback)
    (p : Publication) :
    (perform cfg actions s).chances cb p = s.chances cb p + actions.countP (·.gives cb p) := by
  induction actions generalizing s with
  | nil => rfl
  | cons a actions ih =>
    have hperform : perform cfg (a :: actions) s = perform cfg actions (a.apply cfg s) := rfl
    rw [hperform, ih, chances_apply, List.countP_cons]
    omega

/-- What an action logs; only one that queues a subscription says so. -/
theorem log_apply (cfg : PubSubConfig) (a : Action) (s : PubSub) :
    ∃ l, (a.apply cfg s).log = s.log ++ l ∧
      ∀ sub p, Effect.queued sub p ∈ l → a = .queue p sub := by
  cases a with
  | queue p' sub' =>
    refine ⟨[.queued sub' p'], rfl, ?_⟩
    intro sub p hmem
    obtain ⟨rfl, rfl⟩ := Effect.queued.inj (List.mem_singleton.mp hmem)
    rfl
  | fetchOne p' =>
    refine ⟨[], ?_, nofun⟩
    rw [Action.apply, fetchOne, List.append_nil]
    split <;> rfl
  | updated info =>
    refine ⟨[.updated info], rfl, ?_⟩
    intro sub p hmem
    cases List.mem_singleton.mp hmem
  | _ => exact ⟨[], (List.append_nil _).symm, nofun⟩

theorem log_perform (cfg : PubSubConfig) (actions : List Action) (s : PubSub) :
    ∃ l, (perform cfg actions s).log = s.log ++ l ∧
      ∀ sub p, Effect.queued sub p ∈ l → .queue p sub ∈ actions := by
  induction actions generalizing s with
  | nil => exact ⟨[], (List.append_nil _).symm, nofun⟩
  | cons a actions ih =>
    obtain ⟨l, hlog, hl⟩ := log_apply cfg a s
    obtain ⟨l', hlog', hl'⟩ := ih (a.apply cfg s)
    refine ⟨l ++ l', ?_, ?_⟩
    · rw [← List.append_assoc, ← hlog]
      exact hlog'
    · intro sub p hmem
      rcases List.mem_append.mp hmem with hmem | hmem
      · exact List.mem_cons.mpr (.inl (hl sub p hmem).symm)
      · exact List.mem_cons_of_mem a (hl' sub p hmem)

theorem Performs.chances_le (h : Performs cfg P c s s') (hreg : Registered s) (cb : Callback)
    (p : Publication) : s'.chances cb p ≤ s.chances cb p + c cb p := by
  obtain ⟨actions, rfl, -, hc⟩ := h
  rw [chances_perform]
  exact Nat.add_le_add_left (hc hreg cb p) _

theorem Performs.log (h : Performs cfg P c s s') :
    ∃ l, s'.log = s.log ++ l ∧ ∀ sub p, Effect.queued sub p ∈ l → P sub p := by
  obtain ⟨actions, rfl, hP, -⟩ := h
  obtain ⟨l, hlog, hl⟩ := log_perform cfg actions s
  exact ⟨l, hlog, fun sub p hmem => hP sub p (hl sub p hmem)⟩

theorem Performs.queued {sub : Subscription} {p : Publication} (h : Performs cfg P c s s')
    (hmem : .queued sub p ∈ s'.log) : .queued sub p ∈ s.log ∨ P sub p := by
  obtain ⟨l, hlog, hl⟩ := h.log
  rw [hlog, List.mem_append] at hmem
  exact hmem.imp_right (hl sub p)

/-! ## Operations that queue nobody -/

/-- In between, nobody is queued, and nothing is requested or registered. -/
structure Quiet (s s' : PubSub) : Prop where
  log : ∃ l, s'.log = s.log ++ l ∧ ∀ sub p, Effect.queued sub p ∉ l
  mappingFetcher : s'.mappingFetcher = s.mappingFetcher
  registrations : s'.registrations = s.registrations
  producerSubscriptions : s'.producerSubscriptions = s.producerSubscriptions
  prefixSubscriptions : s'.prefixSubscriptions = s.prefixSubscriptions

theorem Quiet.trans (h : Quiet s s') (h' : Quiet s' s'') : Quiet s s'' where
  log := by
    obtain ⟨l, hlog, hl⟩ := h.log
    obtain ⟨l', hlog', hl'⟩ := h'.log
    refine ⟨l ++ l', by rw [hlog', hlog, List.append_assoc], ?_⟩
    intro sub p hmem
    exact (List.mem_append.mp hmem).elim (hl sub p) (hl' sub p)
  mappingFetcher := h'.mappingFetcher.trans h.mappingFetcher
  registrations := h'.registrations.trans h.registrations
  producerSubscriptions := h'.producerSubscriptions.trans h.producerSubscriptions
  prefixSubscriptions := h'.prefixSubscriptions.trans h.prefixSubscriptions

theorem Quiet.registered (h : Quiet s s') (hreg : Registered s) : Registered s' :=
  hreg.of_eq h.registrations h.producerSubscriptions h.prefixSubscriptions

theorem Quiet.chances_eq (h : Quiet s s') (cb : Callback) (p : Publication) :
    s'.chances cb p = s.chances cb p := by
  obtain ⟨l, hlog, hl⟩ := h.log
  have hzero : queuedTimes cb p l = 0 :=
    queuedTimes_eq_zero fun sub hmem => absurd hmem (hl sub p)
  rw [chances, chances, asked, asked, hlog, h.mappingFetcher, queuedTimes_append, hzero]
  rfl

theorem Quiet.queued {sub : Subscription} {p : Publication} (h : Quiet s s')
    (hmem : .queued sub p ∈ s'.log) : .queued sub p ∈ s.log := by
  obtain ⟨l, hlog, hl⟩ := h.log
  rw [hlog, List.mem_append] at hmem
  exact hmem.resolve_right (hl sub p)

/-- An operation that logs nothing. -/
theorem quiet_of_eq (hlog : s'.log = s.log) (hfetcher : s'.mappingFetcher = s.mappingFetcher)
    (hregistrations : s'.registrations = s.registrations)
    (hproducer : s'.producerSubscriptions = s.producerSubscriptions)
    (hsubscriptions : s'.prefixSubscriptions = s.prefixSubscriptions) : Quiet s s' :=
  ⟨⟨[], hlog.trans (List.append_nil _).symm, fun _ _ => List.not_mem_nil⟩, hfetcher, hregistrations,
    hproducer, hsubscriptions⟩

theorem Quiet.refl (s : PubSub) : Quiet s s := quiet_of_eq rfl rfl rfl rfl rfl

/-! ## Deliveries -/

/-- In between, the mappings are left alone too. -/
structure Delivers (s s' : PubSub) : Prop extends Quiet s s' where
  mappings : s'.mappings = s.mappings

theorem Delivers.trans (h : Delivers s s') (h' : Delivers s' s'') : Delivers s s'' :=
  ⟨h.toQuiet.trans h'.toQuiet, h'.mappings.trans h.mappings⟩

theorem delivers_of_eq (hlog : s'.log = s.log) (hfetcher : s'.mappingFetcher = s.mappingFetcher)
    (hregistrations : s'.registrations = s.registrations)
    (hproducer : s'.producerSubscriptions = s.producerSubscriptions)
    (hsubscriptions : s'.prefixSubscriptions = s.prefixSubscriptions)
    (hmappings : s'.mappings = s.mappings) : Delivers s s' :=
  ⟨quiet_of_eq hlog hfetcher hregistrations hproducer hsubscriptions, hmappings⟩

theorem Delivers.refl (s : PubSub) : Delivers s s := delivers_of_eq rfl rfl rfl rfl rfl rfl

theorem delivers_cleanUpFetch (p : Publication) (s : PubSub) : Delivers s (s.cleanUpFetch p) :=
  ⟨⟨⟨_, rfl, by simp⟩, rfl, rfl, rfl, rfl⟩, rfl⟩

theorem delivers_callAll (p : Publication) (chosen : Subscription → Bool) (subData : SubscriptionData)
    (s : PubSub) : Delivers s (s.callAll p chosen subData) :=
  ⟨⟨⟨_, rfl, by simp⟩, rfl, rfl, rfl, rfl⟩, rfl⟩

theorem delivers_await (task : FetchTask) (s : PubSub) : Delivers s (s.await task) :=
  delivers_of_eq rfl rfl rfl rfl rfl rfl

theorem delivers_returnData (p : Publication) (firstData innerData : Data) (s : PubSub) :
    Delivers s (s.returnData p firstData innerData) := by
  rw [returnData]
  split
  · exact (delivers_callAll p _ _ s).trans (delivers_await _ _)
  · exact (delivers_callAll p _ _ s).trans (delivers_cleanUpFetch p _)

theorem delivers_onSyncData (p : Publication) (firstData : Data) (answer : Option Bool) (s : PubSub) :
    Delivers s (s.onSyncData cfg p firstData answer) := by
  rw [onSyncData]
  split
  · exact delivers_of_eq rfl rfl rfl rfl rfl rfl
  · split
    · exact .refl s
    · split
      · split
        · exact delivers_returnData p _ _ s
        · exact .refl s
        · exact delivers_await _ s
      · exact delivers_returnData p _ _ s

theorem delivers_sendFinalBuffer (b : Blob) (s : PubSub) : Delivers s (s.sendFinalBuffer b) := by
  rw [sendFinalBuffer]
  split
  · exact .refl s
  · split
    · exact delivers_cleanUpFetch _ s
    · exact (delivers_callAll _ _ _ s).trans (delivers_cleanUpFetch _ _)

theorem delivers_keepBlob (b : Blob) (s : PubSub) : Delivers s (s.keepBlob b) := by
  rw [keepBlob]
  split
  · exact .refl s
  · exact delivers_await _ s

theorem delivers_validateElements (elements : List Block) (answers : List (Option Bool)) (b : Blob)
    (s : PubSub) : Delivers s (validateElements cfg elements answers b s) := by
  induction elements generalizing answers b s with
  | nil => exact (delivers_sendFinalBuffer b s).trans (delivers_keepBlob b _)
  | cons element elements ih =>
    rw [validateElements]
    split
    · exact (delivers_cleanUpFetch _ s).trans (delivers_keepBlob b _)
    · split
      · split
        · exact (delivers_sendFinalBuffer _ s).trans (ih _ _ _)
        · exact ih _ _ s
      · exact ih _ _ s

theorem delivers_onComplete (p : Publication) (data : List UInt8) (answers : List (Option Bool))
    (s : PubSub) : Delivers s (s.onComplete cfg p data answers) := by
  rw [onComplete]
  split
  · exact delivers_cleanUpFetch p s
  · exact delivers_cleanUpFetch p s
  · split
    · exact delivers_cleanUpFetch p s
    · exact delivers_validateElements _ _ _ s

theorem delivers_onDataOutcome (answer : Option Bool) (r : Option (DataRequest × FetchOutcome Data))
    (s : PubSub) : Delivers s (onDataOutcome cfg answer s r) := by
  unfold onDataOutcome
  split
  · exact delivers_onSyncData _ _ answer s
  · exact .refl s

theorem delivers_takeTask {id : Nat} {task : FetchTask} (h : s.takeTask id = some (task, s')) :
    Delivers s s' := by
  obtain ⟨t, -, heq⟩ := Option.map_eq_some_iff.mp h
  obtain ⟨-, rfl⟩ := Prod.mk.inj heq
  exact delivers_of_eq rfl rfl rfl rfl rfl rfl

/-- The event is part of the delivery of a publication. -/
def Event.isDelivery : Event → Bool
  | .fetchData _ _ | .validationFailed _ | .segmentsComplete _ _ _ | .segmentsError _ | .blobAnswer _ _ => true
  | _ => false

theorem delivers_step {e : UInt64 × Event} (h : e.2.isDelivery = true) : Delivers s (s.step cfg e) := by
  obtain ⟨now, event⟩ := e
  cases event with
  | fetchData event answer =>
    have hfetched : Delivers s
        { s with dataFetcher := (s.dataFetcher.step cfg.securityOptions event).1 } :=
      delivers_of_eq rfl rfl rfl rfl rfl rfl
    exact hfetched.trans (delivers_onDataOutcome answer (s.dataFetcher.step cfg.securityOptions event).2 _)
  | validationFailed task =>
    rw [step]
    dsimp only
    split
    · next p s' htask => exact delivers_takeTask htask
    · exact .refl s
  | segmentsComplete task data answers =>
    rw [step]
    dsimp only
    split
    · next p pubName s' htask => exact (delivers_takeTask htask).trans (delivers_onComplete _ _ _ _)
    · exact .refl s
  | segmentsError task =>
    rw [step]
    dsimp only
    split
    · next p pubName s' htask => exact (delivers_takeTask htask).trans (delivers_cleanUpFetch _ _)
    · exact .refl s
  | blobAnswer task accepted =>
    rw [step]
    dsimp only
    split
    · next b s' htask =>
      exact (delivers_takeTask htask).trans
        ((delivers_sendFinalBuffer _ _).trans (delivers_keepBlob _ _))
    · exact .refl s
  | _ => exact absurd h Bool.false_ne_true

/-! ## Mapping replies -/

/-- The Data answers the query as `onMappingQuery` does. -/
def IsReply (query : MissingDataInfo) (data : Data) : Prop :=
  ∃ (store : MappingStore) (queryResponse : MappingList),
    store.onMappingQuery query = some queryResponse ∧ queryResponse.Encodable ∧
      data.content = queryResponse.encode

end PubSub

namespace MappingStore

variable {query : MissingDataInfo} {store : MappingStore}

/-- The numbers in a response when the loop has come to `i`. -/
structure Collected (query : MissingDataInfo) (i : SeqNo) (queryResponse : MappingList) : Prop where
  low_le : query.low ≤ i
  nodup : (queryResponse.pairs.map (·.1)).Nodup
  mem : ∀ seq ∈ queryResponse.pairs.map (·.1),
    query.low ≤ seq ∧ seq < i ∧ seq ≤ max query.high query.low

/-- A round adds the number it has come to, which is not there yet. -/
theorem Collected.round {i j bound : SeqNo} {list list' : MappingList} (h : Collected query i list)
    (hbound : ¬bound ≤ max query.high query.low)
    (hround : onMappingQueryRound query store (i, some list) = some (j, some list')) :
    Collected query j list' := by
  rw [onMappingQueryRound] at hround
  split at hround
  · next hle =>
    split at hround
    · next mapping hmapping =>
      obtain ⟨rfl, heq⟩ := Prod.mk.inj (Option.some.inj hround)
      obtain rfl := Option.some.inj heq
      -- the number does not wrap around, since there is one larger than the last
      have hsucc : i < i + 1 := by grind
      have hlow := h.low_le
      constructor
      case low_le => grind
      case nodup =>
        rw [List.map_append, List.map_cons, List.map_nil, List.nodup_append]
        refine ⟨h.nodup, List.nodup_singleton i, ?_⟩
        intro seq hseq i' hi hsame
        rw [hsame, List.mem_singleton.mp hi] at hseq
        exact UInt64.lt_irrefl i (h.mem i hseq).2.1
      case mem =>
        intro seq hseq
        rw [List.map_append, List.map_cons, List.map_nil, List.mem_append, List.mem_singleton] at hseq
        rcases hseq with hseq | rfl
        · obtain ⟨hlow', hlt, hle'⟩ := h.mem seq hseq
          exact ⟨hlow', by grind, hle'⟩
        · exact ⟨hlow, hsucc, hle⟩
    · simp at hround
  · simp at hround

/-- The sequence numbers in a response are those of the query, and each is there once. -/
theorem seqNos_of_onMappingQuery {queryResponse : MappingList}
    (h : store.onMappingQuery query = some queryResponse) :
    (queryResponse.pairs.map (·.1)).Nodup ∧
      ∀ seq ∈ queryResponse.pairs.map (·.1), query.low ≤ seq ∧ seq ≤ max query.high query.low := by
  obtain ⟨r, hrun, h⟩ := Option.bind_eq_some_iff.mp h
  obtain ⟨response, hresponse, h⟩ := Option.bind_eq_some_iff.mp h
  have heq : response = queryResponse := by
    split at h
    · simp at h
    · exact Option.some.inj h
  subst heq
  -- the loop is left above the last number
  have hleft : ¬r.1 ≤ max query.high query.low := by
    have hnone := (Loop.run_invariant (I := fun _ => True) hrun trivial fun _ _ _ _ => trivial).2
    rw [← Prod.eta r, hresponse, onMappingQueryRound] at hnone
    intro hle
    rw [if_pos hle] at hnone
    split at hnone <;> simp at hnone
  have hcollected := (Loop.run_invariant
    (I := fun x => ∀ list, x.2 = some list → Collected query x.1 list) hrun (by
      intro list hlist
      obtain rfl := Option.some.inj hlist
      exact ⟨UInt64.le_refl _, List.nodup_nil, nofun⟩) (by
      intro x y hx hround list' hlist'
      obtain ⟨i, list⟩ := x
      obtain ⟨j, list''⟩ := y
      cases list with
      | none => simp [onMappingQueryRound] at hround
      | some list =>
        subst hlist'
        exact (hx list rfl).round hleft hround)).1 response hresponse
  exact ⟨hcollected.nodup, fun seq hseq => ⟨(hcollected.mem seq hseq).1, (hcollected.mem seq hseq).2.2⟩⟩

end MappingStore

namespace PubSub

/-- The list in a reply names what the query asks for, and each publication once. -/
theorem mappingListOf_reply {query : MissingDataInfo} {data : Data} (h : IsReply query data) :
    ∃ list, mappingListOf data = some list ∧ ∀ p : Publication, query.nodeId = p.nodeId →
      (list.pairs.map (·.1)).count p.seqNo ≤ if query.Asks p then 1 else 0 := by
  obtain ⟨store, queryResponse, hquery, hencodable, hcontent⟩ := h
  refine ⟨queryResponse.mirror, ?_, ?_⟩
  · simp [mappingListOf, hcontent, MappingList.blockFromValue_encode hencodable,
      MappingList.decode_listBlock hencodable, Except.toOption]
  · intro p hnode
    -- the entries arrive in reverse
    have hseqNos : queryResponse.mirror.pairs.map (·.1) = (queryResponse.pairs.map (·.1)).reverse := by
      simp [MappingList.mirror, MappingList.mirrorEntry, Function.comp_def]
    obtain ⟨hnodup, hmem⟩ := MappingStore.seqNos_of_onMappingQuery hquery
    rw [hseqNos, List.count_reverse]
    split
    · exact List.nodup_iff_count_le_one.mp hnodup p.seqNo
    · next hasks =>
      rw [Nat.le_zero, List.count_eq_zero]
      exact fun hseq => hasks ⟨hnode, hmem p.seqNo hseq⟩

end PubSub

end Svs
