import Svs.Spec.MergeCorrect
import Svs.Spec.UpdateActions
import Svs.Spec.VectorCodec

/-!
# When an update comes to an end

The loops of `updateCallbackInternal` go up to the highest number of a stream, inclusive.
Where that is the largest 64-bit number they are never left: `i <= stream.high` always
holds.  With any other number they are, also the loop that goes up in steps of 11 and
may wrap around before.

## Key results

- `ends_updateCallback_iff`: the streams with which an update comes to an end
- `merged_update_ends_iff`: the vectors that a node can take
-/

namespace Svs

open Std VersionVector

namespace PubSub

/-! ## Updates within a number of rounds -/

/-- The round of the loop over the producer subscriptions, if its loop makes at most so
    many rounds. -/
def updateProducerWithin (rounds : Nat) (cfg : PubSubConfig) (stream : MissingDataInfo) (s : PubSub)
    (sub : Subscription) : Option PubSub :=
  if sub.pref.isPrefixOf stream.nodeId then
    (Loop.run (queueRound stream sub) rounds (stream.low, s)).bind fun r =>
      some (if sub.prefetch then fetchData cfg (.prefetch stream.nodeId (stream.high + 1)) 0 r.2
        else r.2)
  else some s

/-- What `updateCallbackInternal` does for the prefix subscriptions. -/
def updatePrefixWithin (rounds : Nat) (cfg : PubSubConfig) (now : UInt64) (stream : MissingDataInfo)
    (s : PubSub) : Option PubSub :=
  if s.prefixSubscriptions = [] then some s
  else
    (Loop.run (knownRound cfg now stream) rounds (stream.low, s)).bind fun r =>
      (Loop.run (requestRound cfg stream) rounds r).bind fun r => some r.2

/-- The round of the loop over the streams. -/
def updateStreamWithin (rounds : Nat) (cfg : PubSubConfig) (now : UInt64) (s : PubSub)
    (stream : MissingDataInfo) : Option PubSub :=
  (s.producerSubscriptions.foldlM (updateProducerWithin rounds cfg stream) s).bind
    (updatePrefixWithin rounds cfg now stream)

/-- `SVSPubSub::updateCallbackInternal`, if none of its loops makes more rounds. -/
def updateCallbackWithin (rounds : Nat) (cfg : PubSubConfig) (now : UInt64)
    (info : List MissingDataInfo) (s : PubSub) : Option PubSub :=
  (info.foldlM (updateStreamWithin rounds cfg now) s).bind fun s =>
    let s := s.fetchAll cfg
    some { s with log := s.log ++ [.updated info] }

theorem updateProducer_eq (cfg : PubSubConfig) :
    updateProducer cfg = updateProducerWithin memoryLimit cfg := by
  funext stream s sub
  rw [updateProducer, updateProducerWithin]
  rfl

theorem updateStream_eq (cfg : PubSubConfig) (now : UInt64) :
    updateStream cfg now = updateStreamWithin memoryLimit cfg now := by
  funext s stream
  rw [updateStream, updateProducer_eq]
  rfl

/-- The updates of a run are those within the rounds that fit into memory. -/
theorem updateCallbackInternal_eq (cfg : PubSubConfig) (now : UInt64) (info : List MissingDataInfo)
    (s : PubSub) :
    updateCallbackInternal cfg now info s = updateCallbackWithin memoryLimit cfg now info s := by
  rw [updateCallbackInternal, updateStream_eq]
  rfl

/-! ## What an update keeps -/

/-- The subscriptions are the same. -/
structure SameSubscriptions (s s' : PubSub) : Prop where
  producer : s'.producerSubscriptions = s.producerSubscriptions
  pref : s'.prefixSubscriptions = s.prefixSubscriptions

theorem SameSubscriptions.trans {s s' s'' : PubSub} (h : SameSubscriptions s s')
    (h' : SameSubscriptions s' s'') : SameSubscriptions s s'' :=
  ⟨h'.producer.trans h.producer, h'.pref.trans h.pref⟩

variable {cfg : PubSubConfig} {now : UInt64} {stream : MissingDataInfo} {s s' : PubSub}
  {sub : Subscription} {rounds : Nat}

/-- What an update is made of keeps the relation to the state before it. -/
structure Kept (cfg : PubSubConfig) (R : PubSub → PubSub → Prop) : Prop where
  refl : ∀ s, R s s
  trans : ∀ {s s' s''}, R s s' → R s' s'' → R s s''
  queue : ∀ s p sub, R s (s.queue p sub)
  fetchData : ∀ s request nRetries, R s (fetchData cfg request nRetries s)
  fetchNameMapping : ∀ s info nRetries, R s (fetchNameMapping cfg info nRetries s)

namespace Kept

variable {R : PubSub → PubSub → Prop} (hR : Kept cfg R)
include hR

/-- A loop whose rounds keep the relation keeps it. -/
theorem run {round : SeqNo × PubSub → Option (SeqNo × PubSub)} {x r : SeqNo × PubSub}
    (h : Loop.run round rounds x = some r) (hround : ∀ a b, round a = some b → R a.2 b.2) :
    R x.2 r.2 :=
  (Loop.run_invariant (I := fun a => R x.2 a.2) h (hR.refl _)
    fun a b ha hab => hR.trans ha (hround a b hab)).1

theorem queueRound {a b : SeqNo × PubSub} (h : queueRound stream sub a = some b) : R a.2 b.2 := by
  rw [PubSub.queueRound] at h
  split at h
  · obtain rfl := Option.some.inj h
    exact hR.queue _ _ _
  · cases h

theorem foldl_queue (subs : List Subscription) (p : Publication) (s : PubSub) :
    R s (subs.foldl (PubSub.queue p) s) := by
  induction subs generalizing s with
  | nil => exact hR.refl s
  | cons sub subs ih => exact hR.trans (hR.queue s p sub) (ih _)

theorem knownRound {a b : SeqNo × PubSub} (h : knownRound cfg now stream a = some b) : R a.2 b.2 := by
  rw [PubSub.knownRound] at h
  split at h
  · split at h
    · next hprocess =>
      obtain rfl := Option.some.inj h
      obtain ⟨subs, heq, -⟩ := processMapping_eq_ok hprocess
      rw [(Prod.mk.inj heq).2]
      exact hR.foldl_queue subs _ _
    · cases h
  · cases h

theorem requestRound {a b : SeqNo × PubSub} (h : requestRound cfg stream a = some b) : R a.2 b.2 := by
  rw [PubSub.requestRound] at h
  split at h
  · obtain rfl := Option.some.inj h
    exact hR.fetchNameMapping _ _ _
  · cases h

theorem updateProducer (h : updateProducerWithin rounds cfg stream s sub = some s') : R s s' := by
  rw [updateProducerWithin] at h
  split at h
  · obtain ⟨r, hrun, hrest⟩ := Option.bind_eq_some_iff.mp h
    refine hR.trans (hR.run hrun fun _ _ => hR.queueRound) ?_
    obtain rfl := Option.some.inj hrest
    split
    · exact hR.fetchData _ _ _
    · exact hR.refl _
  · obtain rfl := Option.some.inj h
    exact hR.refl _

theorem updatePrefix (h : updatePrefixWithin rounds cfg now stream s = some s') : R s s' := by
  rw [updatePrefixWithin] at h
  split at h
  · obtain rfl := Option.some.inj h
    exact hR.refl _
  · obtain ⟨r, hknown, hrest⟩ := Option.bind_eq_some_iff.mp h
    obtain ⟨r', hrequest, hr'⟩ := Option.bind_eq_some_iff.mp hrest
    obtain rfl := Option.some.inj hr'
    exact hR.trans (hR.run hknown fun _ _ => hR.knownRound)
      (hR.run hrequest fun _ _ => hR.requestRound)

theorem producers {subs : List Subscription}
    (h : subs.foldlM (updateProducerWithin rounds cfg stream) s = some s') : R s s' := by
  induction subs generalizing s with
  | nil =>
    obtain rfl := Option.some.inj h
    exact hR.refl _
  | cons sub subs ih =>
    rw [List.foldlM_cons] at h
    obtain ⟨s₁, hfirst, hrest⟩ := Option.bind_eq_some_iff.mp h
    exact hR.trans (hR.updateProducer hfirst) (ih hrest)

theorem updateStream (h : updateStreamWithin rounds cfg now s stream = some s') : R s s' := by
  obtain ⟨s₁, hproducers, hpasses⟩ := Option.bind_eq_some_iff.mp h
  exact hR.trans (hR.producers hproducers) (hR.updatePrefix hpasses)

theorem streams {info : List MissingDataInfo}
    (h : info.foldlM (updateStreamWithin rounds cfg now) s = some s') : R s s' := by
  induction info generalizing s with
  | nil =>
    obtain rfl := Option.some.inj h
    exact hR.refl _
  | cons stream info ih =>
    rw [List.foldlM_cons] at h
    obtain ⟨s₁, hfirst, hrest⟩ := Option.bind_eq_some_iff.mp h
    exact hR.trans (hR.updateStream hfirst) (ih hrest)

end Kept

theorem kept_subscriptions (cfg : PubSubConfig) : Kept cfg SameSubscriptions where
  refl _ := ⟨rfl, rfl⟩
  trans h h' := h.trans h'
  queue _ _ _ := ⟨rfl, rfl⟩
  fetchData _ _ _ := ⟨rfl, rfl⟩
  fetchNameMapping _ _ _ := ⟨rfl, rfl⟩

/-! ## Termination -/

theorem stable_updateProducer (cfg : PubSubConfig) (stream : MissingDataInfo) (s : PubSub)
    (sub : Subscription) :
    Loop.Stable fun rounds => updateProducerWithin rounds cfg stream s sub := by
  unfold updateProducerWithin
  split
  · exact (Loop.stable_run _ _).bind fun _ => Loop.stable_const _
  · exact Loop.stable_const _

theorem stable_updatePrefix (cfg : PubSubConfig) (now : UInt64) (stream : MissingDataInfo)
    (s : PubSub) : Loop.Stable fun rounds => updatePrefixWithin rounds cfg now stream s := by
  unfold updatePrefixWithin
  split
  · exact Loop.stable_const _
  · exact (Loop.stable_run _ _).bind fun _ => (Loop.stable_run _ _).bind fun _ => Loop.stable_const _

theorem stable_updateStream (cfg : PubSubConfig) (now : UInt64) (s : PubSub) (stream : MissingDataInfo) :
    Loop.Stable fun rounds => updateStreamWithin rounds cfg now s stream :=
  (Loop.Stable.foldlM (stable_updateProducer cfg stream) _ _).bind (stable_updatePrefix cfg now stream)

/-- The loop that queues a producer subscription. -/
theorem ends_updateProducer_iff :
    Loop.Ends (fun rounds => updateProducerWithin rounds cfg stream s sub) ↔
      (sub.pref.isPrefixOf stream.nodeId → ¬∀ i, i ≤ stream.high) := by
  unfold updateProducerWithin
  split
  · next hpref =>
    have hloop := Loop.ends_run_upTo_iff (fun i s => s.queue ⟨stream.nodeId, i⟩ sub) stream.high
      (stream.low, s)
    rw [Loop.ends_bind_iff (Loop.stable_run _ _) fun _ => Loop.stable_const _, queueRound_eq]
    constructor
    · -- the prefetch comes after the loop
      rintro ⟨rounds, r, hrun, -⟩ -
      exact hloop.mp ⟨rounds, r, hrun⟩
    · intro hhigh
      obtain ⟨rounds, r, hrun⟩ := hloop.mpr (hhigh hpref)
      exact ⟨rounds, r, hrun, 0, _, rfl⟩
  · next hpref => exact iff_of_true ⟨0, s, rfl⟩ fun h => absurd h hpref

/-- The stride of 11 is odd, so a request for the last numbers is made at some time. -/
theorem ends_requests (cfg : PubSubConfig) (hhigh : ¬∀ i, i ≤ stream.high) (x : SeqNo × PubSub) :
    Loop.Ends fun rounds => Loop.run (requestRound cfg stream) rounds x := by
  -- 11 has an inverse modulo 2 ^ 64
  have hinv : (3353953467947191203 : UInt64) * 11 = 1 := by decide
  refine Loop.ends_run_stride hinv hhigh ?_ x
  intro a b hab
  rw [requestRound] at hab
  split at hab
  · next hle =>
    obtain rfl := Option.some.inj hab
    exact ⟨hle, rfl⟩
  · cases hab

/-- The loops for the prefix subscriptions. -/
theorem ends_updatePrefix_iff :
    Loop.Ends (fun rounds => updatePrefixWithin rounds cfg now stream s) ↔
      (s.prefixSubscriptions ≠ [] → ¬∀ i, i ≤ stream.high) := by
  unfold updatePrefixWithin
  split
  · next hnil => exact iff_of_true ⟨0, s, rfl⟩ fun h => absurd hnil h
  · next hne =>
    rw [Loop.ends_bind_iff (Loop.stable_run _ _)
      fun _ => (Loop.stable_run _ _).bind fun _ => Loop.stable_const _]
    constructor
    · -- the scan may be left at a missing mapping, but the requests would go on
      rintro ⟨_, r, -, rounds, s', hrequest⟩ -
      obtain ⟨r', hrun, -⟩ := Option.bind_eq_some_iff.mp hrequest
      exact not_max_of_requests hrun
    · intro hhigh
      rw [knownRound_eq]
      obtain ⟨rounds, r, hknown⟩ := Loop.ends_run_upTo (hhigh hne) (stream.low, s)
      obtain ⟨rounds', r', hrequest⟩ := ends_requests cfg (hhigh hne) r
      exact ⟨rounds, r, hknown, rounds', r'.2, Option.bind_eq_some_iff.mpr ⟨r', hrequest, rfl⟩⟩

/-- Somebody subscribes to what the node publishes: a producer subscription does, or any
    prefix subscription. -/
def Wanted (s : PubSub) (nodeId : NodeID) : Prop :=
  (∃ sub ∈ s.producerSubscriptions, sub.pref.isPrefixOf nodeId) ∨ s.prefixSubscriptions ≠ []

theorem SameSubscriptions.wanted_iff (h : SameSubscriptions s s') (nodeId : NodeID) :
    s'.Wanted nodeId ↔ s.Wanted nodeId := by
  rw [Wanted, Wanted, h.producer, h.pref]

theorem ends_updateStream_iff :
    Loop.Ends (fun rounds => updateStreamWithin rounds cfg now s stream) ↔
      (s.Wanted stream.nodeId → ¬∀ i, i ≤ stream.high) := by
  have hproducers := Loop.ends_foldlM_iff (I := fun _ => True) (l := s.producerSubscriptions)
    (stable_updateProducer cfg stream) (fun _ _ _ _ _ _ _ => trivial)
    (fun _ _ _ _ => ends_updateProducer_iff) (b := s) trivial
  -- queueing does not change who subscribes
  have hpasses : ∀ rounds s', s.producerSubscriptions.foldlM (updateProducerWithin rounds cfg stream) s =
      some s' → (Loop.Ends (fun rounds => updatePrefixWithin rounds cfg now stream s') ↔
        (s.prefixSubscriptions ≠ [] → ¬∀ i, i ≤ stream.high)) := by
    intro rounds s' hs'
    rw [ends_updatePrefix_iff, ((kept_subscriptions cfg).producers hs').pref]
  unfold updateStreamWithin
  rw [Loop.ends_bind_iff (Loop.Stable.foldlM (stable_updateProducer cfg stream) _ _)
    (stable_updatePrefix cfg now stream)]
  constructor
  · rintro ⟨rounds, s', hs', hends⟩ hwanted
    rcases hwanted with ⟨sub, hsub, hpref⟩ | hne
    -- a producer subscription's loop is not left, or the one of the prefix subscriptions
    · exact hproducers.mp ⟨rounds, s', hs'⟩ sub hsub hpref
    · exact (hpasses rounds s' hs').mp hends hne
  · intro hhigh
    obtain ⟨rounds, s', hs'⟩ := hproducers.mpr fun sub hsub hpref => hhigh (.inl ⟨sub, hsub, hpref⟩)
    exact ⟨rounds, s', hs', (hpasses rounds s' hs').mpr fun hne => hhigh (.inr hne)⟩

/-- An update comes to an end just when no stream goes up to the largest number that
    somebody subscribes to. -/
theorem ends_updateCallback_iff (cfg : PubSubConfig) (now : UInt64) (info : List MissingDataInfo)
    (s : PubSub) :
    Loop.Ends (fun rounds => updateCallbackWithin rounds cfg now info s) ↔
      ∀ stream ∈ info, s.Wanted stream.nodeId → ¬∀ i, i ≤ stream.high := by
  have hstreams := Loop.ends_foldlM_iff (I := SameSubscriptions s) (l := info)
    (f := fun rounds => updateStreamWithin rounds cfg now)
    (p := fun stream => s.Wanted stream.nodeId → ¬∀ i, i ≤ stream.high)
    (stable_updateStream cfg now)
    (fun _ _ _ _ hsame _ h => hsame.trans ((kept_subscriptions cfg).updateStream h))
    (fun s' stream hsame _ => by rw [ends_updateStream_iff, hsame.wanted_iff]) (b := s) ⟨rfl, rfl⟩
  rw [← hstreams]
  unfold updateCallbackWithin
  rw [Loop.ends_bind_iff (Loop.Stable.foldlM (stable_updateStream cfg now) _ _)
    fun _ => Loop.stable_const _]
  constructor
  · rintro ⟨rounds, s', hs', -⟩
    exact ⟨rounds, s', hs'⟩
  · rintro ⟨rounds, s', hs'⟩
    exact ⟨rounds, s', hs', 0, _, rfl⟩

/-! ## Received vectors -/

/-- The largest sequence number. -/
def maxSeqNo : SeqNo := 0xFFFFFFFFFFFFFFFF

theorem forall_le_iff {high : SeqNo} : (∀ i, i ≤ high) ↔ high = maxSeqNo := by
  constructor
  · intro h
    have hle : (maxSeqNo).toNat ≤ high.toNat := UInt64.le_iff_toNat_le.mp (h maxSeqNo)
    have hmax : (maxSeqNo).toNat = 2 ^ 64 - 1 := rfl
    have hbound := high.toNat_lt
    exact UInt64.toNat_inj.mp (by omega)
  · rintro rfl i
    have hmax : (maxSeqNo).toNat = 2 ^ 64 - 1 := rfl
    have hbound := i.toNat_lt
    exact UInt64.le_iff_toNat_le.mpr (by omega)

/-- What the core reports when it merges a received vector. -/
def reported (m : Moment) (vvOther : VersionVector) (incomingFace : UInt64) (c : Core) :
    List MissingDataInfo :=
  (Core.mergeStateVector m vvOther c).2.missingInfo.map fun e => { e with incomingFace := incomingFace }

/-- The update for a received vector comes to an end just when the vector raises no entry
    to the largest number that somebody subscribes to. -/
theorem merged_update_ends_iff (cfg : PubSubConfig) (now : UInt64) (m : Moment)
    (vvOther : VersionVector) (incomingFace : UInt64) (c : Core) (s : PubSub) :
    Loop.Ends (fun rounds => updateCallbackWithin rounds cfg now (reported m vvOther incomingFace c) s) ↔
      ∀ nid, vvOther.map[nid]? = some maxSeqNo → c.vv.get nid < maxSeqNo → ¬s.Wanted nid := by
  rw [ends_updateCallback_iff, reported, Core.missingInfo_mergeStateVector]
  simp only [List.forall_mem_map, List.mem_filter, forall_le_iff, Core.missingRange, decide_eq_true_eq]
  constructor
  · -- an entry that is raised to the largest number is reported up to it
    intro h nid hentry hlt hwanted
    exact h (nid, maxSeqNo) ⟨(mem_entries _ _ _).mpr hentry, hlt⟩ hwanted rfl
  · rintro h ⟨nid, seqNo⟩ ⟨hentry, hlt⟩ hwanted rfl
    exact h nid ((mem_entries _ _ _).mp hentry) hlt hwanted

/-- A vector with the largest number for `/a`, as it is encoded. -/
def lastVector : VersionVector := VersionVector.empty.set (.ofBytes [[97]]) maxSeqNo 0

/-- A node that subscribes to `/a` does not come to an end with it. -/
theorem not_merged_update_ends :
    ¬∀ (block : Block) (vvOther : VersionVector) (cfg : PubSubConfig) (now : UInt64) (m : Moment)
      (incomingFace : UInt64) (c : Core) (s : PubSub),
      VersionVector.decode .packetFormat block = .ok vvOther →
      Loop.Ends fun rounds => updateCallbackWithin rounds cfg now (reported m vvOther incomingFace c) s := by
  intro h
  have hencodable : lastVector.Encodable := ⟨by decide, by decide⟩
  have hdecode := decode_stateVectorBlock hencodable
  have hends := h _ _ ⟨{}, {}, fun _ => none⟩ 0 (.atMs 1) 0 (Core.init {} 0)
    (subscribeToProducer (.ofBytes [[97]]) false false { subscriptionCount := 0 }) hdecode
  have hreported : reported (.atMs 1) lastVector.wire 0 (Core.init {} 0) =
      [⟨.ofBytes [[97]], 1, maxSeqNo, 0⟩] := by
    decide
  rw [hreported, ends_updateCallback_iff] at hends
  refine hends _ List.mem_cons_self (.inl ⟨_, List.mem_cons_self, by decide⟩) ?_
  exact forall_le_iff.mpr rfl

end PubSub

end Svs
