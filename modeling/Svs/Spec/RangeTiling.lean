import Svs.Spec.MalformedMapping
import Svs.Spec.UpdateTermination

/-!
# How an update covers a missing range

`updateCallbackInternal` goes through a range of missing sequence numbers twice: a first
loop processes the mappings that are known, up to the first one that is not, and a
second one requests the others, eleven at a time.

## Key results

- `tiled_requests`: the requests follow each other without gap or overlap
- `updateCallback_tiles`: what an update does with every range of its report
-/

namespace Svs

namespace PubSub

variable {cfg : PubSubConfig} {now : UInt64} {stream : MissingDataInfo} {s s' : PubSub}
  {rounds : Nat}

/-! ## Ranges -/

/-- The sequence numbers of the range, in increasing order. -/
def seqNos (info : MissingDataInfo) : List Nat :=
  List.range' info.low.toNat (info.high.toNat + 1 - info.low.toNat)

/-- The first `k` publications of the range. -/
def firstPublications (stream : MissingDataInfo) (k : Nat) : List Publication :=
  (List.range k).map fun i => ⟨stream.nodeId, stream.low + .ofNat i⟩

/-- `processMapping` for one publication after the other; an exception ends it. -/
def processAll (cfg : PubSubConfig) (now : UInt64) (ps : List Publication) (s : PubSub) :
    Decoded PubSub :=
  ps.foldlM (fun s p => (processMapping cfg now p s).map (·.2)) s

/-- `fetchNameMapping` for one range after the other. -/
def requestAll (cfg : PubSubConfig) (requests : List MissingDataInfo) (s : PubSub) : PubSub :=
  requests.foldl (fun s info => fetchNameMapping cfg info (-1) s) s

/-- There is a mapping for the publication. -/
def Stored (store : MappingStore) (p : Publication) : Prop :=
  ∃ mapping, store.getMapping p = some mapping

/-- There is a mapping for the publication, and the age filter can read what it looks at. -/
def Known (cfg : PubSubConfig) (now : UInt64) (store : MappingStore) (p : Publication) : Prop :=
  ∃ mapping, store.getMapping p = some mapping ∧ Checkable cfg now mapping

/-- Of the range, the first `k` numbers are processed and the others requested. -/
structure Tiling (P : Publication → Prop) (cfg : PubSubConfig) (now : UInt64)
    (stream : MissingDataInfo) (k : Nat) (requests : List MissingDataInfo) (s s' : PubSub) : Prop where
  within : k ≤ (seqNos stream).length
  known : ∀ p ∈ firstPublications stream k, P p
  maximal : k < (seqNos stream).length → ¬P ⟨stream.nodeId, stream.low + .ofNat k⟩
  /-- The first ones are processed one after the other, each of them once; then come the
      requests. -/
  processed : ∃ s₁, processAll cfg now (firstPublications stream k) s = .ok s₁ ∧
    s' = requestAll cfg requests s₁
  /-- The requested ranges one after the other are the rest of the range. -/
  covered : requests.flatMap seqNos = (seqNos stream).drop k
  span : ∀ info ∈ requests, info.nodeId = stream.nodeId ∧ (seqNos info).length ≤ 11

/-- The range is tiled between the two states. -/
def Tiled (P : Publication → Prop) (cfg : PubSubConfig) (now : UInt64) (stream : MissingDataInfo)
    (s s' : PubSub) : Prop :=
  ∃ k requests, Tiling P cfg now stream k requests s s'

/-! ## The requests -/

/-- A request is for the first eleven numbers of what remains, or for all of it. -/
theorem seqNos_truncate {low : SeqNo} (hle : low ≤ stream.high) :
    seqNos (truncate { stream with low := low }) =
      List.range' low.toNat (min 11 (stream.high.toNat + 1 - low.toNat)) := by
  have hle' := UInt64.le_iff_toNat_le.mp hle
  have hbound := stream.high.toNat_lt
  have hsub : (stream.high - low).toNat = stream.high.toNat - low.toNat :=
    UInt64.toNat_sub_of_le _ _ hle
  have hten : (10 : UInt64).toNat = 10 := rfl
  rw [truncate]
  split
  · next hlong =>
    have hroom : 10 < stream.high.toNat - low.toNat := hsub ▸ UInt64.lt_iff_toNat_lt.mp hlong
    have hadd : (low + 10).toNat = low.toNat + 10 := by
      rw [UInt64.toNat_add, hten, Nat.mod_eq_of_lt (by omega)]
    rw [seqNos, hadd, min_eq_left (by omega), show low.toNat + 10 + 1 - low.toNat = 11 by omega]
  · next hshort =>
    have hfew : ¬10 < stream.high.toNat - low.toNat :=
      fun h => hshort (UInt64.lt_iff_toNat_lt.mpr (hsub ▸ h))
    rw [seqNos, min_eq_right (by omega)]

/-- The loop requests what remains, range after range. -/
theorem tiled_requests (hhigh : stream.high.toNat ≤ 2 ^ 64 - 12) {low : SeqNo} {r : SeqNo × PubSub}
    (h : Loop.run (requestRound cfg stream) rounds (low, s) = some r) :
    ∃ requests, r.2 = requestAll cfg requests s ∧
      requests.flatMap seqNos = List.range' low.toNat (stream.high.toNat + 1 - low.toNat) ∧
      ∀ info ∈ requests, info.nodeId = stream.nodeId ∧ (seqNos info).length ≤ 11 := by
  induction rounds generalizing low s with
  | zero => exact absurd h (by simp [Loop.run])
  | succ rounds ih =>
    by_cases hle : low ≤ stream.high
    · rw [Loop.run_of_some (by rw [requestRound, if_pos hle])] at h
      obtain ⟨requests, hr, hcovered, hspan⟩ := ih h
      have hle' := UInt64.le_iff_toNat_le.mp hle
      have heleven : (11 : UInt64).toNat = 11 := rfl
      have hadd : (low + 11).toNat = low.toNat + 11 := by
        rw [UInt64.toNat_add, heleven, Nat.mod_eq_of_lt (by omega)]
      refine ⟨truncate { stream with low := low } :: requests, hr, ?_, ?_⟩
      · -- the next request begins where this one ends
        rw [List.flatMap_cons, hcovered, seqNos_truncate hle, hadd]
        rcases Nat.lt_or_ge stream.high.toNat (low.toNat + 11) with hlast | hmore
        · rw [min_eq_right (by omega),
            show stream.high.toNat + 1 - (low.toNat + 11) = 0 by omega, List.range'_zero,
            List.append_nil]
        · rw [min_eq_left (by omega), List.range'_append_1,
            show 11 + (stream.high.toNat + 1 - (low.toNat + 11)) =
              stream.high.toNat + 1 - low.toNat by omega]
      · rw [List.forall_mem_cons, seqNos_truncate hle, List.length_range']
        refine ⟨⟨?_, min_le_left _ _⟩, hspan⟩
        rw [truncate]
        split <;> rfl
    · rw [Loop.run_of_none (by rw [requestRound, if_neg hle])] at h
      obtain rfl := Option.some.inj h
      have hgt := UInt64.lt_iff_toNat_lt.mp (UInt64.not_le.mp hle)
      refine ⟨[], rfl, ?_, by simp⟩
      rw [show stream.high.toNat + 1 - low.toNat = 0 by omega]
      rfl

/-! ## The known mappings -/

/-- Processing a mapping leaves the mappings alone, and succeeds just when it is known. -/
theorem known_of_processMapping {p : Publication} {r : Bool × PubSub}
    (h : processMapping cfg now p s = .ok r) :
    Known cfg now s.mappings p ∧ r.2.mappings = s.mappings :=
  ⟨(processMapping_ok_iff p s).mp ⟨r, h⟩, (performs_processMapping h).frame.mappings⟩

theorem processAll_cons {p : Publication} {ps : List Publication} {r : Bool × PubSub}
    (h : processMapping cfg now p s = .ok r) :
    processAll cfg now (p :: ps) s = processAll cfg now ps r.2 := by
  rw [processAll, List.foldlM_cons, h]
  rfl

/-- What can be processed one after the other is known. -/
theorem known_of_processAll {ps : List Publication} (h : processAll cfg now ps s = .ok s') :
    (∀ p ∈ ps, Known cfg now s.mappings p) ∧ s'.mappings = s.mappings := by
  induction ps generalizing s with
  | nil =>
    obtain rfl := Except.ok.inj h
    exact ⟨by simp, rfl⟩
  | cons p ps ih =>
    cases hp : processMapping cfg now p s with
    | error e =>
      rw [processAll, List.foldlM_cons, hp] at h
      cases h
    | ok r =>
      rw [processAll_cons hp] at h
      obtain ⟨hknown, hmappings⟩ := known_of_processMapping hp
      obtain ⟨hrest, hsame⟩ := ih h
      rw [hmappings] at hrest hsame
      exact ⟨List.forall_mem_cons.mpr ⟨hknown, hrest⟩, hsame⟩

/-- The publications from a number on. -/
theorem publications_succ (nodeId : NodeID) (low : SeqNo) (k : Nat) :
    ((List.range (k + 1)).map fun i => (⟨nodeId, low + .ofNat i⟩ : Publication)) =
      ⟨nodeId, low⟩ :: (List.range k).map fun i => ⟨nodeId, low + 1 + .ofNat i⟩ := by
  rw [List.range_succ_eq_map, List.map_cons, List.map_map]
  congr 1
  · simp
  · apply List.map_congr_left
    intro i _
    rw [Function.comp_apply, Publication.mk.injEq, and_iff_right rfl, Nat.succ_eq_add_one,
      UInt64.ofNat_add, UInt64.add_assoc, UInt64.add_comm 1]
    rfl

/-- The loop processes the range up to a number that is not known, or to its end. -/
theorem tiled_known (hhigh : stream.high.toNat ≤ 2 ^ 64 - 12) {low : SeqNo} {r : SeqNo × PubSub}
    (h : Loop.run (knownRound cfg now stream) rounds (low, s) = some r) :
    ∃ k, r.1.toNat = low.toNat + k ∧ k ≤ stream.high.toNat + 1 - low.toNat ∧
      processAll cfg now ((List.range k).map fun i => ⟨stream.nodeId, low + .ofNat i⟩) s = .ok r.2 ∧
      (r.1 ≤ stream.high → ¬Known cfg now s.mappings ⟨stream.nodeId, r.1⟩) := by
  induction rounds generalizing low s with
  | zero => exact absurd h (by simp [Loop.run])
  | succ rounds ih =>
    by_cases hle : low ≤ stream.high
    · have hle' := UInt64.le_iff_toNat_le.mp hle
      cases hp : processMapping cfg now ⟨stream.nodeId, low⟩ s with
      | ok q =>
        have hround : knownRound cfg now stream (low, s) = some (low + 1, q.2) := by
          rw [knownRound, if_pos hle, hp]
        rw [Loop.run_of_some hround] at h
        obtain ⟨k, hk, hwithin, hprocessed, hleft⟩ := ih h
        have hadd : (low + 1).toNat = low.toNat + 1 := Loop.toNat_add_one (by omega)
        refine ⟨k + 1, by omega, by omega, ?_, ?_⟩
        · rw [publications_succ, processAll_cons hp]
          exact hprocessed
        · rw [← (known_of_processMapping hp).2]
          exact hleft
      | error e =>
        -- the exception leaves the loop
        rw [Loop.run_of_none (by rw [knownRound, if_pos hle, hp])] at h
        obtain rfl := Option.some.inj h
        refine ⟨0, rfl, Nat.zero_le _, rfl, ?_⟩
        intro _ hknown
        obtain ⟨q, hq⟩ := (processMapping_ok_iff _ s).mpr hknown
        rw [hq] at hp
        cases hp
    · rw [Loop.run_of_none (by rw [knownRound, if_neg hle])] at h
      obtain rfl := Option.some.inj h
      exact ⟨0, rfl, Nat.zero_le _, rfl, fun hle' => absurd hle' hle⟩

/-- What an update does for the prefix subscriptions tiles the range. -/
theorem tiled_updatePrefix (hany : s.prefixSubscriptions ≠ [])
    (hhigh : stream.high.toNat ≤ 2 ^ 64 - 12)
    (h : updatePrefixWithin rounds cfg now stream s = some s') :
    Tiled (Known cfg now s.mappings) cfg now stream s s' := by
  rw [updatePrefixWithin, if_neg hany] at h
  obtain ⟨r, hloop, hrest⟩ := Option.bind_eq_some_iff.mp h
  obtain ⟨r', hrequest, hr'⟩ := Option.bind_eq_some_iff.mp hrest
  obtain rfl := Option.some.inj hr'
  obtain ⟨k, hk, hwithin, hprocessed, hleft⟩ := tiled_known hhigh hloop
  obtain ⟨requests, hissued, hcovered, hspan⟩ := tiled_requests hhigh hrequest
  have hnext : stream.low + .ofNat k = r.1 := by
    have hlt := r.1.toNat_lt
    have hmod : k % 2 ^ 64 = k := Nat.mod_eq_of_lt (by omega)
    rw [← UInt64.toNat_inj, UInt64.toNat_add, hk, UInt64.toNat_ofNat', hmod,
      Nat.mod_eq_of_lt (by omega)]
  refine ⟨k, requests, ?_, (known_of_processAll hprocessed).1, ?_, ⟨r.2, hprocessed, hissued⟩, ?_, hspan⟩
  · rw [seqNos, List.length_range']
    exact hwithin
  · rw [seqNos, List.length_range', hnext]
    intro hlt
    exact hleft (UInt64.le_iff_toNat_le.mpr (by omega))
  · rw [hcovered, seqNos, List.drop_range', hk]
    congr 1 <;> omega

/-! ## Updates -/

/-- Mappings and prefix subscriptions are the same. -/
def SameKnowledge (s s' : PubSub) : Prop :=
  s'.mappings = s.mappings ∧ s'.prefixSubscriptions = s.prefixSubscriptions

theorem kept_knowledge (cfg : PubSubConfig) : Kept cfg SameKnowledge where
  refl _ := ⟨rfl, rfl⟩
  trans h h' := ⟨h'.1.trans h.1, h'.2.trans h.2⟩
  queue _ _ _ := ⟨rfl, rfl⟩
  fetchData _ _ _ := ⟨rfl, rfl⟩
  fetchNameMapping _ _ _ := ⟨rfl, rfl⟩

/-- In an update that leads from `s` to `s'`, the stream is tiled when its turn has come:
    after the streams before it, and after its producer subscriptions. -/
def TilesStream (P : Publication → Prop) (rounds : Nat) (cfg : PubSubConfig) (now : UInt64)
    (before : List MissingDataInfo) (stream : MissingDataInfo) (after : List MissingDataInfo)
    (s s' : PubSub) : Prop :=
  ∃ s₀ s₁ s₂ s₃, before.foldlM (updateStreamWithin rounds cfg now) s = some s₀ ∧
    s₀.producerSubscriptions.foldlM (updateProducerWithin rounds cfg stream) s₀ = some s₁ ∧
    Tiled P cfg now stream s₁ s₂ ∧
    after.foldlM (updateStreamWithin rounds cfg now) s₂ = some s₃ ∧
    s' = { s₃.fetchAll cfg with log := (s₃.fetchAll cfg).log ++ [.updated (before ++ stream :: after)] }

/-- An update comes to an end and tiles every range of its report: of each range it
    processes the numbers up to the first one that is not known, and requests the others. -/
theorem updateCallback_tiles (hany : s.prefixSubscriptions ≠ []) {info : List MissingDataInfo}
    (hhigh : ∀ stream ∈ info, stream.high.toNat ≤ 2 ^ 64 - 12) :
    Loop.Ends (fun rounds => updateCallbackWithin rounds cfg now info s) ∧
      ∀ rounds s', updateCallbackWithin rounds cfg now info s = some s' →
        ∀ before stream after, info = before ++ stream :: after →
          TilesStream (Known cfg now s.mappings) rounds cfg now before stream after s s' := by
  constructor
  · rw [ends_updateCallback_iff]
    intro stream hstream _ hmax
    have hle := UInt64.le_iff_toNat_le.mp (hmax maxSeqNo)
    have hlast : (maxSeqNo).toNat = 2 ^ 64 - 1 := rfl
    have := hhigh stream hstream
    omega
  · rintro rounds s' h before stream after rfl
    obtain ⟨s₃, hstreams, hs'⟩ := Option.bind_eq_some_iff.mp h
    rw [List.foldlM_append, Option.bind_eq_bind] at hstreams
    obtain ⟨s₀, hbefore, hrest⟩ := Option.bind_eq_some_iff.mp hstreams
    rw [List.foldlM_cons, Option.bind_eq_bind] at hrest
    obtain ⟨s₂, hstream, hafter⟩ := Option.bind_eq_some_iff.mp hrest
    obtain ⟨s₁, hproducers, hpasses⟩ := Option.bind_eq_some_iff.mp hstream
    -- nothing has changed the mappings when the stream's turn comes
    obtain ⟨hmappings, hsubs⟩ := (kept_knowledge cfg).trans ((kept_knowledge cfg).streams hbefore)
      ((kept_knowledge cfg).producers hproducers)
    have htiled := tiled_updatePrefix (by rw [hsubs]; exact hany)
      (hhigh stream (List.mem_append_right _ List.mem_cons_self)) hpasses
    rw [hmappings] at htiled
    exact ⟨s₀, s₁, s₂, s₃, hbefore, hproducers, htiled, hafter, (Option.some.inj hs').symm⟩

/-- A mapping with a time stamp of three bytes. -/
def oddMapping : MappingEntryPair where
  name := .ofBytes [[120]]
  blocks := [⟨tlv.TimestampNameComponent, [1, 2, 3]⟩]

/-- A node that knows the mapping, and subscribes to everything. -/
def oddNode : PubSub where
  subscriptionCount := 1
  prefixSubscriptions := [⟨1, .ofBytes [], ⟨0, false⟩, false, false⟩]
  mappings := (∅ : MappingStore).insertMapping .packetFormat (.ofBytes [[97]]) 1 oddMapping

/-- Where the age filter cannot read the time stamp, a stored mapping is not processed. -/
theorem not_tiles_stored :
    ¬∀ (cfg : PubSubConfig) (now : UInt64) (s : PubSub) (info : List MissingDataInfo),
      s.prefixSubscriptions ≠ [] →
      (∀ stream ∈ info, 1 ≤ stream.low ∧ stream.low ≤ stream.high ∧
        stream.high.toNat ≤ 2 ^ 64 - 12) →
      ∀ rounds s', updateCallbackWithin rounds cfg now info s = some s' →
        ∀ before stream after, info = before ++ stream :: after →
          TilesStream (Stored s.mappings) rounds cfg now before stream after s s' := by
  intro h
  have hret : (updateCallbackWithin 2 ⟨{ maxPubAge := 10 }, {}, fun _ => none⟩ 0
      [⟨.ofBytes [[97]], 1, 1, 0⟩] oddNode).isSome := by
    decide
  obtain ⟨s', hs'⟩ := Option.isSome_iff_exists.mp hret
  obtain ⟨s₀, s₁, s₂, s₃, hbefore, hproducers, ⟨k, requests, htiling⟩, -⟩ :=
    h _ _ _ _ (by simp [oddNode]) (by decide) 2 s' hs' [] _ [] rfl
  obtain rfl := Option.some.inj hbefore
  obtain rfl := Option.some.inj hproducers
  have hstored : Stored oddNode.mappings ⟨.ofBytes [[97]], 1⟩ := by
    refine ⟨oddMapping, ?_⟩
    decide
  have hlength : (seqNos ⟨.ofBytes [[97]], 1, 1, 0⟩).length = 1 := by decide
  obtain ⟨hwithin, -, hmaximal, ⟨s₁, hprocessed, -⟩, -, -⟩ := htiling
  rw [hlength] at hwithin hmaximal
  interval_cases k
  · exact hmaximal Nat.zero_lt_one hstored
  · obtain ⟨mapping, hmapping, hchecked⟩ := (known_of_processAll hprocessed).1 _ List.mem_cons_self
    have hodd : oddNode.mappings.getMapping ⟨.ofBytes [[97]], 1⟩ = some oddMapping := by
      decide
    have heq : mapping = oddMapping := by
      rw [← Option.some.injEq, ← hmapping]
      exact hodd
    obtain ⟨b, hb, -⟩ := hchecked (by decide) [] _ [] (by rw [heq]; rfl) ⟨rfl, by decide⟩
    exact List.not_mem_nil hb

/-- Two ranges of a node that knows the first number of one of them. -/
theorem updateCallback_tiles_two :
    ∃ s', updateCallbackWithin 20 ⟨{}, {}, fun _ => none⟩ 0
        [⟨.ofBytes [[97]], 1, 24, 0⟩, ⟨.ofBytes [[98]], 5, 6, 0⟩] oddNode = some s' ∧
      TilesStream (Known ⟨{}, {}, fun _ => none⟩ 0 oddNode.mappings) 20 ⟨{}, {}, fun _ => none⟩ 0 []
        ⟨.ofBytes [[97]], 1, 24, 0⟩ [⟨.ofBytes [[98]], 5, 6, 0⟩] oddNode s' := by
  have hret : (updateCallbackWithin 20 ⟨{}, {}, fun _ => none⟩ 0
      [⟨.ofBytes [[97]], 1, 24, 0⟩, ⟨.ofBytes [[98]], 5, 6, 0⟩] oddNode).isSome := by
    decide
  obtain ⟨s', hs'⟩ := Option.isSome_iff_exists.mp hret
  exact ⟨s', hs', (updateCallback_tiles (by simp [oddNode]) (by decide)).2 20 s' hs' [] _ _ rfl⟩

end PubSub

end Svs
