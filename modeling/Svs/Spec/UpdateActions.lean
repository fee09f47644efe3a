import Svs.Native.PubSub

/-!
# What an update does

An update and a mapping reply come down to a list of actions, each of them one operation
of the node: a subscription is queued, a mapping is requested, or the first packet of a
publication.  What an update means for a publication is read off the list.

A producer subscription is queued for a publication when the publication is reported, a
prefix subscription when its mapping is processed: at once if the mapping is known, else
with the reply to the one request that asks for it.  So a report gives each callback one
chance to be queued.

## Key results

- `performs_updateCallbackInternal`: the actions of an update
- `performs_processMappings`: the actions of a mapping reply
-/

namespace Svs

open Std

namespace MissingDataInfo

/-- The stream reports the publication. -/
def Covers (stream : MissingDataInfo) (p : Publication) : Prop :=
  stream.nodeId = p.nodeId ∧ stream.low ≤ p.seqNo ∧ p.seqNo ≤ stream.high

instance (stream : MissingDataInfo) (p : Publication) : Decidable (stream.Covers p) :=
  inferInstanceAs (Decidable (_ ∧ _))

/-- The last number of the loop of `onMappingQuery`, where the range is not empty. -/
theorem max_eq_of_le {low high : SeqNo} (hle : low ≤ high) : max high low = high := by
  show (if high ≤ low then low else high) = high
  split
  · next hge => exact UInt64.le_antisymm hle hge
  · rfl

/-- The query asks for the publication's mapping; `onMappingQuery` goes up to `low` at
    least. -/
def Asks (query : MissingDataInfo) (p : Publication) : Prop :=
  query.nodeId = p.nodeId ∧ query.low ≤ p.seqNo ∧ p.seqNo ≤ max query.high query.low

instance (query : MissingDataInfo) (p : Publication) : Decidable (query.Asks p) :=
  inferInstanceAs (Decidable (_ ∧ _))

end MissingDataInfo

namespace PubSub

/-! ## Actions -/

/-- What an update is made of. -/
inductive Action
  | queue (p : Publication) (sub : Subscription)
  | fetchOne (p : Publication)
  | prefetch (nodeId : NodeID) (seqNo : SeqNo)
  | fetchNameMapping (info : MissingDataInfo)
  | updated (info : List MissingDataInfo)

namespace Action

/-- The operation. -/
def apply (cfg : PubSubConfig) (s : PubSub) : Action → PubSub
  | .queue p sub => s.queue p sub
  | .fetchOne p => PubSub.fetchOne cfg s p
  | .prefetch nodeId seqNo => fetchData cfg (.prefetch nodeId seqNo) 0 s
  | .fetchNameMapping info => PubSub.fetchNameMapping cfg info (-1) s
  | .updated info => { s with log := s.log ++ [.updated info] }

/-- Whether the action queues a subscription with the callback for the publication, or may
    make a mapping reply queue one. -/
def gives (cb : Callback) (p : Publication) : Action → Bool
  | .queue p' sub => sub.callback = cb ∧ p' = p
  | .fetchNameMapping info => cb.toProducer = false ∧ info.Asks p
  | _ => false

end Action

/-- The actions one after the other. -/
def perform (cfg : PubSubConfig) (actions : List Action) (s : PubSub) : PubSub :=
  actions.foldl (Action.apply cfg) s

/-- Subscriptions, mappings and tasks are the same. -/
structure Frame (s s' : PubSub) : Prop where
  registrations : s'.registrations = s.registrations
  producerSubscriptions : s'.producerSubscriptions = s.producerSubscriptions
  prefixSubscriptions : s'.prefixSubscriptions = s.prefixSubscriptions
  mappings : s'.mappings = s.mappings
  tasks : s'.tasks = s.tasks

theorem Frame.trans {s s' s'' : PubSub} (h : Frame s s') (h' : Frame s' s'') : Frame s s'' where
  registrations := h'.registrations.trans h.registrations
  producerSubscriptions := h'.producerSubscriptions.trans h.producerSubscriptions
  prefixSubscriptions := h'.prefixSubscriptions.trans h.prefixSubscriptions
  mappings := h'.mappings.trans h.mappings
  tasks := h'.tasks.trans h.tasks

theorem frame_apply (cfg : PubSubConfig) (s : PubSub) (a : Action) : Frame s (a.apply cfg s) := by
  cases a with
  | fetchOne p =>
    rw [Action.apply, fetchOne]
    split <;> exact ⟨rfl, rfl, rfl, rfl, rfl⟩
  | _ => exact ⟨rfl, rfl, rfl, rfl, rfl⟩

theorem frame_perform (cfg : PubSubConfig) (actions : List Action) (s : PubSub) :
    Frame s (perform cfg actions s) := by
  induction actions generalizing s with
  | nil => exact ⟨rfl, rfl, rfl, rfl, rfl⟩
  | cons a actions ih => exact (frame_apply cfg s a).trans (ih _)

/-- Each registration has its own callback, of its kind. -/
structure Registered (s : PubSub) : Prop where
  producer : ∀ sub ∈ s.producerSubscriptions,
    sub.callback.toProducer = true ∧ sub.callback.registration < s.registrations
  pref : ∀ sub ∈ s.prefixSubscriptions,
    sub.callback.toProducer = false ∧ sub.callback.registration < s.registrations
  producer_nodup : (s.producerSubscriptions.map (·.callback)).Nodup
  prefix_nodup : (s.prefixSubscriptions.map (·.callback)).Nodup

/-- A producer callback is at most one producer subscription's, and a prefix callback is
    none's. -/
theorem Registered.count_producer_le {s : PubSub} (hreg : Registered s) (cb : Callback) :
    (s.producerSubscriptions.map (·.callback)).count cb ≤ if cb.toProducer then 1 else 0 := by
  split
  · exact List.nodup_iff_count_le_one.mp hreg.producer_nodup cb
  · next hcb =>
    rw [Nat.le_zero, List.count_eq_zero]
    intro hmem
    obtain ⟨sub, hsub, rfl⟩ := List.mem_map.mp hmem
    exact hcb (hreg.producer sub hsub).1

theorem Registered.count_prefix_le {s : PubSub} (hreg : Registered s) (cb : Callback) :
    (s.prefixSubscriptions.map (·.callback)).count cb ≤ if cb.toProducer then 0 else 1 := by
  split
  · next hcb =>
    rw [Nat.le_zero, List.count_eq_zero]
    intro hmem
    obtain ⟨sub, hsub, rfl⟩ := List.mem_map.mp hmem
    rw [(hreg.pref sub hsub).1] at hcb
    exact Bool.false_ne_true hcb
  · exact List.nodup_iff_count_le_one.mp hreg.prefix_nodup cb

/-- Actions lead from `s` to `s'` that queue whom `P` allows, and give each callback at most
    `c` chances when each registration has its own. -/
def Performs (cfg : PubSubConfig) (P : Subscription → Publication → Prop)
    (c : Callback → Publication → Nat) (s s' : PubSub) : Prop :=
  ∃ actions, s' = perform cfg actions s ∧ (∀ sub p, .queue p sub ∈ actions → P sub p) ∧
    (Registered s → ∀ cb p, actions.countP (·.gives cb p) ≤ c cb p)

variable {P : Subscription → Publication → Prop} {c c' : Callback → Publication → Nat}
  {s s' s'' : PubSub} {cfg : PubSubConfig} {now : UInt64} {p : Publication}

theorem Registered.of_eq (h : Registered s) (hregistrations : s'.registrations = s.registrations)
    (hproducer : s'.producerSubscriptions = s.producerSubscriptions)
    (hsubscriptions : s'.prefixSubscriptions = s.prefixSubscriptions) : Registered s' := by
  obtain ⟨hproducers, hprefixes, hproducerNodup, hprefixNodup⟩ := h
  rw [← hproducer] at hproducers hproducerNodup
  rw [← hsubscriptions] at hprefixes hprefixNodup
  rw [← hregistrations] at hproducers hprefixes
  exact ⟨hproducers, hprefixes, hproducerNodup, hprefixNodup⟩

theorem Frame.registered (h : Frame s s') (hreg : Registered s) : Registered s' :=
  hreg.of_eq h.registrations h.producerSubscriptions h.prefixSubscriptions

theorem Performs.frame (h : Performs cfg P c s s') : Frame s s' := by
  obtain ⟨actions, rfl, -⟩ := h
  exact frame_perform cfg actions s

theorem Performs.refl (s : PubSub) : Performs cfg P c s s :=
  ⟨[], rfl, nofun, fun _ _ _ => Nat.zero_le _⟩

theorem Performs.trans (h : Performs cfg P c s s') (h' : Performs cfg P c' s' s'') :
    Performs cfg P (fun cb p => c cb p + c' cb p) s s'' := by
  have hframe := h.frame
  obtain ⟨actions, rfl, hP, hc⟩ := h
  obtain ⟨actions', rfl, hP', hc'⟩ := h'
  refine ⟨actions ++ actions', List.foldl_append.symm, ?_, ?_⟩
  · intro sub p hmem
    exact (List.mem_append.mp hmem).elim (hP sub p) (hP' sub p)
  · intro hreg cb p
    rw [List.countP_append]
    exact Nat.add_le_add (hc hreg cb p) (hc' (hframe.registered hreg) cb p)

theorem Performs.imp {P' : Subscription → Publication → Prop} (h : Performs cfg P c s s')
    (hP : ∀ sub p, P sub p → P' sub p) : Performs cfg P' c s s' := by
  obtain ⟨actions, rfl, hactions, hcount⟩ := h
  exact ⟨actions, rfl, fun sub p hmem => hP sub p (hactions sub p hmem), hcount⟩

theorem Performs.le (h : Performs cfg P c s s') (hc : Registered s → ∀ cb p, c cb p ≤ c' cb p) :
    Performs cfg P c' s s' := by
  obtain ⟨actions, rfl, hactions, hcount⟩ := h
  exact ⟨actions, rfl, hactions, fun hreg cb p => (hcount hreg cb p).trans (hc hreg cb p)⟩

/-- Actions that queue nobody, and make no reply queue anybody. -/
abbrev Silent (cfg : PubSubConfig) (s s' : PubSub) : Prop :=
  Performs cfg (fun _ _ => False) (fun _ _ => 0) s s'

theorem Performs.trans_silent (h : Performs cfg P c s s') (h' : Silent cfg s' s'') :
    Performs cfg P c s s'' :=
  h.trans (h'.imp fun _ _ => False.elim)

theorem silent_apply {a : Action} (s : PubSub) (hqueue : ∀ p sub, a ≠ .queue p sub)
    (hgives : ∀ cb p, a.gives cb p = false) : Silent cfg s (a.apply cfg s) := by
  refine ⟨[a], rfl, ?_, ?_⟩
  · intro sub p hmem
    exact absurd (List.mem_singleton.mp hmem).symm (hqueue p sub)
  · intro _ cb p
    simp [hgives cb p]

theorem performs_queue (sub : Subscription) (p : Publication) (s : PubSub) :
    Performs cfg (fun sub' p' => sub' = sub ∧ p' = p)
      (fun cb p' => if sub.callback = cb ∧ p = p' then 1 else 0) s (s.queue p sub) := by
  refine ⟨[.queue p sub], rfl, ?_, ?_⟩
  · intro sub' p' hmem
    obtain ⟨rfl, rfl⟩ := Action.queue.inj (List.mem_singleton.mp hmem)
    exact ⟨rfl, rfl⟩
  · intro _ cb p'
    simp [List.countP_singleton, Action.gives]

theorem performs_foldl_queue (subs : List Subscription) (p : Publication) (s : PubSub) :
    Performs cfg (fun sub' p' => sub' ∈ subs ∧ p' = p)
      (fun cb p' => if p = p' then (subs.map (·.callback)).count cb else 0) s
      (subs.foldl (queue p) s) := by
  induction subs generalizing s with
  | nil => exact .refl s
  | cons sub subs ih =>
    have hfirst : ∀ sub' p', sub' = sub ∧ p' = p → sub' ∈ sub :: subs ∧ p' = p :=
      fun _ _ h => And.imp_left (fun heq => List.mem_cons.mpr (.inl heq)) h
    have hrest : ∀ sub' p', sub' ∈ subs ∧ p' = p → sub' ∈ sub :: subs ∧ p' = p :=
      fun _ _ h => And.imp_left (List.mem_cons_of_mem sub) h
    refine (((performs_queue sub p s).imp hfirst).trans ((ih _).imp hrest)).le ?_
    intro _ cb p'
    rw [List.map_cons, List.count_cons]
    by_cases hp : p = p'
    · simp only [hp, and_true, if_true, beq_iff_eq]
      omega
    · simp [hp]

theorem silent_fetchAll (s : PubSub) : Silent cfg s (s.fetchAll cfg) := by
  rw [fetchAll]
  induction s.fetchMap.keys generalizing s with
  | nil => exact .refl s
  | cons key keys ih =>
    have hfirst : Silent cfg s (fetchOne cfg s key) :=
      silent_apply (a := .fetchOne key) s nofun fun _ _ => rfl
    exact hfirst.trans_silent (ih _)

/-! ## Mappings -/

/-- The subscription is one that `processMapping` queues for the publication, if it is
    among the prefix subscriptions. -/
def Wants (cfg : PubSubConfig) (now : UInt64) (mappings : MappingStore) (p : Publication)
    (sub : Subscription) : Prop :=
  ∃ mapping, mappings.getMapping p = some mapping ∧ expired cfg now mapping.blocks = .ok false ∧
    sub.pref.isPrefixOf mapping.name

/-- What `processMapping` does when it returns: it queues prefix subscriptions. -/
theorem processMapping_eq_ok {cfg : PubSubConfig} {now : UInt64} {r : Bool × PubSub}
    (h : processMapping cfg now p s = .ok r) :
    ∃ subs : List Subscription, r = (!subs.isEmpty, subs.foldl (queue p) s) ∧
      subs.Sublist s.prefixSubscriptions ∧ ∀ sub ∈ subs, Wants cfg now s.mappings p sub := by
  rw [processMapping] at h
  split at h
  · exact nomatch h
  · next mapping hmapping =>
    cases hold : expired cfg now mapping.blocks with
    | error e => rw [hold] at h; exact nomatch h
    | ok old =>
      rw [hold] at h
      cases old with
      | true =>
        obtain rfl := Except.ok.inj h
        exact ⟨[], rfl, List.nil_sublist _, nofun⟩
      | false =>
        obtain rfl := Except.ok.inj h
        refine ⟨_, rfl, List.filter_sublist, ?_⟩
        intro sub hsub
        exact ⟨mapping, hmapping, hold, (List.mem_filter.mp hsub).2⟩

/-- An update that reports the publication queues the subscription for it. -/
def Joins (cfg : PubSubConfig) (now : UInt64) (s : PubSub) (p : Publication) (sub : Subscription) :
    Prop :=
  (sub ∈ s.producerSubscriptions ∧ sub.pref.isPrefixOf p.nodeId) ∨
    (sub ∈ s.prefixSubscriptions ∧ Wants cfg now s.mappings p sub)

theorem Performs.joins_iff (h : Performs cfg P c s s') (p : Publication) (sub : Subscription) :
    Joins cfg now s' p sub ↔ Joins cfg now s p sub := by
  rw [Joins, Joins, h.frame.producerSubscriptions, h.frame.prefixSubscriptions, h.frame.mappings]

/-- Whoever joins later would have joined at first. -/
theorem Performs.trans_joins {Q : Publication → Prop}
    (h : Performs cfg (fun sub p => Q p ∧ Joins cfg now s p sub) c s s')
    (h' : Performs cfg (fun sub p => Q p ∧ Joins cfg now s' p sub) c' s' s'') :
    Performs cfg (fun sub p => Q p ∧ Joins cfg now s p sub) (fun cb p => c cb p + c' cb p) s s'' :=
  h.trans (h'.imp fun sub p hqueued => And.imp_right (h.joins_iff p sub).mp hqueued)

/-- Processing a mapping gives each prefix callback one chance. -/
theorem performs_processMapping {r : Bool × PubSub} (h : processMapping cfg now p s = .ok r) :
    Performs cfg
      (fun sub p' => p = p' ∧ sub ∈ s.prefixSubscriptions ∧ Wants cfg now s.mappings p sub)
      (fun cb p' => if cb.toProducer = false ∧ p = p' then 1 else 0) s r.2 := by
  obtain ⟨subs, rfl, hsublist, hwants⟩ := processMapping_eq_ok h
  refine ((performs_foldl_queue subs p s).imp ?_).le ?_
  · intro sub p' hqueued
    exact ⟨hqueued.2.symm, hsublist.subset hqueued.1, hwants sub hqueued.1⟩
  · intro hreg cb p'
    have hle : (subs.map (·.callback)).count cb ≤ (s.prefixSubscriptions.map (·.callback)).count cb :=
      (hsublist.map _).count_le cb
    have hprefixes := hreg.count_prefix_le cb
    grind

/-! ## Loops over a stream -/

theorem queueRound_eq (stream : MissingDataInfo) (sub : Subscription) :
    queueRound stream sub =
      Loop.upTo stream.high fun i s => some (s.queue ⟨stream.nodeId, i⟩ sub) := by
  funext x
  rw [queueRound, Loop.upTo]
  rfl

theorem knownRound_eq (cfg : PubSubConfig) (now : UInt64) (stream : MissingDataInfo) :
    knownRound cfg now stream = Loop.upTo stream.high fun i s =>
      match processMapping cfg now ⟨stream.nodeId, i⟩ s with
      | .ok r => some r.2
      | .error _ => none := by
  funext x
  rw [knownRound, Loop.upTo]
  cases processMapping cfg now ⟨stream.nodeId, x.1⟩ x.2 <;> rfl

/-- A stream up to the largest sequence number would keep the requests coming. -/
theorem not_max_of_requests {stream : MissingDataInfo} {fuel : Nat} {x r : SeqNo × PubSub}
    (h : Loop.run (requestRound cfg stream) fuel x = some r) : ¬∀ i, i ≤ stream.high := by
  intro hhigh
  have hnone : Loop.run (requestRound cfg stream) fuel x = none := by
    apply Loop.run_eq_none (I := fun _ => True) fuel trivial
    intro a _
    exact ⟨_, by rw [requestRound, if_pos (hhigh a.1)], trivial⟩
  simp [hnone] at h

/-- A loop over the stream has come past the publication. -/
def Passed (stream : MissingDataInfo) (i : SeqNo) (p : Publication) : Prop :=
  stream.nodeId = p.nodeId ∧ stream.low ≤ p.seqNo ∧ p.seqNo < i

instance (stream : MissingDataInfo) (i : SeqNo) (p : Publication) : Decidable (Passed stream i p) :=
  inferInstanceAs (Decidable (_ ∧ _))

theorem passed_succ_iff {stream : MissingDataInfo} {i : SeqNo} (hhigh : ¬∀ i, i ≤ stream.high)
    (hlow : stream.low ≤ i) (hle : i ≤ stream.high) (p : Publication) :
    Passed stream (i + 1) p ↔ Passed stream i p ∨ ⟨stream.nodeId, i⟩ = p := by
  push Not at hhigh
  obtain ⟨m, hm⟩ := hhigh
  obtain ⟨nodeId, seqNo⟩ := p
  rw [Passed, Passed, Publication.mk.injEq]
  grind

theorem not_passed_self (stream : MissingDataInfo) (i : SeqNo) :
    ¬Passed stream i ⟨stream.nodeId, i⟩ := fun h => absurd h.2.2 (UInt64.lt_irrefl i)

/-- A round queues the producer subscription for the number that the loop has come to. -/
theorem Performs.queue_next {stream : MissingDataInfo} {sub : Subscription} {i : SeqNo} {a : PubSub}
    (ha : Performs cfg (fun sub p => stream.Covers p ∧ Joins cfg now s p sub)
      (fun cb p => if Passed stream i p ∧ sub.callback = cb then 1 else 0) s a)
    (hsub : sub ∈ s.producerSubscriptions) (hpref : sub.pref.isPrefixOf stream.nodeId = true)
    (hhigh : ¬∀ i, i ≤ stream.high) (hlow : stream.low ≤ i) (hle : i ≤ stream.high) :
    Performs cfg (fun sub p => stream.Covers p ∧ Joins cfg now s p sub)
      (fun cb p => if Passed stream (i + 1) p ∧ sub.callback = cb then 1 else 0) s
      (a.queue ⟨stream.nodeId, i⟩ sub) := by
  have hqueued : ∀ sub' p, sub' = sub ∧ p = ⟨stream.nodeId, i⟩ →
      stream.Covers p ∧ Joins cfg now s p sub' := by
    intro sub' p h
    obtain ⟨rfl, rfl⟩ := h
    exact ⟨⟨rfl, hlow, hle⟩, .inl ⟨hsub, hpref⟩⟩
  refine (ha.trans ((performs_queue sub _ a).imp hqueued)).le ?_
  -- the number has not been passed before, and has been after the round
  intro _ cb p
  have hsucc := passed_succ_iff hhigh hlow hle p
  have hself := not_passed_self stream i
  grind

theorem performs_updateProducer {stream : MissingDataInfo} {sub : Subscription}
    (hsub : sub ∈ s.producerSubscriptions) (h : updateProducer cfg stream s sub = some s') :
    Performs cfg (fun sub p => stream.Covers p ∧ Joins cfg now s p sub)
      (fun cb p => if stream.Covers p ∧ sub.callback = cb then 1 else 0) s s' := by
  rw [updateProducer] at h
  split at h
  · next hpref =>
    obtain ⟨r, hrun, hrest⟩ := Option.bind_eq_some_iff.mp h
    rw [queueRound_eq] at hrun
    have hhigh : ¬∀ i, i ≤ stream.high := Loop.not_max_of_run_upTo hrun
    obtain ⟨hperforms, -, hle, -⟩ := Loop.run_upTo
      (I := fun i a => Performs cfg (fun sub p => stream.Covers p ∧ Joins cfg now s p sub)
        (fun cb p => if Passed stream i p ∧ sub.callback = cb then 1 else 0) s a) hhigh hrun (.refl s) (by
        intro i a b hlow hle ha hb
        obtain rfl := Option.some.inj hb
        exact ha.queue_next hsub hpref hhigh hlow hle)
    -- the prefetch queues nobody
    have hprefetch : Silent cfg r.2 s' := by
      obtain rfl := Option.some.inj hrest
      split
      · exact silent_apply (a := .prefetch _ _) _ nofun fun _ _ => rfl
      · exact .refl _
    refine (hperforms.trans_silent hprefetch).le ?_
    intro _ cb p
    have hcovers : Passed stream r.1 p → stream.Covers p :=
      fun hpassed => ⟨hpassed.1, hpassed.2.1, hle _ hpassed.2.1 hpassed.2.2⟩
    grind
  · obtain rfl := Option.some.inj h
    exact .refl s

/-- The rest of the stream from a number on. -/
def Remains (stream : MissingDataInfo) (low : SeqNo) (p : Publication) : Prop :=
  stream.nodeId = p.nodeId ∧ low ≤ p.seqNo ∧ p.seqNo ≤ stream.high

instance (stream : MissingDataInfo) (low : SeqNo) (p : Publication) : Decidable (Remains stream low p) :=
  inferInstanceAs (Decidable (_ ∧ _))

/-- A request for what remains asks for the next eleven numbers, or for all there are. -/
theorem asks_truncate_iff {stream : MissingDataInfo} {low : SeqNo} (hle : low ≤ stream.high)
    (p : Publication) :
    (truncate { stream with low := low }).Asks p ↔
      Remains stream low p ∧ p.seqNo.toNat < low.toNat + 11 := by
  have hsub : (stream.high - low).toNat = stream.high.toNat - low.toNat :=
    UInt64.toNat_sub_of_le _ _ hle
  have hbound := stream.high.toNat_lt
  rw [truncate]
  split
  · next hlong =>
    -- there is room for eleven numbers
    have hroom : 10 < stream.high.toNat - low.toNat := hsub ▸ UInt64.lt_iff_toNat_lt.mp hlong
    have hadd : (low + 10).toNat = low.toNat + 10 := by
      rw [UInt64.toNat_add]
      exact Nat.mod_eq_of_lt (by simp; omega)
    have hle' : low ≤ low + 10 := by
      rw [UInt64.le_iff_toNat_le]
      omega
    rw [MissingDataInfo.Asks, MissingDataInfo.max_eq_of_le hle', Remains]
    simp only [UInt64.le_iff_toNat_le, hadd]
    constructor
    · rintro ⟨hnode, hlow, hhigh⟩
      exact ⟨⟨hnode, hlow, by omega⟩, by omega⟩
    · rintro ⟨⟨hnode, hlow, -⟩, hlt⟩
      exact ⟨hnode, hlow, by omega⟩
  · next hshort =>
    -- what remains fits into one request
    have hfew : ¬10 < stream.high.toNat - low.toNat :=
      fun h => hshort (UInt64.lt_iff_toNat_lt.mpr (hsub ▸ h))
    rw [MissingDataInfo.Asks, MissingDataInfo.max_eq_of_le hle, Remains]
    simp only [UInt64.le_iff_toNat_le]
    constructor
    · rintro ⟨hnode, hlow, hhigh⟩
      exact ⟨⟨hnode, hlow, hhigh⟩, by omega⟩
    · rintro ⟨⟨hnode, hlow, hhigh⟩, -⟩
      exact ⟨hnode, hlow, hhigh⟩

/-- A loop that has far to go takes many rounds. -/
theorem lt_of_run_request {stream : MissingDataInfo} {fuel : Nat} {low : SeqNo} {r : SeqNo × PubSub}
    (h : Loop.run (requestRound cfg stream) fuel (low, s) = some r) {k : Nat}
    (hk : low.toNat + 11 * k ≤ stream.high.toNat) : k < fuel := by
  induction fuel generalizing k low s with
  | zero => exact nomatch h
  | succ fuel ih =>
    cases k with
    | zero => exact Nat.succ_pos _
    | succ k =>
      have hround : low ≤ stream.high := by
        rw [UInt64.le_iff_toNat_le]
        omega
      rw [Loop.run_of_some (by rw [requestRound, if_pos hround])] at h
      have hadd : (low + 11).toNat = low.toNat + 11 := by
        have := stream.high.toNat_lt
        rw [UInt64.toNat_add]
        exact Nat.mod_eq_of_lt (by simp; omega)
      exact Nat.succ_lt_succ (ih h (by omega))

/-- A request gives each prefix callback one chance for what it asks for. -/
theorem performs_fetchNameMapping (info : MissingDataInfo) (s : PubSub) :
    Performs cfg P (fun cb p => if cb.toProducer = false ∧ info.Asks p then 1 else 0) s
      (fetchNameMapping cfg info (-1) s) := by
  refine ⟨[.fetchNameMapping info], rfl, ?_, ?_⟩
  · intro sub p hmem
    exact nomatch List.mem_singleton.mp hmem
  · intro _ cb p
    simp [List.countP_singleton, Action.gives]

/-- The requests ask once for what remains. -/
theorem performs_requests {stream : MissingDataInfo} {fuel : Nat} (hfuel : fuel ≤ memoryLimit)
    {low : SeqNo} {r : SeqNo × PubSub}
    (h : Loop.run (requestRound cfg stream) fuel (low, s) = some r) :
    Performs cfg P (fun cb p => if cb.toProducer = false ∧ Remains stream low p then 1 else 0) s r.2 := by
  induction fuel generalizing low s with
  | zero => exact nomatch h
  | succ fuel ih =>
    by_cases hle : low ≤ stream.high
    · rw [Loop.run_of_some (by rw [requestRound, if_pos hle])] at h
      have hbound := stream.high.toNat_lt
      have hle' := UInt64.le_iff_toNat_le.mp hle
      have hmod : (low + 11).toNat = (low.toNat + 11) % 2 ^ 64 := UInt64.toNat_add _ _
      have hadd : (low + 11).toNat = low.toNat + 11 := by
        by_contra hwrap
        -- after the wrap the loop has more rounds to go than it can make
        have hlimit : memoryLimit = 2 ^ 60 := rfl
        have hlt := lt_of_run_request (k := memoryLimit) h (by omega)
        omega
      refine ((performs_fetchNameMapping _ _).trans (ih (by omega) h)).le ?_
      intro _ cb p
      have hasks := asks_truncate_iff hle p
      have hremains : Remains stream (low + 11) p ↔
          Remains stream low p ∧ low.toNat + 11 ≤ p.seqNo.toNat := by
        simp only [Remains, UInt64.le_iff_toNat_le, hadd]
        constructor
        · rintro ⟨hnode, hlow, hhigh⟩
          exact ⟨⟨hnode, by omega, hhigh⟩, hlow⟩
        · rintro ⟨⟨hnode, -, hhigh⟩, hlow⟩
          exact ⟨hnode, hlow, hhigh⟩
      grind
    · rw [Loop.run_of_none (by rw [requestRound, if_neg hle])] at h
      obtain rfl := Option.some.inj h
      exact .refl s

/-- A round queues the prefix subscriptions that the known mapping is for. -/
theorem Performs.processMapping_next {stream : MissingDataInfo} {i : SeqNo} {a : PubSub}
    {q : Bool × PubSub}
    (ha : Performs cfg (fun sub p => stream.Covers p ∧ Joins cfg now s p sub)
      (fun cb p => if cb.toProducer = false ∧ Passed stream i p then 1 else 0) s a)
    (hq : processMapping cfg now ⟨stream.nodeId, i⟩ a = .ok q) (hhigh : ¬∀ i, i ≤ stream.high)
    (hlow : stream.low ≤ i) (hle : i ≤ stream.high) :
    Performs cfg (fun sub p => stream.Covers p ∧ Joins cfg now s p sub)
      (fun cb p => if cb.toProducer = false ∧ Passed stream (i + 1) p then 1 else 0) s q.2 := by
  have hqueued : ∀ sub p, (⟨stream.nodeId, i⟩ = p ∧ sub ∈ a.prefixSubscriptions ∧
      Wants cfg now a.mappings ⟨stream.nodeId, i⟩ sub) →
        stream.Covers p ∧ Joins cfg now s p sub := by
    intro sub p h
    obtain ⟨rfl, hwants⟩ := h
    exact ⟨⟨rfl, hlow, hle⟩, (ha.joins_iff _ sub).mp (.inr hwants)⟩
  refine (ha.trans ((performs_processMapping hq).imp hqueued)).le ?_
  intro _ cb p
  have hsucc := passed_succ_iff hhigh hlow hle p
  have hself := not_passed_self stream i
  grind

/-- What is done for the prefix subscriptions gives each of them one chance. -/
theorem performs_updatePrefix {stream : MissingDataInfo} (h : updatePrefix cfg now stream s = some s') :
    Performs cfg (fun sub p => stream.Covers p ∧ Joins cfg now s p sub)
      (fun cb p => if cb.toProducer = false ∧ stream.Covers p then 1 else 0) s s' := by
  rw [updatePrefix] at h
  split at h
  · obtain rfl := Option.some.inj h
    exact .refl s
  · obtain ⟨r, hknown, h⟩ := Option.bind_eq_some_iff.mp h
    obtain ⟨r', hrequest, h⟩ := Option.bind_eq_some_iff.mp h
    obtain rfl := Option.some.inj h
    have hhigh : ¬∀ i, i ≤ stream.high := not_max_of_requests hrequest
    rw [knownRound_eq] at hknown
    obtain ⟨hperforms, hlow, hle, -⟩ := Loop.run_upTo
      (I := fun i a => Performs cfg (fun sub p => stream.Covers p ∧ Joins cfg now s p sub)
        (fun cb p => if cb.toProducer = false ∧ Passed stream i p then 1 else 0) s a)
      hhigh hknown (.refl s) (by
        intro i a b hlow hle ha hb
        split at hb
        · next q hq =>
          obtain rfl := Option.some.inj hb
          exact ha.processMapping_next hq hhigh hlow hle
        · simp at hb)
    refine (hperforms.trans (performs_requests le_rfl hrequest)).le ?_
    -- what has been passed is not what remains
    intro _ cb p
    have hpassed : Passed stream r.1 p → stream.Covers p ∧ ¬Remains stream r.1 p := by
      intro hp
      exact ⟨⟨hp.1, hp.2.1, hle _ hp.2.1 hp.2.2⟩, fun hr => absurd hp.2.2 (UInt64.not_lt.mpr hr.2.1)⟩
    have hremains : Remains stream r.1 p → stream.Covers p :=
      fun hr => ⟨hr.1, UInt64.le_trans hlow hr.2.1, hr.2.2⟩
    grind

/-! ## Updates -/

theorem performs_producers {stream : MissingDataInfo} {l : List Subscription} {a : PubSub}
    (hl : ∀ sub ∈ l, sub ∈ s.producerSubscriptions)
    (ha : Performs cfg (fun sub p => stream.Covers p ∧ Joins cfg now s p sub) c s a)
    (h : l.foldlM (updateProducer cfg stream) a = some s') :
    Performs cfg (fun sub p => stream.Covers p ∧ Joins cfg now s p sub)
      (fun cb p => c cb p + if stream.Covers p then (l.map (·.callback)).count cb else 0) s s' := by
  induction l generalizing a c with
  | nil =>
    obtain rfl := Option.some.inj h
    exact ha.le fun _ _ _ => Nat.le_add_right _ _
  | cons sub l ih =>
    rw [List.forall_mem_cons] at hl
    obtain ⟨b, hb, h⟩ := Option.bind_eq_some_iff.mp h
    -- the rounds before have not changed who subscribes
    have hsub : sub ∈ a.producerSubscriptions := ha.frame.producerSubscriptions ▸ hl.1
    refine (ih hl.2 (ha.trans_joins (performs_updateProducer hsub hb)) h).le ?_
    intro _ cb p
    rw [List.map_cons, List.count_cons]
    grind

/-- A report gives each callback one chance for what it covers. -/
theorem performs_updateStream {stream : MissingDataInfo} (h : updateStream cfg now s stream = some s') :
    Performs cfg (fun sub p => stream.Covers p ∧ Joins cfg now s p sub)
      (fun _ p => if stream.Covers p then 1 else 0) s s' := by
  obtain ⟨s₁, hproducer, hrest⟩ := Option.bind_eq_some_iff.mp h
  have hproducers : Performs cfg (fun sub p => stream.Covers p ∧ Joins cfg now s p sub) _ s s₁ :=
    performs_producers (c := fun _ _ => 0) (fun _ => id) (.refl s) hproducer
  refine (hproducers.trans_joins (performs_updatePrefix hrest)).le ?_
  -- a callback is of one kind, so that one part of the update concerns it
  intro hreg cb p
  have hcount := hreg.count_producer_le cb
  grind

theorem performs_streams {info l : List MissingDataInfo} {a : PubSub} (hl : ∀ stream ∈ l, stream ∈ info)
    (ha : Performs cfg (fun sub p => (∃ stream ∈ info, stream.Covers p) ∧ Joins cfg now s p sub) c s a)
    (h : l.foldlM (updateStream cfg now) a = some s') :
    Performs cfg (fun sub p => (∃ stream ∈ info, stream.Covers p) ∧ Joins cfg now s p sub)
      (fun cb p => c cb p + l.countP (·.Covers p)) s s' := by
  induction l generalizing a c with
  | nil =>
    obtain rfl := Option.some.inj h
    exact ha
  | cons stream l ih =>
    rw [List.forall_mem_cons] at hl
    obtain ⟨b, hb, h⟩ := Option.bind_eq_some_iff.mp h
    have hqueued : ∀ sub p, stream.Covers p ∧ Joins cfg now a p sub →
        (∃ stream ∈ info, stream.Covers p) ∧ Joins cfg now a p sub :=
      fun _ _ h => And.imp_left (fun hcovers => ⟨stream, hl.1, hcovers⟩) h
    refine (ih hl.2 (ha.trans_joins ((performs_updateStream hb).imp hqueued)) h).le ?_
    intro _ cb p
    rw [List.countP_cons]
    grind

/-- An update queues subscriptions for what it reports, and gives each callback one chance
    for each time that it reports the publication. -/
theorem performs_updateCallbackInternal {info : List MissingDataInfo}
    (h : updateCallbackInternal cfg now info s = some s') :
    Performs cfg (fun sub p => (∃ stream ∈ info, stream.Covers p) ∧ Joins cfg now s p sub)
      (fun _ p => info.countP (·.Covers p)) s s' := by
  obtain ⟨s₁, hstreams, h⟩ := Option.bind_eq_some_iff.mp h
  obtain rfl := Option.some.inj h
  have hperforms : Performs cfg (fun sub p => (∃ stream ∈ info, stream.Covers p) ∧ Joins cfg now s p sub)
      _ s s₁ := performs_streams (c := fun _ _ => 0) (fun _ => id) (.refl s) hstreams
  have hupdated : Silent cfg (s₁.fetchAll cfg) ((Action.updated info).apply cfg (s₁.fetchAll cfg)) :=
    silent_apply _ nofun fun _ _ => rfl
  refine ((hperforms.trans_silent (silent_fetchAll s₁)).trans_silent hupdated).le ?_
  intro _ cb p
  exact (Nat.zero_add _).le

/-- An update that does not return is left out of a run. -/
theorem step_update_cases (cfg : PubSubConfig) (now : UInt64) (info : List MissingDataInfo)
    (s : PubSub) :
    s.step cfg (now, .update info) = s ∨
      ∃ s', updateCallbackInternal cfg now info s = some s' ∧ s.step cfg (now, .update info) = s' := by
  show (updateCallbackInternal cfg now info s).getD s = s ∨
    ∃ s', updateCallbackInternal cfg now info s = some s' ∧
      (updateCallbackInternal cfg now info s).getD s = s'
  cases updateCallbackInternal cfg now info s with
  | none => exact .inl rfl
  | some s' => exact .inr ⟨s', rfl, rfl⟩

/-! ## Mapping replies -/

/-- A mapping reply queues prefix subscriptions for what it names, and gives each prefix
    callback one chance for each time that it names the publication. -/
theorem performs_processMappings (cfg : PubSubConfig) (now : UInt64) (streamName : NodeID)
    (pairs : List (SeqNo × MappingEntryPair)) (queued : Bool) (s : PubSub) :
    Performs cfg
      (fun sub p => (streamName = p.nodeId ∧ p.seqNo ∈ pairs.map (·.1)) ∧
        sub ∈ s.prefixSubscriptions ∧ Wants cfg now s.mappings p sub)
      (fun cb p => if cb.toProducer = false ∧ streamName = p.nodeId then (pairs.map (·.1)).count p.seqNo
        else 0) s (processMappings cfg now streamName pairs queued s) := by
  induction pairs generalizing s queued with
  | nil =>
    rw [processMappings]
    split
    · exact (Performs.refl s).trans_silent (silent_fetchAll s)
    · exact .refl s
  | cons pair pairs ih =>
    rw [processMappings]
    split
    · next q s₁ h =>
      have hperforms := performs_processMapping h
      have hrest := ih (queued || q) s₁
      rw [hperforms.frame.prefixSubscriptions, hperforms.frame.mappings] at hrest
      refine ((hperforms.imp ?_).trans (hrest.imp ?_)).le ?_
      · intro sub p hqueued
        obtain ⟨rfl, hwants⟩ := hqueued
        exact ⟨⟨rfl, List.mem_cons_self⟩, hwants⟩
      · intro sub p hqueued
        exact ⟨⟨hqueued.1.1, List.mem_cons_of_mem _ hqueued.1.2⟩, hqueued.2⟩
      · intro _ cb p
        obtain ⟨nodeId, seqNo⟩ := p
        rw [List.map_cons, List.count_cons]
        grind
    · exact .refl s

/-- The node when the mapping fetcher has handled the event, before the callback. -/
def afterMappingFetcher (cfg : PubSubConfig) (event : FetchEvent Data) (s : PubSub) : PubSub :=
  { s with mappingFetcher := (s.mappingFetcher.step cfg.securityOptions event).1 }

/-- The node when the mappings of a reply have been stored too. -/
def storeMappings (nodeId : NodeID) (pairs : List (SeqNo × MappingEntryPair)) (s : PubSub) : PubSub :=
  { s with mappings := s.mappings.addMappings nodeId pairs }

/-- Nothing else comes of an event of the mapping fetcher, or the list in a reply is stored
    and processed. -/
theorem step_fetchMapping_cases (cfg : PubSubConfig) (now : UInt64) (event : FetchEvent Data)
    (s : PubSub) :
    s.step cfg (now, .fetchMapping event) = s.afterMappingFetcher cfg event ∨
      ∃ info data list,
        (s.mappingFetcher.step cfg.securityOptions event).2 = some (info, .satisfied data) ∧
          mappingListOf data = some list ∧
          s.step cfg (now, .fetchMapping event) =
            processMappings cfg now info.nodeId list.pairs false
              ((s.afterMappingFetcher cfg event).storeMappings info.nodeId list.pairs) := by
  rw [step]
  dsimp only
  unfold onMappingOutcome
  split
  · next info data hended =>
    rw [onMappingData]
    split
    · exact .inl rfl
    · next list hlist => exact .inr ⟨info, data, list, hended, hlist, rfl⟩
  · exact .inl rfl

end PubSub

end Svs
