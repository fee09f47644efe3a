import Svs.Spec.DeliveryOnce

/-!
# What is called after `unsubscribe`

`unsubscribe` erases the subscription from the lists of those that are registered.  The
copies in `m_fetchMap` stay, and are called when the publication arrives.

## Key results

- `Gone.step`: a callback that nobody has registered any more is not queued
- `unsubscribesFinally`: the runs in which no callback is called after its `unsubscribe`
- `not_unsubscribesFinally`: a run in which one is
-/

namespace Svs

open Std Delivery

namespace PubSub

variable {cfg : PubSubConfig} {p : Publication} {s s' : PubSub} {e : UInt64 × Event} {cb : Callback}
  {handle : UInt32}

/-! ## Callbacks that are not registered -/

/-- No registered subscription has the callback, and none will have it. -/
structure Gone (cb : Callback) (s : PubSub) : Prop where
  registration_lt : cb.registration < s.registrations
  producer : ∀ sub ∈ s.producerSubscriptions, sub.callback ≠ cb
  pref : ∀ sub ∈ s.prefixSubscriptions, sub.callback ≠ cb

/-- The callback is still gone, and has not been queued in between. -/
structure StaysGone (cb : Callback) (s s' : PubSub) : Prop where
  gone : Gone cb s'
  queuedTimes_eq : ∀ p, queuedTimes cb p s'.log = queuedTimes cb p s.log

theorem Gone.of_eq (h : Gone cb s) (hregistrations : s'.registrations = s.registrations)
    (hproducer : s'.producerSubscriptions = s.producerSubscriptions)
    (hsubscriptions : s'.prefixSubscriptions = s.prefixSubscriptions) : Gone cb s' where
  registration_lt := hregistrations ▸ h.registration_lt
  producer := hproducer ▸ h.producer
  pref := hsubscriptions ▸ h.pref

theorem Gone.refl (h : Gone cb s) : StaysGone cb s s := ⟨h, fun _ => rfl⟩

theorem Gone.quiet (h : Gone cb s) (hq : Quiet s s') : StaysGone cb s s' where
  gone := h.of_eq hq.registrations hq.producerSubscriptions hq.prefixSubscriptions
  queuedTimes_eq p := by
    obtain ⟨l, hlog, hl⟩ := hq.log
    rw [hlog, queuedTimes_append, queuedTimes_eq_zero fun sub hmem => absurd hmem (hl sub p)]
    rfl

/-- Actions that queue no subscription with the callback. -/
theorem Gone.performs {P : Subscription → Publication → Prop} {c : Callback → Publication → Nat}
    (h : Gone cb s) (hperforms : Performs cfg P c s s') (hP : ∀ sub p, P sub p → sub.callback ≠ cb) :
    StaysGone cb s s' where
  gone := h.of_eq hperforms.frame.registrations hperforms.frame.producerSubscriptions
    hperforms.frame.prefixSubscriptions
  queuedTimes_eq p := by
    obtain ⟨l, hlog, hl⟩ := hperforms.log
    rw [hlog, queuedTimes_append, queuedTimes_eq_zero fun sub hmem => hP sub p (hl sub p hmem)]
    rfl

theorem Gone.subscribe (h : Gone cb s) (pref : Name) (packets : Bool) :
    Gone cb (s.subscribe pref packets) where
  registration_lt := Nat.lt_succ_of_lt h.registration_lt
  producer := h.producer
  pref sub hsub := by
    rw [PubSub.subscribe, List.mem_append, List.mem_singleton] at hsub
    rcases hsub with hsub | rfl
    · exact h.pref sub hsub
    · rintro rfl
      exact lt_irrefl _ h.registration_lt

theorem Gone.subscribeToProducer (h : Gone cb s) (nodePrefix : Name) (prefetch packets : Bool) :
    Gone cb (s.subscribeToProducer nodePrefix prefetch packets) where
  registration_lt := Nat.lt_succ_of_lt h.registration_lt
  producer sub hsub := by
    rw [PubSub.subscribeToProducer, List.mem_append, List.mem_singleton] at hsub
    rcases hsub with hsub | rfl
    · exact h.producer sub hsub
    · rintro rfl
      exact lt_irrefl _ h.registration_lt
  pref := h.pref

theorem Gone.unsubscribe (h : Gone cb s) (handle : UInt32) : Gone cb (s.unsubscribe handle) where
  registration_lt := h.registration_lt
  producer sub hsub := h.producer sub (List.mem_of_mem_eraseP hsub)
  pref sub hsub := h.pref sub (List.mem_of_mem_eraseP hsub)

theorem Gone.fetchMapping (h : Gone cb s) (now : UInt64) (event : FetchEvent Data) :
    StaysGone cb s (s.step cfg (now, .fetchMapping event)) := by
  rcases step_fetchMapping_cases cfg now event s with hstep | ⟨info, data, list, -, -, hstep⟩
  · rw [hstep]
    exact ⟨h.of_eq rfl rfl rfl, fun _ => rfl⟩
  · have hstored : Gone cb ((s.afterMappingFetcher cfg event).storeMappings info.nodeId list.pairs) :=
      h.of_eq rfl rfl rfl
    -- the reply's mappings make prefix subscriptions be queued, and the callback is none of theirs
    have hstays := hstored.performs (performs_processMappings cfg now info.nodeId list.pairs false _)
      fun sub p hqueued => hstored.pref sub hqueued.2.1
    rw [hstep]
    exact ⟨hstays.gone, hstays.queuedTimes_eq⟩

/-- A callback that nobody has registered any more is not queued. -/
theorem Gone.step (h : Gone cb s) : StaysGone cb s (s.step cfg e) := by
  obtain ⟨now, event⟩ := e
  cases event with
  | subscribe pref packets => exact ⟨h.subscribe pref packets, fun _ => rfl⟩
  | subscribeToProducer nodePrefix prefetch packets =>
    exact ⟨h.subscribeToProducer nodePrefix prefetch packets, fun _ => rfl⟩
  | unsubscribe handle => exact ⟨h.unsubscribe handle, fun _ => rfl⟩
  | update info =>
    rcases step_update_cases cfg now info s with hstep | ⟨s', hupdate, hstep⟩
    · rw [hstep]
      exact h.refl
    · rw [hstep]
      refine h.performs (performs_updateCallbackInternal hupdate) ?_
      rintro sub p ⟨-, ⟨hsub, -⟩ | ⟨hsub, -⟩⟩
      · exact h.producer sub hsub
      · exact h.pref sub hsub
  | fetchMapping event => exact h.fetchMapping now event
  | _ => exact h.quiet (quiet_step rfl)

/-! ## What `unsubscribe` leaves -/

/-- A subscription with the callback is queued for the publication and may still be called:
    not as a packet subscription while the rest of the publication is being fetched, and
    not when the publication is marked without being fetched. -/
def Awaits (cb : Callback) (p : Publication) (s : PubSub) : Prop :=
  (∃ sub ∈ s.subscribers p, sub.callback = cb ∧
    ¬(sub.isPacketSubscription = true ∧ Reassembling p s)) ∧ (p ∈ s.fetchingMap → Fetching p s)

/-- If the step unsubscribes, no two subscriptions of a list have the handle, and nobody
    with a callback registered under it is waiting to be called. -/
def LeavesNothing (e : UInt64 × Event) (s : PubSub) : Prop :=
  ∀ handle, e.2 = .unsubscribe handle →
    s.producerSubscriptions.countP (·.id = handle) ≤ 1 ∧
      s.prefixSubscriptions.countP (·.id = handle) ≤ 1 ∧
        ∀ sub ∈ s.producerSubscriptions ++ s.prefixSubscriptions, sub.id = handle →
          ∀ p, ¬Awaits sub.callback p s

/-- Once the handle that a callback has been registered under has been unsubscribed, the
    callback is not called any more. -/
def UnsubscribesFinally (cfg : PubSubConfig) (count : UInt32) (events : List (UInt64 × Event)) :
    Prop :=
  ∀ before now handle after, events = before ++ (now, .unsubscribe handle) :: after →
    ∀ sub ∈ (Run.state (step cfg) before { subscriptionCount := count }).producerSubscriptions ++
        (Run.state (step cfg) before { subscriptionCount := count }).prefixSubscriptions,
      sub.id = handle → ∀ p,
        calledTimes sub.callback p (Run.state (step cfg) events { subscriptionCount := count }).log =
          calledTimes sub.callback p (Run.state (step cfg) before { subscriptionCount := count }).log

theorem callback_ne_of_mem_eraseP {subs : List Subscription}
    (hnodup : (subs.map (·.callback)).Nodup) (hle : subs.countP (·.id = handle) ≤ 1)
    {sub other : Subscription} (hsub : sub ∈ subs) (hid : sub.id = handle)
    (hother : other ∈ subs.eraseP (·.id = handle)) : other.callback ≠ sub.callback := by
  intro heq
  obtain rfl := List.inj_on_of_nodup_map hnodup (List.mem_of_mem_eraseP hother) hsub heq
  exact List.not_of_mem_eraseP hle hother (by simpa using hid)

/-- Where no two subscriptions of a list have the handle, the callbacks are gone. -/
theorem gone_unsubscribe (hreg : Registered s)
    (hproducer : s.producerSubscriptions.countP (·.id = handle) ≤ 1)
    (hsubscriptions : s.prefixSubscriptions.countP (·.id = handle) ≤ 1) {sub : Subscription}
    (hsub : sub ∈ s.producerSubscriptions ++ s.prefixSubscriptions) (hid : sub.id = handle) :
    Gone sub.callback (s.unsubscribe handle) := by
  -- a callback is of one kind, and so in one of the lists only
  rcases List.mem_append.mp hsub with hsub | hsub
  · refine ⟨(hreg.producer sub hsub).2, ?_, ?_⟩
    · intro other hother
      exact callback_ne_of_mem_eraseP hreg.producer_nodup hproducer hsub hid hother
    · intro other hother heq
      have hkind := (hreg.pref other (List.mem_of_mem_eraseP hother)).1
      rw [heq, (hreg.producer sub hsub).1] at hkind
      cases hkind
  · refine ⟨(hreg.pref sub hsub).2, ?_, ?_⟩
    · intro other hother heq
      have hkind := (hreg.producer other (List.mem_of_mem_eraseP hother)).1
      rw [heq, (hreg.pref sub hsub).1] at hkind
      cases hkind
    · intro other hother
      exact callback_ne_of_mem_eraseP hreg.prefix_nodup hsubscriptions hsub hid hother

theorem idle_of_not_awaits (h : ¬Awaits cb p s) :
    Idle (·.isPacketSubscription) (fun sub : Subscription => sub.callback = cb) (s.item p) := by
  rw [Awaits, not_and_or] at h
  rcases h with hnobody | hstuck
  · left
    rw [due, List.countP_eq_zero]
    intro sub hsub hdue
    simp only [Bool.and_eq_true, Bool.or_eq_true, decide_eq_true_eq, beq_iff_eq, Bool.not_eq_true',
      ← Bool.not_eq_true] at hdue
    refine hnobody ⟨sub, hsub, hdue.1, ?_⟩
    rintro ⟨hpacket, hreassembling⟩
    have hrest := reassembling_iff.mp hreassembling
    exact hdue.2.elim (Nat.ne_of_gt hrest) (absurd hpacket)
  · right
    obtain ⟨hmarked, hnot⟩ := Classical.not_imp.mp hstuck
    rw [fetching_iff] at hnot
    exact ⟨ExtTreeMap.mem_iff_contains.mp hmarked, Nat.eq_zero_of_not_pos hnot⟩

/-! ## Runs -/

/-- The callback is gone, and nobody with it that is queued will be called. -/
structure Silenced (cb : Callback) (s : PubSub) : Prop where
  gone : Gone cb s
  sound : ∀ p, Sound (s.item p)
  idle : ∀ p, Idle (·.isPacketSubscription) (fun sub : Subscription => sub.callback = cb) (s.item p)

theorem Silenced.step (h : Silenced cb s) (cfg : PubSubConfig) (e : UInt64 × Event) :
    Silenced cb (s.step cfg e) ∧
      ∀ p, calledTimes cb p (s.step cfg e).log = calledTimes cb p s.log := by
  have hstays : StaysGone cb s (s.step cfg e) := h.gone.step
  have hidle := fun p => (step_refines cfg p e s).idle (h.sound p) (h.idle p) (by
    have hqueued := hstays.queuedTimes_eq p
    rw [queuedTimes_eq, queuedTimes_eq] at hqueued
    exact hqueued)
  refine ⟨⟨hstays.gone, fun p => sound_step (h.sound p), fun p => (hidle p).1⟩, ?_⟩
  intro p
  rw [calledTimes_eq, calledTimes_eq]
  exact (hidle p).2

theorem Silenced.run (h : Silenced cb s) (events : List (UInt64 × Event)) (p : Publication) :
    calledTimes cb p (Run.state (PubSub.step cfg) events s).log = calledTimes cb p s.log := by
  induction events generalizing s with
  | nil => rfl
  | cons e events ih =>
    obtain ⟨hnext, hsame⟩ := h.step cfg e
    exact (ih hnext).trans (hsame p)

/-- In a run whose calls of `unsubscribe` leave nobody who waits, no callback is called
    after its handle has been unsubscribed. -/
theorem unsubscribesFinally (cfg : PubSubConfig) (count : UInt32) (events : List (UInt64 × Event))
    (h : Run.Always (step cfg) LeavesNothing events { subscriptionCount := count }) :
    UnsubscribesFinally cfg count events := by
  rintro before now handle after rfl sub hsub hid p
  obtain ⟨hproducer, hsubscriptions, hawaits⟩ := Run.always_iff.mp h before _ after rfl handle rfl
  have hreg : Registered (Run.state (step cfg) before { subscriptionCount := count }) :=
    Run.state_invariant (registered_init count) fun _ _ hreg => registered_step hreg
  have hsilenced : Silenced sub.callback
      ((Run.state (step cfg) before { subscriptionCount := count }).step cfg
        (now, .unsubscribe handle)) := by
    refine ⟨gone_unsubscribe hreg hproducer hsubscriptions hsub hid, ?_, ?_⟩
    · intro p
      exact sound_step (Run.state_invariant (I := fun s : PubSub => Sound (s.item p))
        (sound_init p count) fun _ _ hs => sound_step hs)
    · -- `unsubscribe` does not change what is queued
      intro p
      exact idle_of_not_awaits (hawaits sub hsub hid p)
  rw [Run.state_append, Run.state_cons]
  exact hsilenced.run after p

/-- The node has got a packet, unsubscribes, and hears of another publication. -/
def unsubscribedAfter : List (UInt64 × Event) :=
  received packetBlock ++ [(0, .unsubscribe 1), (0, .update [⟨.ofBytes [[97]], 2, 2, 0⟩])]

/-- A run in which nobody waits when the handle is unsubscribed. -/
theorem unsubscribesFinally_received : UnsubscribesFinally twoPackets 0 unsubscribedAfter := by
  apply unsubscribesFinally
  refine ⟨nofun, nofun, nofun, ?_, nofun, trivial⟩
  intro handle heq
  obtain rfl := Event.unsubscribe.inj heq
  refine ⟨by decide, by decide, ?_⟩
  rintro sub - - p ⟨⟨queued, hqueued, -⟩, -⟩
  -- the publication's entry has been erased
  have hempty : (Run.state (step twoPackets) (received packetBlock)
      { subscriptionCount := 0 }).fetchMap = ∅ := by
    rw [← ExtTreeMap.isEmpty_iff]
    decide
  have hnobody : (Run.state (step twoPackets) (received packetBlock)
      { subscriptionCount := 0 }).subscribers p = [] := by
    rw [subscribers, hempty]
    simp
  exact absurd (hnobody ▸ hqueued) List.not_mem_nil

/-- The node unsubscribes while it fetches a publication, and gets the packet. -/
def unsubscribedBefore : List (UInt64 × Event) :=
  (received packetBlock).take 2 ++ (0, .unsubscribe 1) :: (received packetBlock).drop 2

/-- The copy in `m_fetchMap` is called when the packet arrives. -/
theorem not_unsubscribesFinally : ¬∀ cfg count events, UnsubscribesFinally cfg count events := by
  intro h
  have hsame := h twoPackets 0 unsubscribedBefore _ _ _ _ rfl
    ⟨1, .ofBytes [[97]], ⟨0, true⟩, false, false⟩ (by decide) rfl ⟨.ofBytes [[97]], 1⟩
  exact absurd hsame (by decide)

end PubSub

end Svs
