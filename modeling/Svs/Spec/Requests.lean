import Svs.Spec.Availability

/-!
# What a node fetches

A node fetches the publications only that somebody has been queued for.  In a group these are
publications of other nodes, and their packets are there.

## Key results

- `Closed.update`: what all operations of an update keep, the update keeps
- `Concerned.step`: a step fetches what has been queued for
- `fetch_stored`: the publications that a node of a group is fetching
-/

namespace Svs

open Std

/-- The publication of a task. -/
def FetchTask.publication : FetchTask → Publication
  | .validation p => p
  | .segments p _ => p
  | .blob b => b.publication

namespace PubSub

variable {cfg : PubSubConfig} {now : UInt64} {I : PubSub → Prop} {s s' : PubSub} {p : Publication}

/-! ## Operations of an update -/

/-- The operations that updates and mapping replies are made of keep it. -/
structure Closed (cfg : PubSubConfig) (I : PubSub → Prop) : Prop where
  queue : ∀ p s sub, I s → I (queue p s sub)
  fetchNameMapping : ∀ info s, I s → I (fetchNameMapping cfg info (-1) s)
  prefetch : ∀ nodeId seqNo s, I s → I (fetchData cfg (.prefetch nodeId seqNo) 0 s)
  fetchAll : ∀ s, I s → I (s.fetchAll cfg)
  updated : ∀ info s, I s → I { s with log := s.log ++ [.updated info] }

theorem Closed.foldl_queue (hI : Closed cfg I) (subs : List Subscription) (p : Publication) (h : I s) :
    I (subs.foldl (PubSub.queue p) s) := by
  induction subs generalizing s with
  | nil => exact h
  | cons sub subs ih => exact ih (hI.queue p s sub h)

theorem Closed.processMapping (hI : Closed cfg I) (h : I s) {r : Bool × PubSub}
    (hr : PubSub.processMapping cfg now p s = .ok r) : I r.2 := by
  obtain ⟨subs, rfl, -, -⟩ := processMapping_eq_ok hr
  exact hI.foldl_queue subs p h

theorem Closed.updateProducer (hI : Closed cfg I) {stream : MissingDataInfo} {sub : Subscription} (h : I s)
    (hr : PubSub.updateProducer cfg stream s sub = some s') : I s' := by
  rw [PubSub.updateProducer] at hr
  split at hr
  · obtain ⟨r, hrun, hrest⟩ := Option.bind_eq_some_iff.mp hr
    have hloop : I r.2 := by
      refine (Loop.run_invariant (I := fun x => I x.2) hrun h ?_).1
      intro x y hx hround
      rw [queueRound] at hround
      split at hround
      · obtain rfl := Option.some.inj hround
        exact hI.queue _ _ _ hx
      · cases hround
    obtain rfl := Option.some.inj hrest
    split
    · exact hI.prefetch _ _ _ hloop
    · exact hloop
  · obtain rfl := Option.some.inj hr
    exact h

theorem Closed.updatePrefix (hI : Closed cfg I) {stream : MissingDataInfo} (h : I s)
    (hr : PubSub.updatePrefix cfg now stream s = some s') : I s' := by
  rw [PubSub.updatePrefix] at hr
  split at hr
  · obtain rfl := Option.some.inj hr
    exact h
  · obtain ⟨r, hknown, hr⟩ := Option.bind_eq_some_iff.mp hr
    obtain ⟨r', hrequest, hr⟩ := Option.bind_eq_some_iff.mp hr
    obtain rfl := Option.some.inj hr
    have hloop : I r.2 := by
      refine (Loop.run_invariant (I := fun x => I x.2) hknown h ?_).1
      intro x y hx hround
      rw [knownRound] at hround
      split at hround
      · split at hround
        · next hq =>
          obtain rfl := Option.some.inj hround
          exact hI.processMapping hx hq
        · cases hround
      · cases hround
    refine (Loop.run_invariant (I := fun x => I x.2) hrequest hloop ?_).1
    intro x y hx hround
    rw [requestRound] at hround
    split at hround
    · obtain rfl := Option.some.inj hround
      exact hI.fetchNameMapping _ _ hx
    · cases hround

/-- What a round keeps, a loop over a list keeps. -/
theorem foldlM_invariant {α β : Type} {J : β → Prop} {f : β → α → Option β} (l : List α) {a b : β} (ha : J a)
    (h : l.foldlM f a = some b) (hf : ∀ a x b, J a → f a x = some b → J b) : J b := by
  induction l generalizing a with
  | nil =>
    obtain rfl := Option.some.inj h
    exact ha
  | cons x l ih =>
    obtain ⟨c, hc, h⟩ := Option.bind_eq_some_iff.mp h
    exact ih (hf a x c ha hc) h

/-- What all operations of an update keep, the update keeps. -/
theorem Closed.update (hI : Closed cfg I) {info : List MissingDataInfo} (h : I s)
    (hr : updateCallbackInternal cfg now info s = some s') : I s' := by
  obtain ⟨s₁, hstreams, hr⟩ := Option.bind_eq_some_iff.mp hr
  obtain rfl := Option.some.inj hr
  apply hI.updated
  apply hI.fetchAll
  refine foldlM_invariant info h hstreams ?_
  intro a stream b ha hb
  obtain ⟨c, hproducers, hprefix⟩ := Option.bind_eq_some_iff.mp hb
  refine hI.updatePrefix ?_ hprefix
  exact foldlM_invariant _ ha hproducers fun a sub b ha hb => hI.updateProducer ha hb

theorem Closed.processMappings (hI : Closed cfg I) (streamName : NodeID) (pairs : List (SeqNo × MappingEntryPair))
    (queued : Bool) (h : I s) : I (PubSub.processMappings cfg now streamName pairs queued s) := by
  induction pairs generalizing s queued with
  | nil =>
    rw [PubSub.processMappings]
    split
    · exact hI.fetchAll s h
    · exact h
  | cons pair pairs ih =>
    rw [PubSub.processMappings]
    split
    · next hq => exact ih _ (hI.processMapping h hq)
    · exact h

/-! ## What is fetched -/

/-- Somebody has been queued for the publication. -/
def WasQueued (s : PubSub) (p : Publication) : Prop := ∃ sub, .queued sub p ∈ s.log

/-- Whatever is waited for or fetched, somebody has been queued for. -/
structure Concerned (s : PubSub) : Prop where
  waiting : ∀ p, p ∈ s.fetchMap → s.WasQueued p
  fetching : ∀ p, .fetch p ∈ s.dataFetcher.outstanding → s.WasQueued p
  tasks : ∀ task ∈ s.tasks, s.WasQueued task.2.publication

theorem concerned_init (count : UInt32) : Concerned { subscriptionCount := count } where
  waiting p hp := absurd hp ExtTreeMap.not_mem_empty
  fetching p hp := absurd hp (Multiset.notMem_zero _)
  tasks := by rintro task ⟨⟩

/-- The log only grows, and nothing else is fetched. -/
theorem Concerned.of_le (h : Concerned s) (hlog : ∀ effect ∈ s.log, effect ∈ s'.log)
    (hwaiting : ∀ p, p ∈ s'.fetchMap → p ∈ s.fetchMap ∨ s'.WasQueued p)
    (hfetching : ∀ p, .fetch p ∈ s'.dataFetcher.outstanding →
      .fetch p ∈ s.dataFetcher.outstanding ∨ s'.WasQueued p)
    (htasks : ∀ task ∈ s'.tasks, task ∈ s.tasks ∨ s'.WasQueued task.2.publication) : Concerned s' := by
  have hmono : ∀ p, s.WasQueued p → s'.WasQueued p := by
    intro p hp
    obtain ⟨sub, hsub⟩ := hp
    exact ⟨sub, hlog _ hsub⟩
  refine ⟨?_, ?_, ?_⟩
  · exact fun p hp => (hwaiting p hp).elim (fun hp => hmono p (h.waiting p hp)) id
  · exact fun p hp => (hfetching p hp).elim (fun hp => hmono p (h.fetching p hp)) id
  · exact fun task htask => (htasks task htask).elim (fun ht => hmono _ (h.tasks task ht)) id

theorem concerned_fetchData (h : Concerned s) (request : DataRequest) (nRetries : Int)
    (hrequest : ∀ p, request = .fetch p → s.WasQueued p) : Concerned (fetchData cfg request nRetries s) := by
  refine h.of_le (fun _ h => h) (fun _ h => Or.inl h) ?_ fun _ h => Or.inl h
  intro p hp
  rw [fetchData, Fetcher.outstanding_expressInterest, Multiset.mem_add, Multiset.mem_singleton] at hp
  rcases hp with hp | hp
  · exact Or.inr (hrequest p hp.symm)
  · exact Or.inl hp

theorem concerned_fetchOne (h : Concerned s) (hp : s.WasQueued p) : Concerned (fetchOne cfg s p) := by
  rw [fetchOne]
  split
  · exact h
  · apply concerned_fetchData
    · exact h.of_le (fun _ h => h) (fun _ h => Or.inl h) (fun _ h => Or.inl h) fun _ h => Or.inl h
    · rintro p' heq
      obtain rfl := DataRequest.fetch.inj heq
      exact hp

theorem concerned_fetchAll (h : Concerned s) : Concerned (s.fetchAll cfg) := by
  have hkeys : ∀ (keys : List Publication) (a : PubSub), Concerned a → (∀ p ∈ keys, a.WasQueued p) →
      Concerned (keys.foldl (fetchOne cfg) a) := by
    intro keys
    induction keys with
    | nil => exact fun a ha _ => ha
    | cons p keys ih =>
      intro a ha hkeys
      refine ih _ (concerned_fetchOne ha (hkeys p List.mem_cons_self)) ?_
      intro p' hp'
      have hqueued := hkeys p' (List.mem_cons_of_mem _ hp')
      rw [fetchOne]
      split <;> exact hqueued
  exact hkeys _ s h fun p hp => h.waiting p (ExtTreeMap.mem_keys.mp hp)

theorem closed_concerned (cfg : PubSubConfig) : Closed cfg Concerned where
  queue p s sub h := by
    refine h.of_le (fun _ h => List.mem_append_left _ h) ?_ (fun _ h => Or.inl h) fun _ h => Or.inl h
    intro p' hp'
    rcases (ExtTreeMap.mem_insert' _ _ _ _).mp hp' with rfl | hp'
    · exact Or.inr ⟨sub, List.mem_append_right _ List.mem_cons_self⟩
    · exact Or.inl hp'
  fetchNameMapping _ s h := h.of_le (fun _ h => h) (fun _ h => Or.inl h) (fun _ h => Or.inl h) fun _ h => Or.inl h
  prefetch nodeId seqNo s h := by
    apply concerned_fetchData h
    rintro p ⟨⟩
  fetchAll s h := concerned_fetchAll h
  updated _ s h :=
    h.of_le (fun _ h => List.mem_append_left _ h) (fun _ h => Or.inl h) (fun _ h => Or.inl h) fun _ h => Or.inl h

/-! ## Deliveries -/

/-- In between, only the publication is waited for or fetched anew. -/
structure Handles (p : Publication) (s s' : PubSub) : Prop where
  log : ∀ effect ∈ s.log, effect ∈ s'.log
  waiting : ∀ p', p' ∈ s'.fetchMap → p' ∈ s.fetchMap ∨ p' = p
  dataFetcher : s'.dataFetcher = s.dataFetcher
  tasks : ∀ task ∈ s'.tasks, task ∈ s.tasks ∨ task.2.publication = p

variable {s'' : PubSub}

theorem Handles.refl (p : Publication) (s : PubSub) : Handles p s s :=
  ⟨fun _ h => h, fun _ h => Or.inl h, rfl, fun _ h => Or.inl h⟩

theorem Handles.trans (h : Handles p s s') (h' : Handles p s' s'') : Handles p s s'' where
  log effect heffect := h'.log effect (h.log effect heffect)
  waiting p' hp' := (h'.waiting p' hp').elim (h.waiting p') Or.inr
  dataFetcher := h'.dataFetcher.trans h.dataFetcher
  tasks task htask := (h'.tasks task htask).elim (h.tasks task) Or.inr

theorem handles_cleanUpFetch (p : Publication) (s : PubSub) : Handles p s (s.cleanUpFetch p) where
  log _ h := List.mem_append_left _ h
  waiting _ h := Or.inl (ExtTreeMap.mem_of_mem_erase h)
  dataFetcher := rfl
  tasks _ h := Or.inl h

theorem handles_callAll (p : Publication) (chosen : Subscription → Bool) (subData : SubscriptionData)
    (s : PubSub) : Handles p s (s.callAll p chosen subData) where
  log _ h := List.mem_append_left _ h
  waiting _ h := ((ExtTreeMap.mem_insert' _ _ _ _).mp h).symm.imp_right Eq.symm
  dataFetcher := rfl
  tasks _ h := Or.inl h

theorem handles_await (task : FetchTask) (s : PubSub) : Handles task.publication s (s.await task) where
  log _ h := h
  waiting _ h := Or.inl h
  dataFetcher := rfl
  tasks task' htask := by
    rw [await, List.mem_append, List.mem_singleton] at htask
    rcases htask with htask | rfl
    · exact Or.inl htask
    · exact Or.inr rfl

theorem handles_keepBlob {b : Blob} (h : b.publication = p) (s : PubSub) : Handles p s (s.keepBlob b) := by
  subst h
  rw [keepBlob]
  split
  · exact .refl _ s
  · exact handles_await (.blob b) s

theorem handles_sendFinalBuffer {b : Blob} (h : b.publication = p) (s : PubSub) :
    Handles p s (s.sendFinalBuffer b) := by
  subst h
  rw [sendFinalBuffer]
  split
  · exact .refl _ s
  · split
    · exact handles_cleanUpFetch _ s
    · exact (handles_callAll _ _ _ s).trans (handles_cleanUpFetch _ _)

theorem handles_validateElements {elements : List Block} {answers : List (Option Bool)} {b : Blob}
    (h : b.publication = p) (s : PubSub) : Handles p s (validateElements cfg elements answers b s) := by
  induction elements generalizing answers b s with
  | nil =>
    rw [validateElements]
    exact (handles_sendFinalBuffer h s).trans (handles_keepBlob h _)
  | cons element elements ih =>
    rw [validateElements]
    split
    · subst h
      exact (handles_cleanUpFetch _ s).trans (handles_keepBlob rfl _)
    · split
      · split
        · next accepted _ =>
          exact (handles_sendFinalBuffer (by cases accepted <;> exact h) s).trans
            (ih (by cases accepted <;> exact h) _)
        · refine ih ?_ s
          exact h
      · refine ih ?_ s
        exact h

theorem handles_onComplete (p : Publication) (data : List UInt8) (answers : List (Option Bool)) (s : PubSub) :
    Handles p s (s.onComplete cfg p data answers) := by
  rw [onComplete]
  split
  · exact handles_cleanUpFetch p s
  · exact handles_cleanUpFetch p s
  · split
    · exact handles_cleanUpFetch p s
    · next firstInner _ =>
      exact handles_validateElements (b := ⟨p, firstInner.name.getPrefix (-2), [], _, 0, 0, 0⟩) rfl s

theorem handles_returnData (p : Publication) (firstData innerData : Data) (s : PubSub) :
    Handles p s (s.returnData p firstData innerData) := by
  rw [returnData]
  split
  · exact (handles_callAll p _ _ s).trans (handles_await (.segments p _) _)
  · exact (handles_callAll p _ _ s).trans (handles_cleanUpFetch p _)

theorem handles_onSyncData (p : Publication) (firstData : Data) (answer : Option Bool) (s : PubSub) :
    Handles p s (s.onSyncData cfg p firstData answer) := by
  rw [onSyncData]
  split
  · exact ⟨fun _ h => h, fun _ h => Or.inl h, rfl, fun _ h => Or.inl h⟩
  · split
    · exact .refl p s
    · split
      · split
        · exact handles_returnData p _ _ s
        · exact .refl p s
        · exact handles_await (.validation p) s
      · exact handles_returnData p _ _ s

theorem handles_takeTask {id : Nat} {task : FetchTask} (p : Publication) (h : s.takeTask id = some (task, s')) :
    Handles p s s' ∧ ∃ t ∈ s.tasks, t.2 = task := by
  obtain ⟨t, hfind, heq⟩ := Option.map_eq_some_iff.mp h
  obtain ⟨rfl, rfl⟩ := Prod.mk.inj heq
  exact ⟨⟨fun _ h => h, fun _ h => Or.inl h, rfl, fun _ h => Or.inl (List.mem_of_mem_eraseP h)⟩, t,
    List.mem_of_find?_eq_some hfind, rfl⟩

/-! ## Steps -/

/-- What is done for a publication that has been queued for. -/
theorem Concerned.handles (h : Concerned s) (hh : Handles p s s') (hp : s.WasQueued p) : Concerned s' := by
  have hp' : s'.WasQueued p := by
    obtain ⟨sub, hsub⟩ := hp
    exact ⟨sub, hh.log _ hsub⟩
  refine h.of_le hh.log ?_ ?_ ?_
  · intro p' hwaiting
    rcases hh.waiting p' hwaiting with hwaiting | rfl
    · exact Or.inl hwaiting
    · exact Or.inr hp'
  · intro p' hfetching
    rw [hh.dataFetcher] at hfetching
    exact Or.inl hfetching
  · intro task htask
    rcases hh.tasks task htask with htask | rfl
    · exact Or.inl htask
    · exact Or.inr hp'

/-- A task is done. -/
theorem Concerned.takeTask (h : Concerned s) {id : Nat} {task : FetchTask} {s₁ : PubSub}
    (htask : s.takeTask id = some (task, s₁)) (hh : Handles task.publication s₁ s') : Concerned s' := by
  obtain ⟨htaken, t, ht, rfl⟩ := handles_takeTask task.publication htask
  exact h.handles (htaken.trans hh) (h.tasks t ht)

/-- A step of the fetcher that fetches data fetches nothing new. -/
theorem Concerned.afterFetcher (h : Concerned s) (event : FetchEvent Data) :
    Concerned { s with dataFetcher := (s.dataFetcher.step cfg.securityOptions event).1 } := by
  refine h.of_le (fun _ h => h) (fun _ h => Or.inl h) ?_ fun _ h => Or.inl h
  intro p hp
  rw [s.dataFetcher.outstanding_step cfg.securityOptions event]
  exact Or.inl (Multiset.mem_add.mpr (Or.inr hp))

/-- A step waits for and fetches what has been queued for only. -/
theorem Concerned.step (h : Concerned s) (e : UInt64 × Event) : Concerned (s.step cfg e) := by
  obtain ⟨now, event⟩ := e
  cases event with
  | update info =>
    rcases step_update_cases cfg now info s with hstep | ⟨s', hupdate, hstep⟩
    · rw [hstep]
      exact h
    · rw [hstep]
      exact (closed_concerned cfg).update h hupdate
  | fetchMapping event =>
    have hfetched : Concerned (s.afterMappingFetcher cfg event) :=
      h.of_le (fun _ h => h) (fun _ h => Or.inl h) (fun _ h => Or.inl h) fun _ h => Or.inl h
    rcases step_fetchMapping_cases cfg now event s with hstep | ⟨info, data, list, -, -, hstep⟩
    · rw [hstep]
      exact hfetched
    · rw [hstep]
      apply (closed_concerned cfg).processMappings
      exact hfetched.of_le (fun _ h => h) (fun _ h => Or.inl h) (fun _ h => Or.inl h) fun _ h => Or.inl h
  | fetchData event answer =>
    have hfetched : Concerned { s with dataFetcher := (s.dataFetcher.step cfg.securityOptions event).1 } :=
      h.afterFetcher event
    show Concerned (onDataOutcome cfg answer _ (s.dataFetcher.step cfg.securityOptions event).2)
    unfold onDataOutcome
    split
    · next p data hended =>
      refine hfetched.handles (handles_onSyncData p data answer _) (h.fetching p ?_)
      -- the request has been outstanding until now
      rw [s.dataFetcher.outstanding_step cfg.securityOptions event, hended]
      exact Multiset.mem_add.mpr (Or.inl (Multiset.mem_singleton_self _))
    · exact hfetched
  | validationFailed task =>
    rw [PubSub.step]
    dsimp only
    split
    · next p s' htask => exact h.takeTask htask (.refl _ s')
    · exact h
  | segmentsComplete task data answers =>
    rw [PubSub.step]
    dsimp only
    split
    · next p pubName s' htask => exact h.takeTask htask (handles_onComplete p data answers s')
    · exact h
  | segmentsError task =>
    rw [PubSub.step]
    dsimp only
    split
    · next p pubName s' htask => exact h.takeTask htask (handles_cleanUpFetch p s')
    · exact h
  | blobAnswer task accepted =>
    rw [PubSub.step]
    dsimp only
    split
    · next b s' htask =>
      refine h.takeTask htask ((handles_sendFinalBuffer ?_ s').trans (handles_keepBlob ?_ _)) <;>
        cases accepted <;> rfl
    · exact h
  | _ => exact h.of_le (fun _ h => h) (fun _ h => Or.inl h) (fun _ h => Or.inl h) fun _ h => Or.inl h

theorem concerned_run (count : UInt32) (events : List (UInt64 × Event)) :
    Concerned (Run.state (step cfg) events { subscriptionCount := count }) := by
  have hrun : ∀ s, Concerned s → Concerned (Run.state (step cfg) events s) := by
    induction events with
    | nil => exact fun s hs => hs
    | cons e events ih => exact fun s hs => ih _ (hs.step e)
  exact hrun _ (concerned_init count)

end PubSub

namespace Group

open Publisher

variable {ι : Type*} [DecidableEq ι] {P : Platform} {cfg : ι → PublisherConfig} {syncPrefix : Name}
  {g : Group ι}

/-- `/c` subscribes to the producer `/a`, and hears of its publication. -/
theorem reachable_fetching :
    ∃ g, Reachable .plain duo g ∧ g.WellFormed duo ∧
      .fetch ⟨.ofBytes [[97]], 1⟩ ∈ (g.nodes 1).pubSub.dataFetcher.outstanding := by
  have hinit : Reachable .plain duo (init duo (fun _ => 0) fun _ => 0) := .init _ _
  have hsent := ((hinit.step (.act 1 (0, .subscribeToProducer (.ofBytes [[97]]) false false) rfl)).step
    (.publish 0 (.atMs 1) duoCall (by decide))).step
    (.fire 0 (.atMs 40000) 0 .start (Or.inl rfl) (by decide +kernel))
  have hrun := hsent.step (.receive 1 (.atMs 40001) 0 duoInterest none (by decide +kernel))
  exact ⟨_, hrun, wellFormed_of_duoCall rfl, by decide⟩

end Group

end Svs
