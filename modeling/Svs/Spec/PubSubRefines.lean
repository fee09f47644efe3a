import Svs.ForStd.Delivery
import Svs.ForStd.TreeMap
import Svs.Spec.FetcherCorrect
import Svs.Spec.UpdateActions

/-!
# Publications as items that are delivered

`item` reads off a node what concerns one publication: those queued in `m_fetchMap`, the
mark in `m_fetchingMap`, the fetches that have not ended and the log.

## Key results

- `step_refines`: each step of the node is a step of the item
-/

namespace Svs

open Std Delivery

/-- What a publication's entries of the log say about the item. -/
def PubSub.Effect.entry (p : Publication) : PubSub.Effect → Option (Entry Subscription)
  | .queued sub p' => if p' = p then some (.queued sub) else none
  | .called sub d => if Publication.mk d.producerPrefix d.seqNo = p then some (.served sub) else none
  | .erased p' subs => if p' = p then some (.dropped subs) else none
  | .updated _ => none

theorem PubSub.Effect.entry_eq_queued_iff {p : Publication} {effect : PubSub.Effect} {sub : Subscription} :
    effect.entry p = some (.queued sub) ↔ effect = .queued sub p := by
  cases effect <;> simp [entry]
  tauto

theorem PubSub.Effect.entry_eq_served_iff {p : Publication} {effect : PubSub.Effect} {sub : Subscription} :
    effect.entry p = some (.served sub) ↔
      ∃ d : SubscriptionData, effect = .called sub d ∧ Publication.mk d.producerPrefix d.seqNo = p := by
  cases effect <;> simp [entry]
  tauto

namespace FetchTask

/-- A task before any callback has been called for the publication. -/
def isFirst (p : Publication) : FetchTask → Bool
  | .validation p' => p' = p
  | _ => false

/-- A task after the packet subscriptions have been served.  Where the loop over the
    elements was left by an exception, nothing comes of the validations. -/
def isRest (p : Publication) : FetchTask → Bool
  | .segments p' _ => p' = p
  | .blob b => b.publication = p ∧ b.remaining = []
  | _ => false

end FetchTask

namespace PubSub

/-- What concerns the publication. -/
def item (p : Publication) (s : PubSub) : Item Subscription where
  waiting := s.fetchMap[p]?
  held := s.fetchingMap.contains p
  first := s.dataFetcher.outstanding.count (.fetch p) + s.tasks.countP (·.2.isFirst p)
  rest := s.tasks.countP (·.2.isRest p)
  history := s.log.filterMap (Effect.entry p)

@[simp] theorem waiters_item (p : Publication) (s : PubSub) : (s.item p).waiters = s.subscribers p := rfl

theorem item_init (p : Publication) (count : UInt32) :
    item p { subscriptionCount := count } = ⟨none, false, 0, 0, []⟩ := by
  simp [item, Fetcher.outstanding]

/-! ## Operations -/

variable {p p' : Publication} {s : PubSub}

theorem item_queue (sub : Subscription) : (s.queue p sub).item p = (s.item p).queue sub := by
  simp [item, queue, Item.queue, Effect.entry, Item.waiters, subscribers]

theorem item_queue_of_ne (h : p' ≠ p) (sub : Subscription) : (s.queue p' sub).item p = s.item p := by
  simp [item, queue, ExtTreeMap.getElem?_insert', Effect.entry, h]

theorem item_cleanUpFetch : (s.cleanUpFetch p).item p = (s.item p).drop := by
  simp [item, cleanUpFetch, Item.drop, Effect.entry, Item.waiters, subscribers]

theorem item_cleanUpFetch_of_ne (h : p' ≠ p) : (s.cleanUpFetch p').item p = s.item p := by
  simp [item, cleanUpFetch, Effect.entry, h, ExtTreeMap.getElem?_erase, ExtTreeMap.contains_erase]

theorem item_callAll {d : SubscriptionData} (hd : Publication.mk d.producerPrefix d.seqNo = p)
    (chosen : Subscription → Bool) :
    (s.callAll p chosen d).item p = (s.item p).serve ((s.subscribers p).filter chosen) := by
  simp [item, callAll, Item.serve, Effect.entry, Item.waiters, subscribers, List.filterMap_map,
    Function.comp_def, hd]

theorem item_callAll_of_ne (h : p' ≠ p) {d : SubscriptionData}
    (hd : Publication.mk d.producerPrefix d.seqNo = p') (chosen : Subscription → Bool) :
    (s.callAll p' chosen d).item p = s.item p := by
  simp [item, callAll, ExtTreeMap.getElem?_insert', Effect.entry, h, hd, List.filterMap_map, Function.comp_def]

theorem item_await_first {task : FetchTask} (h : task.isFirst p) (h' : ¬task.isRest p) :
    (s.await task).item p = (s.item p).addFirst := by
  simp [item, await, Item.addFirst, h, h', Nat.add_assoc]

theorem item_await_rest {task : FetchTask} (h : ¬task.isFirst p) (h' : task.isRest p) :
    (s.await task).item p = (s.item p).addRest := by
  simp [item, await, Item.addRest, h, h']

theorem item_await_other {task : FetchTask} (h : ¬task.isFirst p) (h' : ¬task.isRest p) :
    (s.await task).item p = s.item p := by
  simp [item, await, h, h']

/-! ## Growth -/

variable {P : Subscription → Publication → Prop} {c : Callback → Publication → Nat} {F : Faults}
  {s' : PubSub} {cfg : PubSubConfig} {now : UInt64}

/-- Making a request for a first packet. -/
theorem item_fetchData_fetch (nRetries : Int) :
    (fetchData cfg (.fetch p) nRetries s).item p = (s.item p).addFirst := by
  simp only [item, fetchData, Item.addFirst, Fetcher.outstanding_expressInterest, Multiset.count_add,
    Multiset.count_singleton_self, Item.mk.injEq, true_and, and_true]
  omega

/-- Making another request. -/
theorem item_fetchData_of_ne {request : DataRequest} (h : request ≠ .fetch p) (nRetries : Int) :
    (fetchData cfg request nRetries s).item p = s.item p := by
  simp [item, fetchData, h.symm]

theorem grows_fetchOne : Relation.ReflTransGen (Grow (·.isPacketSubscription) F) (s.item p)
    ((fetchOne cfg s p').item p) := by
  rw [fetchOne]
  split
  · exact .refl
  · next hmem =>
    by_cases hp : p' = p
    · subst hp
      rw [item_fetchData_fetch]
      have hitem : item p' { s with fetchingMap := s.fetchingMap.insert p' true } =
          (s.item p').hold true := by
        simp [item, Item.hold]
      rw [hitem]
      rw [ExtTreeMap.mem_iff_contains, Bool.not_eq_true] at hmem
      exact .single (.claim _ hmem)
    · rw [item_fetchData_of_ne (by simpa using hp)]
      have hitem : item p { s with fetchingMap := s.fetchingMap.insert p' true } = s.item p := by
        simp [item, ExtTreeMap.contains_insert, hp]
      rw [hitem]

/-- An action makes the item grow.  While the publication is being reassembled, a packet
    subscription that is queued for it comes late. -/
theorem grows_apply (a : Action) (hlate : ∀ sub, a = .queue p sub → 0 < (s.item p).rest →
      sub.isPacketSubscription = true → F.late) :
    Relation.ReflTransGen (Grow (·.isPacketSubscription) F) (s.item p) ((a.apply cfg s).item p) := by
  cases a with
  | queue p' sub =>
    rw [Action.apply]
    by_cases hp : p' = p
    · subst hp
      rw [item_queue]
      exact .single (.queue _ sub (hlate sub rfl))
    · rw [item_queue_of_ne hp]
  | fetchOne p' => exact grows_fetchOne
  | prefetch nodeId seqNo =>
    rw [Action.apply, item_fetchData_of_ne (by simp)]
  | fetchNameMapping info => exact .refl
  | updated info =>
    have hitem : ((Action.updated info).apply cfg s).item p = s.item p := by
      simp [item, Action.apply, Effect.entry]
    rw [hitem]

theorem grows_perform (actions : List Action) (hlate : ∀ sub, .queue p sub ∈ actions →
      0 < (s.item p).rest → sub.isPacketSubscription = true → F.late) :
    Relation.ReflTransGen (Grow (·.isPacketSubscription) F) (s.item p)
      ((perform cfg actions s).item p) := by
  induction actions generalizing s with
  | nil => exact .refl
  | cons a actions ih =>
    have hrest : ((a.apply cfg s).item p).rest = (s.item p).rest := by
      rw [item, item, (frame_apply cfg s a).tasks]
    refine (grows_apply a fun sub ha => hlate sub (ha ▸ List.mem_cons_self)).trans (ih ?_)
    rw [hrest]
    exact fun sub hmem => hlate sub (List.mem_cons_of_mem a hmem)

theorem Performs.grows (h : Performs cfg P c s s') (hlate : ∀ sub, P sub p → 0 < (s.item p).rest →
      sub.isPacketSubscription = true → F.late) :
    Relation.ReflTransGen (Grow (·.isPacketSubscription) F) (s.item p) (s'.item p) := by
  obtain ⟨actions, rfl, hP, -⟩ := h
  exact grows_perform actions fun sub hmem => hlate sub (hP sub p hmem)

/-! ## The first packet -/

/-- Blob subscriptions wait for further segments, which are not fetched: there is no name
    to fetch them under. -/
def Unnamed (p : Publication) (firstData innerData : Data) (s : PubSub) : Prop :=
  innerData.finalBlock.isSome = true ∧ (s.subscribers p).any (!·.isPacketSubscription) = true ∧
    firstData.name.components.length ≤ 2

theorem item_returnData_of_ne (h : p' ≠ p) (firstData innerData : Data) :
    (s.returnData p' firstData innerData).item p = s.item p := by
  rw [returnData]
  split
  · rw [item_await_other (by simp [FetchTask.isFirst]) (by simpa [FetchTask.isRest] using h),
      item_callAll_of_ne h rfl]
  · rw [item_cleanUpFetch_of_ne h, item_callAll_of_ne h rfl]

/-- `returnData` serves those that the first packet is for. -/
theorem finish_returnData {firstData innerData : Data}
    (haborted : Unnamed p firstData innerData s → F.aborted) :
    Finish (·.isPacketSubscription) F (s.item p).addFirst
      ((s.returnData p firstData innerData).item p) := by
  rw [returnData]
  cases hfinal : innerData.finalBlock.isSome with
  | false =>
    -- the packet is all there is
    simp only [Bool.and_false, Bool.false_and, Bool.false_eq_true, if_false, Bool.not_false, Bool.or_true]
    rw [item_cleanUpFetch, item_callAll (p := p) rfl, List.filter_true]
    exact .serveAll _
  | true =>
    simp only [Bool.and_true, Bool.not_true, Bool.or_false, Bool.and_eq_true, decide_eq_true_eq]
    split
    · rw [item_await_rest (by simp [FetchTask.isFirst]) (by simp [FetchTask.isRest]),
        item_callAll (p := p) rfl]
      exact .advance _
    · next hsegments =>
      rw [item_cleanUpFetch, item_callAll (p := p) rfl]
      cases hblob : (s.subscribers p).any (!·.isPacketSubscription) with
      | true =>
        rw [hblob] at hsegments
        exact .serveEarly _ (haborted ⟨hfinal, hblob, by simpa using hsegments⟩)
      | false =>
        -- there are packet subscriptions only
        have hall : (s.subscribers p).filter (·.isPacketSubscription) = s.subscribers p := by
          rw [List.filter_eq_self]
          simpa using hblob
        rw [hall]
        exact .serveAll _

/-- The packet is not encapsulated, or what it encapsulates is no packet. -/
def Malformed (cfg : PubSubConfig) (data : Data) : Prop :=
  data.contentType ≠ tlv.Data ∨ (blockFromValue data.content).bind cfg.decodeData = none

/-- The validator rejects the encapsulated packet at once. -/
def Rejected (cfg : PubSubConfig) (answer : Option Bool) : Prop :=
  cfg.securityOptions.hasEncapsulatedDataValidator = true ∧ answer = some false

/-- A packet that is malformed or rejected leaves the publication marked. -/
theorem item_onSyncData_of_bad {firstData : Data} {answer : Option Bool}
    (h : Malformed cfg firstData ∨ Rejected cfg answer) :
    ∃ b, (s.onSyncData cfg p firstData answer).item p = (s.item p).hold b := by
  rw [onSyncData]
  split
  · exact ⟨true, by simp [item, Item.hold]⟩
  · next htype =>
    refine ⟨false, ?_⟩
    rw [Item.hold_false]
    split
    · rfl
    · next innerData hdecode =>
      have hmalformed : ¬Malformed cfg firstData := by
        rintro (hne | hnone)
        · exact htype hne
        · rw [hnone] at hdecode
          cases hdecode
      obtain ⟨hvalidator, rfl⟩ := h.resolve_left hmalformed
      rw [if_pos hvalidator]

theorem item_onSyncData_of_ne (h : p' ≠ p) (firstData : Data) (answer : Option Bool) :
    (s.onSyncData cfg p' firstData answer).item p = s.item p := by
  rw [onSyncData]
  split
  · simp [item, h]
  · split
    · rfl
    · split
      · split
        · exact item_returnData_of_ne h _ _
        · rfl
        · exact item_await_other (by simpa [FetchTask.isFirst] using h) (by simp [FetchTask.isRest])
      · exact item_returnData_of_ne h _ _

/-- The encapsulated packet, if the publication's subscriptions get it at once. -/
def returnedAtOnce (cfg : PubSubConfig) (data : Data) (answer : Option Bool) : Option Data :=
  if cfg.securityOptions.hasEncapsulatedDataValidator ∧ answer ≠ some true then none
  else (blockFromValue data.content).bind cfg.decodeData

theorem step_onSyncData {firstData : Data} {answer : Option Bool}
    (hlost : Malformed cfg firstData ∨ Rejected cfg answer → F.lost)
    (haborted : ∀ innerData, returnedAtOnce cfg firstData answer = some innerData →
      Unnamed p firstData innerData s → F.aborted) :
    Delivery.Step (·.isPacketSubscription) F (s.item p).addFirst
      ((s.onSyncData cfg p firstData answer).item p) := by
  by_cases hbad : Malformed cfg firstData ∨ Rejected cfg answer
  · obtain ⟨b, hb⟩ := item_onSyncData_of_bad (s := s) (p := p) hbad
    rw [hb]
    exact .inr (.lose _ b (hlost hbad))
  · obtain ⟨hmalformed, hrejected⟩ := not_or.mp hbad
    rw [Malformed, not_or, not_not] at hmalformed
    rw [onSyncData, if_neg (not_not.mpr hmalformed.1)]
    split
    · next hdecode => exact absurd hdecode hmalformed.2
    · next innerData hdecode =>
      split
      · next hvalidator =>
        split
        · refine .inr (finish_returnData (haborted innerData ?_))
          rw [returnedAtOnce, if_neg (by simp), hdecode]
        · exact absurd ⟨hvalidator, rfl⟩ hrejected
        · rw [item_await_first (by simp [FetchTask.isFirst]) (by simp [FetchTask.isRest])]
          exact .refl _
      · next hvalidator =>
        refine .inr (finish_returnData (haborted innerData ?_))
        rw [returnedAtOnce, if_neg fun h => hvalidator h.1, hdecode]

/-! ## The reassembled packets -/

/-- Every element has been validated, or has failed to be. -/
def Answered (b : Blob) : Prop := b.remaining = [] ∧ b.unanswered = 0

theorem answered_iff (b : Blob) : Answered b ↔ b.numValidated + b.numFailed = b.numElem := by
  rw [Answered, Blob.numElem, ← List.length_eq_zero_iff]
  omega

theorem sendFinalBuffer_of_not_answered {b : Blob} (h : ¬Answered b) : s.sendFinalBuffer b = s := by
  rw [answered_iff] at h
  rw [sendFinalBuffer, if_pos h]

theorem item_sendFinalBuffer_of_ne {b : Blob} (h : b.publication ≠ p) :
    (s.sendFinalBuffer b).item p = s.item p := by
  rw [sendFinalBuffer]
  split
  · rfl
  · split
    · exact item_cleanUpFetch_of_ne h
    · rw [item_cleanUpFetch_of_ne h, item_callAll_of_ne h rfl]

theorem item_sendFinalBuffer {b : Blob} (h : Answered b) :
    (s.sendFinalBuffer b).item b.publication =
      if 0 < b.numFailed then (s.item b.publication).drop
      else ((s.item b.publication).serve
        ((s.subscribers b.publication).filter (!·.isPacketSubscription))).drop := by
  rw [sendFinalBuffer, if_neg (not_not.mpr ((answered_iff b).mp h))]
  split
  · exact item_cleanUpFetch
  · rw [item_cleanUpFetch, item_callAll (p := b.publication) rfl]

/-- The second time the list is empty. -/
theorem item_sendFinalBuffer_again {b : Blob} (h : Answered b) :
    ((s.sendFinalBuffer b).sendFinalBuffer b).item b.publication =
      ((s.sendFinalBuffer b).item b.publication).drop := by
  have hwaiters : (s.sendFinalBuffer b).subscribers b.publication = [] := by
    rw [← waiters_item, item_sendFinalBuffer h]
    split <;> rfl
  rw [item_sendFinalBuffer h, hwaiters]
  split
  · rfl
  · exact Item.drop_serve_nil _

theorem item_keepBlob_of_ne {b : Blob} (h : b.publication ≠ p) : (s.keepBlob b).item p = s.item p := by
  rw [keepBlob]
  split
  · rfl
  · exact item_await_other (by simp [FetchTask.isFirst]) (by simp [FetchTask.isRest, h])

/-- A blob whose loop was left by an exception does not count. -/
theorem item_keepBlob_of_remaining {b : Blob} (h : b.remaining ≠ []) : (s.keepBlob b).item p = s.item p := by
  rw [keepBlob]
  split
  · rfl
  · exact item_await_other (by simp [FetchTask.isFirst]) (by simp [FetchTask.isRest, h])

theorem keepBlob_of_answered {b : Blob} (h : Answered b) : s.keepBlob b = s := if_pos h.2

theorem item_keepBlob {b : Blob} (h : b.remaining = []) (hanswered : ¬Answered b) :
    (s.keepBlob b).item b.publication = (s.item b.publication).addRest := by
  have hne : ¬b.unanswered = 0 := fun heq => hanswered ⟨h, heq⟩
  rw [keepBlob, if_neg hne]
  exact item_await_rest (by simp [FetchTask.isFirst]) (by simp [FetchTask.isRest, h])

/-- `sendFinalBuffer` with the last answer, once or again after the loop. -/
theorem finish_sendFinalBuffer {b : Blob} (h : Answered b) (haborted : 0 < b.numFailed → F.aborted)
    (again : Nat) :
    Finish (·.isPacketSubscription) F (s.item b.publication).addRest
      (Item.drop^[again] ((s.sendFinalBuffer b).item b.publication)) := by
  rw [item_sendFinalBuffer h]
  split
  · next hfailed => exact .abort _ again (haborted hfailed)
  · exact .serveLate _ again

/-- What comes after the loop, or with a later answer. -/
theorem step_sendFinalBuffer {b : Blob} (h : b.remaining = []) (haborted : 0 < b.numFailed → F.aborted) :
    Delivery.Step (·.isPacketSubscription) F (s.item b.publication).addRest
      (((s.sendFinalBuffer b).keepBlob b).item b.publication) := by
  by_cases hanswered : Answered b
  · rw [keepBlob_of_answered hanswered]
    exact .inr (finish_sendFinalBuffer hanswered haborted 0)
  · -- the blob waits for the rest of the answers
    rw [sendFinalBuffer_of_not_answered hanswered, item_keepBlob h hanswered]
    exact .refl _

@[simp] theorem publication_answer (b : Blob) (accepted : Bool) :
    (b.answer accepted).publication = b.publication := by
  cases accepted <;> rfl

@[simp] theorem remaining_answer (b : Blob) (accepted : Bool) :
    (b.answer accepted).remaining = b.remaining := by
  cases accepted <;> rfl

theorem item_validateElements_of_ne {elements : List Block} {answers : List (Option Bool)} {b : Blob}
    (h : b.publication ≠ p) : (validateElements cfg elements answers b s).item p = s.item p := by
  induction elements generalizing answers b s with
  | nil => rw [validateElements, item_keepBlob_of_ne h, item_sendFinalBuffer_of_ne h]
  | cons element elements ih =>
    rw [validateElements]
    split
    · rw [item_keepBlob_of_ne h, item_cleanUpFetch_of_ne h]
    · next innerData _ =>
      split
      · split
        · next accepted _ =>
          have hne : ((b.copy innerData.content elements).answer accepted).publication ≠ p := by
            rw [publication_answer]
            exact h
          rw [ih hne, item_sendFinalBuffer_of_ne hne]
        · exact ih h
      · exact ih h

/-- An element does not decode, or an answer is, or has been, a rejection. -/
def Spoilt (cfg : PubSubConfig) (elements : List Block) (answers : List (Option Bool)) (b : Blob) : Prop :=
  (∃ element ∈ elements, cfg.decodeData element = none) ∨
    (cfg.securityOptions.hasEncapsulatedDataValidator = true ∧ some false ∈ answers) ∨ 0 < b.numFailed

theorem step_validateElements {elements : List Block} {answers : List (Option Bool)} {b : Blob}
    (hp : b.publication = p) (hremaining : b.remaining = elements)
    (haborted : Spoilt cfg elements answers b → F.aborted) :
    Delivery.Step (·.isPacketSubscription) F (s.item p).addRest
      ((validateElements cfg elements answers b s).item p) := by
  induction elements generalizing answers b s with
  | nil =>
    subst hp
    rw [validateElements]
    exact step_sendFinalBuffer hremaining fun hfailed => haborted (.inr (.inr hfailed))
  | cons element elements ih =>
    rw [validateElements]
    split
    · next hdecode =>
      -- the exception leaves the loop, and the fetch is cleaned up
      have hne : b.remaining ≠ [] := hremaining ▸ List.cons_ne_nil element elements
      subst hp
      rw [item_keepBlob_of_remaining hne, item_cleanUpFetch]
      exact .inr (.abort _ 0 (haborted (.inl ⟨element, List.mem_cons_self, hdecode⟩)))
    · next innerData hdecode =>
      -- what spoils the other elements spoils all of them
      have hspoilt : ∀ b', (0 < b'.numFailed → Spoilt cfg (element :: elements) answers b) →
          Spoilt cfg elements answers.tail b' → F.aborted := by
        intro b' hb' hspoilt
        apply haborted
        rcases hspoilt with ⟨e, he, hnone⟩ | ⟨hvalidator, hmem⟩ | hfailed
        · exact .inl ⟨e, List.mem_cons_of_mem _ he, hnone⟩
        · exact .inr (.inl ⟨hvalidator, List.mem_of_mem_tail hmem⟩)
        · exact hb' hfailed
      split
      · next hvalidator =>
        split
        · next accepted hanswer =>
          have hfailed : 0 < ((b.copy innerData.content elements).answer accepted).numFailed →
              Spoilt cfg (element :: elements) answers b := by
            intro hfailed
            cases accepted with
            | true => exact .inr (.inr hfailed)
            -- this answer is the rejection
            | false =>
              refine .inr (.inl ⟨hvalidator, ?_⟩)
              cases answers with
              | nil => exact nomatch hanswer
              | cons answer answers => exact hanswer ▸ List.mem_cons_self
          dsimp only
          by_cases hanswered : Answered ((b.copy innerData.content elements).answer accepted)
          · -- this was the last element: the buffer is sent now, and again after the loop
            obtain rfl : elements = [] := (remaining_answer _ accepted).symm.trans hanswered.1
            rw [validateElements, keepBlob_of_answered hanswered]
            have hpublication := (publication_answer (b.copy innerData.content []) accepted).trans hp
            have hagain := item_sendFinalBuffer_again (s := s) hanswered
            have hfinish := finish_sendFinalBuffer (s := s) (F := F) hanswered
              (fun h => haborted (hfailed h)) 1
            rw [hpublication] at hagain hfinish
            rw [hagain]
            exact .inr hfinish
          · rw [sendFinalBuffer_of_not_answered hanswered]
            exact ih ((publication_answer _ _).trans hp) (remaining_answer _ _)
              (hspoilt _ hfailed)
        · exact ih hp rfl (hspoilt _ fun h => .inr (.inr h))
      · exact ih hp rfl (hspoilt _ fun h => .inr (.inr h))

theorem item_onComplete_of_ne (h : p' ≠ p) (data : List UInt8) (answers : List (Option Bool)) :
    (s.onComplete cfg p' data answers).item p = s.item p := by
  rw [onComplete]
  split
  · exact item_cleanUpFetch_of_ne h
  · exact item_cleanUpFetch_of_ne h
  · split
    · exact item_cleanUpFetch_of_ne h
    · exact item_validateElements_of_ne h

/-- The data is a series of packets, and none of them is rejected at once. -/
def Reassembles (cfg : PubSubConfig) (data : List UInt8) (answers : List (Option Bool)) : Prop :=
  ∃ elements, Codec.packetFormat.elements data = some elements ∧ elements ≠ [] ∧
    (∀ element ∈ elements, cfg.decodeData element ≠ none) ∧
    (cfg.securityOptions.hasEncapsulatedDataValidator = true → some false ∉ answers)

theorem step_onComplete {data : List UInt8} {answers : List (Option Bool)}
    (haborted : ¬Reassembles cfg data answers → F.aborted) :
    Delivery.Step (·.isPacketSubscription) F (s.item p).addRest
      ((s.onComplete cfg p data answers).item p) := by
  rw [onComplete]
  split
  · next helements =>
    rw [item_cleanUpFetch]
    refine .inr (.abort _ 0 (haborted ?_))
    rintro ⟨elements, heq, -⟩
    exact nomatch helements.symm.trans heq
  · next helements =>
    rw [item_cleanUpFetch]
    refine .inr (.abort _ 0 (haborted ?_))
    rintro ⟨elements, heq, hne, -⟩
    exact hne (Option.some.inj (helements.symm.trans heq)).symm
  · next element elements helements =>
    split
    · next hdecode =>
      rw [item_cleanUpFetch]
      refine .inr (.abort _ 0 (haborted ?_))
      rintro ⟨elements', heq, -, hdecodes, -⟩
      obtain rfl := Option.some.inj (helements.symm.trans heq)
      exact hdecodes element List.mem_cons_self hdecode
    · refine step_validateElements rfl rfl fun hspoilt => haborted ?_
      rintro ⟨elements', heq, -, hdecodes, haccepts⟩
      obtain rfl := Option.some.inj (helements.symm.trans heq)
      rcases hspoilt with ⟨e, he, hnone⟩ | ⟨hvalidator, hmem⟩ | hfailed
      · exact hdecodes e he hnone
      · exact haccepts hvalidator hmem
      · exact absurd hfailed (Nat.lt_irrefl 0)

/-! ## Answers -/

/-- What is taken is no longer waited for. -/
theorem item_takeTask {id : Nat} {task : FetchTask} (h : s.takeTask id = some (task, s')) :
    s.item p = { s'.item p with
      first := (s'.item p).first + if task.isFirst p then 1 else 0
      rest := (s'.item p).rest + if task.isRest p then 1 else 0 } := by
  obtain ⟨t, hfind, heq⟩ := Option.map_eq_some_iff.mp h
  obtain ⟨rfl, rfl⟩ := Prod.mk.inj heq
  -- the tasks are the one that is taken and the others, in another order
  have hperm := List.perm_cons_eraseP hfind
  simp only [item, hperm.countP_eq, List.countP_cons, Nat.add_assoc]

theorem item_takeTask_first {id : Nat} {task : FetchTask} (h : s.takeTask id = some (task, s'))
    (hfirst : task.isFirst p = true) (hrest : task.isRest p = false) :
    s.item p = (s'.item p).addFirst := by
  rw [item_takeTask h, hfirst, hrest]
  rfl

theorem item_takeTask_rest {id : Nat} {task : FetchTask} (h : s.takeTask id = some (task, s'))
    (hfirst : task.isFirst p = false) (hrest : task.isRest p = true) :
    s.item p = (s'.item p).addRest := by
  rw [item_takeTask h, hfirst, hrest]
  rfl

theorem item_takeTask_other {id : Nat} {task : FetchTask} (h : s.takeTask id = some (task, s'))
    (hfirst : task.isFirst p = false) (hrest : task.isRest p = false) : s.item p = s'.item p := by
  rw [item_takeTask h, hfirst, hrest]
  rfl

/-! ## What goes wrong -/

/-- The step ends the fetch of the publication with neither delivery nor reassembly: its
    Interest ends without Data, or with Data that is not a packet in a packet, or the
    encapsulated packet is not valid, which the validator says at once or later. -/
def EndsBadly (cfg : PubSubConfig) (p : Publication) (e : UInt64 × Event) (s : PubSub) : Prop :=
  match e.2 with
  | .fetchData event answer => ∃ outcome,
      s.dataFetcher.Ends cfg.securityOptions event (.fetch p) outcome ∧
        ∀ data, outcome = .satisfied data → Malformed cfg data ∨ Rejected cfg answer
  | .validationFailed task =>
      ∃ s', s.takeTask task = some (.validation p, s')
  | _ => False

/-- The step gives up serving blob subscriptions: there are no segments to fetch for them,
    or the segments do not arrive, or they are not the packets they should be. -/
def GivesUp (cfg : PubSubConfig) (p : Publication) (e : UInt64 × Event) (s : PubSub) : Prop :=
  match e.2 with
  | .fetchData event answer => ∃ data innerData,
      s.dataFetcher.Ends cfg.securityOptions event (.fetch p) (.satisfied data) ∧
        returnedAtOnce cfg data answer = some innerData ∧ Unnamed p data innerData s
  | .segmentsComplete task data answers =>
      (∃ pubName s', s.takeTask task = some (.segments p pubName, s')) ∧
        ¬Reassembles cfg data answers
  | .segmentsError task => ∃ pubName s', s.takeTask task = some (.segments p pubName, s')
  | .blobAnswer task accepted => ∃ b s', s.takeTask task = some (.blob b, s') ∧
      b.publication = p ∧ (accepted = false ∨ 0 < b.numFailed)
  | _ => False

/-- The step queues a packet subscription for the publication. -/
def QueuesPacket (cfg : PubSubConfig) (p : Publication) (e : UInt64 × Event) (s : PubSub) : Prop :=
  match e.2 with
  | .update info => ∃ stream ∈ info, stream.Covers p ∧
      ∃ sub, Joins cfg e.1 s p sub ∧ sub.isPacketSubscription = true
  | .fetchMapping event => ∃ info data list,
      s.mappingFetcher.Ends cfg.securityOptions event info (.satisfied data) ∧
        mappingListOf data = some list ∧ info.nodeId = p.nodeId ∧ p.seqNo ∈ list.pairs.map (·.1) ∧
          ∃ sub ∈ s.prefixSubscriptions, sub.isPacketSubscription = true ∧
            Wants cfg e.1 (s.mappings.addMappings info.nodeId list.pairs) p sub
  | _ => False

/-- What goes wrong in a step for a publication. -/
def faults (cfg : PubSubConfig) (p : Publication) (e : UInt64 × Event) (s : PubSub) : Faults where
  late := 0 < (s.item p).rest ∧ QueuesPacket cfg p e s
  lost := EndsBadly cfg p e s
  aborted := GivesUp cfg p e s

/-! ## Steps -/

/-- The node when the fetcher has handled the event, before the callback. -/
def afterFetcher (cfg : PubSubConfig) (event : FetchEvent Data) (s : PubSub) : PubSub :=
  { s with dataFetcher := (s.dataFetcher.step cfg.securityOptions event).1 }

theorem step_fetchData (cfg : PubSubConfig) (now : UInt64) (event : FetchEvent Data)
    (answer : Option Bool) (s : PubSub) :
    s.step cfg (now, .fetchData event answer) =
      onDataOutcome cfg answer (s.afterFetcher cfg event)
        (s.dataFetcher.step cfg.securityOptions event).2 := rfl

theorem item_afterFetcher_of_ended {event : FetchEvent Data} {outcome : FetchOutcome Data}
    (h : (s.dataFetcher.step cfg.securityOptions event).2 = some (.fetch p, outcome)) :
    s.item p = ((s.afterFetcher cfg event).item p).addFirst := by
  have houtstanding := s.dataFetcher.outstanding_step cfg.securityOptions event
  rw [h, Fetcher.ended_some] at houtstanding
  simp only [item, afterFetcher, Item.addFirst, houtstanding, Multiset.count_add,
    Multiset.count_singleton_self, Item.mk.injEq, true_and, and_true]
  omega

theorem item_afterFetcher {event : FetchEvent Data}
    (h : ∀ outcome, (s.dataFetcher.step cfg.securityOptions event).2 ≠ some (.fetch p, outcome)) :
    s.item p = (s.afterFetcher cfg event).item p := by
  have houtstanding := s.dataFetcher.outstanding_step cfg.securityOptions event
  simp only [item, afterFetcher, houtstanding, Multiset.count_add, Item.mk.injEq, true_and, and_true]
  cases hended : (s.dataFetcher.step cfg.securityOptions event).2 with
  | none => simp
  | some r =>
    have hne : DataRequest.fetch p ≠ r.1 := by
      intro heq
      exact h r.2 (by rw [hended, heq])
    -- the request that ends is another one
    have hcount : (Fetcher.ended (some r)).count (DataRequest.fetch p) = 0 := by
      rw [Multiset.count_eq_zero]
      exact fun hmem => hne (Multiset.mem_singleton.mp hmem)
    rw [hcount, Nat.zero_add]

/-- The callbacks of a request that is not for the publication. -/
theorem item_onDataOutcome_of_ne {r : Option (DataRequest × FetchOutcome Data)}
    (h : ∀ outcome, r ≠ some (.fetch p, outcome)) (answer : Option Bool) :
    (onDataOutcome cfg answer s r).item p = s.item p := by
  unfold onDataOutcome
  split
  · next p' data =>
    refine item_onSyncData_of_ne ?_ data answer
    rintro rfl
    exact h _ rfl
  · rfl

theorem refines_fetchData (now : UInt64) (event : FetchEvent Data) (answer : Option Bool) :
    Delivery.Step (·.isPacketSubscription) (faults cfg p (now, .fetchData event answer) s) (s.item p)
      ((s.step cfg (now, .fetchData event answer)).item p) := by
  rw [step_fetchData]
  by_cases hfetch : ∃ outcome, (s.dataFetcher.step cfg.securityOptions event).2 = some (.fetch p, outcome)
  · obtain ⟨outcome, hended⟩ := hfetch
    have hends := (s.dataFetcher.step_eq_some_iff cfg.securityOptions event _ outcome).mp hended
    rw [item_afterFetcher_of_ended hended, hended]
    -- without Data nothing is done, and the fetch is over
    have hlose : (∀ data, outcome ≠ .satisfied data) →
        Finish (·.isPacketSubscription) (faults cfg p (now, .fetchData event answer) s)
          ((s.afterFetcher cfg event).item p).addFirst ((s.afterFetcher cfg event).item p) := by
      intro hne
      have hlost : EndsBadly cfg p (now, .fetchData event answer) s :=
        ⟨outcome, hends, fun data heq => absurd heq (hne data)⟩
      exact Finish.lose_of_not_hold hlost _
    cases outcome with
    | satisfied data =>
      apply step_onSyncData
      · intro hbad
        refine ⟨_, hends, ?_⟩
        intro data' heq
        obtain rfl := FetchOutcome.satisfied.inj heq
        exact hbad
      · intro innerData hreturned hunnamed
        exact ⟨data, innerData, hends, hreturned, hunnamed⟩
    | nacked => exact .inr (hlose nofun)
    | timedOut => exact .inr (hlose nofun)
    | invalid => exact .inr (hlose nofun)
  · push Not at hfetch
    rw [item_onDataOutcome_of_ne hfetch answer, ← item_afterFetcher hfetch]
    exact .refl _

theorem refines_fetchMapping (now : UInt64) (event : FetchEvent Data) :
    Delivery.Step (·.isPacketSubscription) (faults cfg p (now, .fetchMapping event) s) (s.item p)
      ((s.step cfg (now, .fetchMapping event)).item p) := by
  -- neither the fetcher of mappings nor their store is part of the item
  rcases step_fetchMapping_cases cfg now event s with hstep | ⟨info, data, list, hended, hlist, hstep⟩
  · rw [hstep]
    exact .refl _
  · have hends := (s.mappingFetcher.step_eq_some_iff cfg.securityOptions event _ _).mp hended
    rw [hstep]
    refine .inl ((performs_processMappings cfg now info.nodeId list.pairs false
      ((s.afterMappingFetcher cfg event).storeMappings info.nodeId list.pairs)).grows ?_)
    intro sub hqueued hrest hpacket
    obtain ⟨⟨hnode, hseq⟩, hsub, hwants⟩ := hqueued
    exact ⟨hrest, info, data, list, hends, hlist, hnode, hseq, sub, hsub, hpacket, hwants⟩

theorem refines_blobAnswer (now : UInt64) {task : Nat} (accepted : Bool) {b : Blob}
    (htask : s.takeTask task = some (.blob b, s')) :
    Delivery.Step (·.isPacketSubscription) (faults cfg p (now, .blobAnswer task accepted) s) (s.item p)
      (((s'.sendFinalBuffer (Blob.answer { b with unanswered := b.unanswered - 1 } accepted)).keepBlob
        (Blob.answer { b with unanswered := b.unanswered - 1 } accepted)).item p) := by
  generalize hanswer : Blob.answer { b with unanswered := b.unanswered - 1 } accepted = b'
  have hpublication : b'.publication = b.publication := hanswer ▸ publication_answer _ accepted
  have hremaining : b'.remaining = b.remaining := hanswer ▸ remaining_answer _ accepted
  by_cases hp : b.publication = p
  · by_cases hrest : b.remaining = []
    · rw [item_takeTask_rest htask rfl (by simp [FetchTask.isRest, hp, hrest])]
      rw [← hpublication] at hp
      subst hp
      refine step_sendFinalBuffer (hremaining.trans hrest) ?_
      intro hfailed
      refine ⟨b, s', htask, hpublication.symm, ?_⟩
      cases accepted with
      | true =>
        rw [← hanswer] at hfailed
        exact .inr hfailed
      | false => exact .inl rfl
    · -- the loop was left by an exception
      have hne : b'.remaining ≠ [] := hremaining ▸ hrest
      rw [item_takeTask_other htask rfl (by simp [FetchTask.isRest, hrest]), item_keepBlob_of_remaining hne,
        sendFinalBuffer_of_not_answered fun h => hne h.1]
      exact .refl _
  · have hne : b'.publication ≠ p := hpublication ▸ hp
    rw [item_takeTask_other htask rfl (by simp [FetchTask.isRest, hp]), item_keepBlob_of_ne hne,
      item_sendFinalBuffer_of_ne hne]
    exact .refl _

/-- Each step of the node is a step of the item. -/
theorem step_refines (cfg : PubSubConfig) (p : Publication) (e : UInt64 × Event) (s : PubSub) :
    Delivery.Step (·.isPacketSubscription) (faults cfg p e s) (s.item p) ((s.step cfg e).item p) := by
  obtain ⟨now, event⟩ := e
  cases event with
  | subscribe pref packets => exact .refl _
  | subscribeToProducer nodePrefix prefetch packets => exact .refl _
  | unsubscribe handle => exact .refl _
  | insertMapping nid seqNo name additional => exact .refl _
  | onGetExtraData => exact .refl _
  | onRecvExtraData block => exact .refl _
  | update info =>
    rcases step_update_cases cfg now info s with hstep | ⟨s', hupdate, hstep⟩
    · rw [hstep]
      exact .refl _
    · rw [hstep]
      refine .inl ((performs_updateCallbackInternal hupdate).grows ?_)
      intro sub hqueued hrest hpacket
      obtain ⟨⟨stream, hstream, hcovers⟩, hjoins⟩ := hqueued
      exact ⟨hrest, stream, hstream, hcovers, sub, hjoins, hpacket⟩
  | fetchData event answer => exact refines_fetchData now event answer
  | fetchMapping event => exact refines_fetchMapping now event
  | validationFailed task =>
    rw [step]
    dsimp only
    split
    · next p' s' htask =>
      by_cases hp : p' = p
      · subst hp
        rw [item_takeTask_first htask (by simp [FetchTask.isFirst]) rfl]
        have hlost : EndsBadly cfg p' (now, .validationFailed task) s :=
          ⟨s', htask⟩
        exact .inr (Finish.lose_of_not_hold hlost _)
      · rw [item_takeTask_other htask (by simpa [FetchTask.isFirst] using hp) rfl]
        exact .refl _
    · exact .refl _
  | segmentsComplete task data answers =>
    rw [step]
    dsimp only
    split
    · next p' pubName s' htask =>
      by_cases hp : p' = p
      · subst hp
        rw [item_takeTask_rest htask rfl (by simp [FetchTask.isRest])]
        exact step_onComplete fun hdata => ⟨⟨pubName, s', htask⟩, hdata⟩
      · rw [item_takeTask_other htask rfl (by simpa [FetchTask.isRest] using hp),
          item_onComplete_of_ne hp]
        exact .refl _
    · exact .refl _
  | segmentsError task =>
    rw [step]
    dsimp only
    split
    · next p' pubName s' htask =>
      by_cases hp : p' = p
      · subst hp
        rw [item_takeTask_rest htask rfl (by simp [FetchTask.isRest]), item_cleanUpFetch]
        exact .inr (.abort _ 0 ⟨pubName, s', htask⟩)
      · rw [item_takeTask_other htask rfl (by simpa [FetchTask.isRest] using hp),
          item_cleanUpFetch_of_ne hp]
        exact .refl _
    · exact .refl _
  | blobAnswer task accepted =>
    rw [step]
    dsimp only
    split
    · next b s' htask => exact refines_blobAnswer now accepted htask
    · exact .refl _

end PubSub

end Svs
