import Svs.ForStd.LeadsTo
import Svs.Spec.RetryBound

/-!
# Every request of a fetcher ends

In an infinite run in which the face answers each Interest it is given, the validator
answers for all Data and scheduled retries fire, each request with a number of retries ends,
however many others are made.

## Key results

- `queue_step`: no event puts an Interest further back in the queue
- `Numbered.step`: identifiers are unique wherever an Interest is
- `pending_answered`, `validating_answered`, `scheduled_retried`: what an Interest comes to
- `request_ends`: every request ends, and once
-/

namespace Svs

/-- The identifier of the Interest that the face answers. -/
def FetchEvent.answered {δ : Type} : FetchEvent δ → Option Nat
  | .data id _ | .nack id | .timeout id => some id
  | _ => none

namespace Fetcher

variable {π δ : Type} {f f' : Fetcher π δ} {qi : QueuedInterest π} {k : ℕ}

/-! ## The queue -/

/-- An Interest moves on when the queue does, and does so where the window has a place. -/
theorem queue_processQueue (hwindow : f.pendingInterests.length ≤ f.windowSize)
    (hqi : f.interestQueue[k]? = some qi) :
    qi ∈ f.processQueue.pendingInterests ∨
      ∃ k' ≤ k, f.processQueue.interestQueue[k']? = some qi ∧
        (f.pendingInterests.length < f.windowSize → k' < k) := by
  obtain ⟨sent, rest, hqueue, heq, hfull⟩ := processQueueLoop_eq f.interestQueue f
  rw [processQueue, heq]
  rw [hqueue] at hqi
  by_cases hk : k < sent.length
  · rw [List.getElem?_append_left hk] at hqi
    exact Or.inl (List.mem_append_right _ (List.mem_of_getElem? hqi))
  · rw [List.getElem?_append_right (by omega)] at hqi
    refine Or.inr ⟨k - sent.length, Nat.sub_le _ _, hqi, ?_⟩
    intro hroom
    -- the window is full in the end, so something has been sent
    have hlength := (hfull hwindow).2 (List.ne_nil_of_mem (List.mem_of_getElem? hqi))
    rw [List.length_append] at hlength
    have hpos := (List.getElem?_eq_some_iff.mp hqi).1
    omega

/-- One that joins the queue leaves the others in front. -/
theorem queue_enqueue (hwindow : f.pendingInterests.length ≤ f.windowSize)
    (hqi : f.interestQueue[k]? = some qi) (new : QueuedInterest π) :
    qi ∈ (f.enqueue new).pendingInterests ∨
      ∃ k' ≤ k, (f.enqueue new).interestQueue[k']? = some qi ∧
        (f.pendingInterests.length < f.windowSize → k' < k) := by
  have hlt := (List.getElem?_eq_some_iff.mp hqi).1
  apply queue_processQueue
    (f := { f with interestIdCounter := f.interestIdCounter + 1
                   interestQueue := f.interestQueue ++ [{ new with id := f.interestIdCounter + 1 }] }) hwindow
  rw [List.getElem?_append_left hlt]
  exact hqi

/-- It is itself in the queue, or pending. -/
theorem mem_enqueue (new : QueuedInterest π) (f : Fetcher π δ) :
    ∃ id, { new with id := id } ∈ (f.enqueue new).interestQueue ++ (f.enqueue new).pendingInterests := by
  refine ⟨f.interestIdCounter + 1, ?_⟩
  obtain ⟨sent, rest, hqueue, heq, -⟩ := processQueueLoop_eq
    (f.interestQueue ++ [{ new with id := f.interestIdCounter + 1 }])
    { f with interestIdCounter := f.interestIdCounter + 1
             interestQueue := f.interestQueue ++ [{ new with id := f.interestIdCounter + 1 }] }
  have hmem : { new with id := f.interestIdCounter + 1 } ∈ sent ++ rest := by
    rw [← hqueue]
    exact List.mem_append_right _ List.mem_cons_self
  rw [enqueue, processQueue, heq]
  rcases List.mem_append.mp hmem with hmem | hmem
  · exact List.mem_append_right _ (List.mem_append_right _ hmem)
  · exact List.mem_append_left _ hmem

/-- Taking a pending Interest out makes a place in the window. -/
theorem room_takePending {id : ℕ} {taken : QueuedInterest π} (h : f.takePending id = some (taken, f'))
    (hwindow : f.pendingInterests.length ≤ f.windowSize) :
    f'.interestQueue = f.interestQueue ∧ f'.pendingInterests.length < f'.windowSize := by
  obtain ⟨hfind, rfl⟩ := takePending_eq_some_iff.mp h
  have hmem := List.mem_of_find?_eq_some hfind
  have hpos := List.length_pos_of_mem hmem
  refine ⟨rfl, ?_⟩
  dsimp only
  rw [List.length_eraseP_of_mem hmem (List.find?_some hfind)]
  omega

theorem not_answered_of_lacks {e : FetchEvent δ} (h : f.Lacks e) :
    ∀ other ∈ f.pendingInterests, e.answered ≠ some other.id := by
  intro other hother hanswered
  cases e with
  | data id | nack id | timeout id =>
    have hfind := List.find?_eq_none.mp (Option.map_eq_none_iff.mp h) other hother
    exact hfind (decide_eq_true (Option.some.inj hanswered).symm)
  | validated | validationFailed | retry => exact absurd hanswered.symm (Option.some_ne_none _)

/-- No event puts an Interest further back in the queue, and each answer of the face moves it on. -/
theorem queue_step (hwindow : f.pendingInterests.length ≤ f.windowSize)
    (hqi : f.interestQueue[k]? = some qi) (opts : SecurityOptions) (e : FetchEvent δ) :
    qi ∈ (f.step opts e).1.pendingInterests ∨
      ∃ k' ≤ k, (f.step opts e).1.interestQueue[k']? = some qi ∧
        ((∃ other ∈ f.pendingInterests, e.answered = some other.id) → k' < k) := by
  -- no Interest that is pending is answered
  have hsame : (∀ other ∈ f.pendingInterests, e.answered ≠ some other.id) →
      ∃ k' ≤ k, f.interestQueue[k']? = some qi ∧
        ((∃ other ∈ f.pendingInterests, e.answered = some other.id) → k' < k) := by
    intro hnone
    refine ⟨k, le_rfl, hqi, ?_⟩
    rintro ⟨other, hother, hanswered⟩
    exact absurd hanswered (hnone other hother)
  have hmoves := moves_step opts e f
  generalize f.step opts e = r at hmoves ⊢
  cases hmoves with
  | lacks h => exact Or.inr (hsame (not_answered_of_lacks h))
  | satisfied htake | validating htake | nacked htake | timedOut htake =>
    obtain ⟨hqueue, hroom⟩ := room_takePending htake hwindow
    rw [← hqueue] at hqi
    rcases queue_processQueue hroom.le hqi with hpending | ⟨k', hle, hk', hlt⟩
    · exact Or.inl hpending
    · exact Or.inr ⟨k', hle, hk', fun _ => hlt hroom⟩
  | resent htake =>
    obtain ⟨hqueue, hroom⟩ := room_takePending htake hwindow
    rw [← hqueue] at hqi
    rcases queue_enqueue hroom.le hqi _ with hpending | ⟨k', hle, hk', hlt⟩
    · exact Or.inl hpending
    · exact Or.inr ⟨k', hle, hk', fun _ => hlt hroom⟩
  | validated htake | scheduled htake | invalid htake =>
    -- the queue stays as it is
    obtain ⟨-, rfl⟩ := takeValidating_eq_some_iff.mp htake
    exact Or.inr (hsame (by simp [FetchEvent.answered]))
  | @retried id taken f' htake =>
    obtain ⟨-, rfl⟩ := takeScheduled_eq_some_iff.mp htake
    rcases queue_enqueue (f := { f with scheduled := f.scheduled.eraseP (·.id = id) }) hwindow hqi
        { taken with nRetriesOnValidationFail := taken.nRetriesOnValidationFail - 1 } with
      hpending | ⟨k', hle, hk', -⟩
    · exact Or.inl hpending
    · exact Or.inr ⟨k', hle, hk', by simp [FetchEvent.answered]⟩

/-! ## Identifiers -/

/-- Identifiers are unique wherever an Interest is, and have been given out. -/
structure Numbered (f : Fetcher π δ) : Prop where
  nodup : (f.interests.map (·.id)).Nodup
  issued : ∀ qi ∈ f.interests, qi.id ≤ f.interestIdCounter

theorem Numbered.of_le (h : Numbered f) (hle : f'.interests ≤ f.interests)
    (hcounter : f'.interestIdCounter = f.interestIdCounter) : Numbered f' where
  nodup := Multiset.nodup_of_le (Multiset.map_le_map hle) h.nodup
  issued qi hqi := by
    rw [hcounter]
    exact h.issued qi (Multiset.mem_of_le hle hqi)

theorem interestIdCounter_processQueueLoop (queue : List (QueuedInterest π)) (f : Fetcher π δ) :
    (processQueueLoop queue f).interestIdCounter = f.interestIdCounter ∧
      (processQueueLoop queue f).windowSize = f.windowSize := by
  obtain ⟨sent, rest, -, heq, -⟩ := processQueueLoop_eq queue f
  rw [heq]
  exact ⟨rfl, rfl⟩

theorem Numbered.processQueue (h : Numbered f) : Numbered f.processQueue :=
  h.of_le (interests_processQueueLoop f.interestQueue f).1.le
    (interestIdCounter_processQueueLoop f.interestQueue f).1

/-- The next identifier is a new one. -/
theorem Numbered.enqueue (h : Numbered f) (new : QueuedInterest π) : Numbered (f.enqueue new) := by
  have hcounter : (f.enqueue new).interestIdCounter = f.interestIdCounter + 1 :=
    (interestIdCounter_processQueueLoop _ _).1
  have hinterests : (f.enqueue new).interests =
      {{ new with id := f.interestIdCounter + 1 }} + f.interests := by
    refine (interests_processQueueLoop _ _).1.trans ?_
    simp only [interests, ← Multiset.coe_add, Multiset.coe_singleton]
    ac_rfl
  constructor
  · rw [hinterests, Multiset.map_add, Multiset.map_singleton, Multiset.singleton_add, Multiset.nodup_cons]
    refine ⟨?_, h.nodup⟩
    intro hmem
    obtain ⟨qi, hqi, hid⟩ := Multiset.mem_map.mp hmem
    have hissued := h.issued qi hqi
    dsimp only at hid
    omega
  · intro qi hqi
    rw [hcounter]
    rw [hinterests, Multiset.mem_add, Multiset.mem_singleton] at hqi
    rcases hqi with rfl | hqi
    · exact Nat.le_refl _
    · exact Nat.le_succ_of_le (h.issued qi hqi)

/-- What is left when an Interest has been taken out. -/
theorem Numbered.take (h : Numbered f) (htakes : Takes qi f f')
    (hcounter : f'.interestIdCounter = f.interestIdCounter) : Numbered f' := by
  refine h.of_le ?_ hcounter
  rw [htakes.interests]
  exact Multiset.le_add_left _ _

/-- Identifiers stay unique. -/
theorem Numbered.step (h : Numbered f) (opts : SecurityOptions) (e : FetchEvent δ) :
    Numbered (f.step opts e).1 := by
  have hmoves := moves_step opts e f
  generalize f.step opts e = r at hmoves ⊢
  cases hmoves with
  | lacks => exact h
  | satisfied htake | nacked htake | timedOut htake =>
    obtain ⟨-, rfl⟩ := takePending_eq_some_iff.mp htake
    exact (h.take (takes_takePending htake) rfl).processQueue
  | validating htake =>
    -- the Interest is in another place
    have htakes := takes_takePending htake
    obtain ⟨-, rfl⟩ := takePending_eq_some_iff.mp htake
    refine h.of_le ?_ (interestIdCounter_processQueueLoop _ _).1
    rw [htakes.interests, interests_validate, Fetcher.processQueue, (interests_processQueueLoop _ _).1]
  | resent htake =>
    obtain ⟨-, rfl⟩ := takePending_eq_some_iff.mp htake
    exact (h.take (takes_takePending htake) rfl).enqueue _
  | validated htake | invalid htake =>
    obtain ⟨-, rfl⟩ := takeValidating_eq_some_iff.mp htake
    exact h.take (takes_takeValidating htake) rfl
  | scheduled htake =>
    have htakes := takes_takeValidating htake
    obtain ⟨-, rfl⟩ := takeValidating_eq_some_iff.mp htake
    refine h.of_le ?_ rfl
    rw [htakes.interests, interests_schedule]
  | retried htake =>
    obtain ⟨-, rfl⟩ := takeScheduled_eq_some_iff.mp htake
    exact (h.take (takes_takeScheduled htake) rfl).enqueue _

/-- The window stays as wide as it is. -/
theorem windowSize_step (f : Fetcher π δ) (opts : SecurityOptions) (e : FetchEvent δ) :
    (f.step opts e).1.windowSize = f.windowSize := by
  have hloop := fun queue (f : Fetcher π δ) => (interestIdCounter_processQueueLoop queue f).2
  have hmoves := moves_step opts e f
  generalize f.step opts e = r at hmoves ⊢
  cases hmoves with
  | lacks => rfl
  | satisfied htake | validating htake | nacked htake | timedOut htake | resent htake =>
    obtain ⟨-, rfl⟩ := takePending_eq_some_iff.mp htake
    exact hloop _ _
  | validated htake | scheduled htake | invalid htake =>
    obtain ⟨-, rfl⟩ := takeValidating_eq_some_iff.mp htake
    rfl
  | retried htake =>
    obtain ⟨-, rfl⟩ := takeScheduled_eq_some_iff.mp htake
    exact hloop _ _

/-! ## What an Interest comes to -/

/-- The Interest is one of the request, with at most so many retries left. -/
structure Left (request : π) (n : ℕ) (qi : QueuedInterest π) : Prop where
  request : qi.request = request
  nonneg : 0 ≤ qi.nRetries
  retries : qi.nRetries.toNat + qi.nRetriesOnValidationFail.toNat ≤ n

/-- An Interest of the request waits to be sent, or for the face. -/
def Waits (request : π) (n : ℕ) (f : Fetcher π δ) : Prop :=
  ∃ qi, Left request n qi ∧ qi ∈ f.interestQueue ++ f.pendingInterests

variable {request : π} {n : ℕ}

/-- A retry takes one of the retries that are left. -/
theorem waits_enqueue {new : QueuedInterest π} (hnew : Left request n new) (f : Fetcher π δ) :
    Waits request n (f.enqueue new) := by
  obtain ⟨id, hmem⟩ := mem_enqueue new f
  exact ⟨{ new with id := id }, ⟨hnew.request, hnew.nonneg, hnew.retries⟩, hmem⟩

/-- The identifier of an Interest finds it in its place. -/
theorem Numbered.find? {places : List (QueuedInterest π)} (h : Numbered f)
    (hplaces : (places : Multiset _) ≤ f.interests) (hqi : qi ∈ places) :
    places.find? (·.id = qi.id) = some qi := by
  have hnodup : ((places : Multiset (QueuedInterest π)).map (·.id)).Nodup :=
    Multiset.nodup_of_le (Multiset.map_le_map hplaces) h.nodup
  rw [Multiset.map_coe, Multiset.coe_nodup] at hnodup
  exact List.find?_key_eq_some hnodup hqi

/-- The face answers an Interest that is pending: its request ends, or its Data is validated,
    or a retry is taken. -/
theorem pending_answered (h : Numbered f) (hleft : Left request n qi) (hqi : qi ∈ f.pendingInterests)
    (opts : SecurityOptions) {e : FetchEvent δ} (he : e.answered = some qi.id) :
    (∃ outcome, (f.step opts e).2 = some (request, outcome)) ∨
      (∃ d, (qi, d) ∈ (f.step opts e).1.validating) ∨ ∃ m < n, Waits request m (f.step opts e).1 := by
  have hfind : f.pendingInterests.find? (·.id = qi.id) = some qi := by
    refine h.find? ?_ hqi
    rw [interests, add_assoc, add_assoc]
    exact (Multiset.le_add_right _ _).trans (Multiset.le_add_left _ _)
  have htake : f.takePending qi.id =
      some (qi, { f with pendingInterests := f.pendingInterests.eraseP (·.id = qi.id) }) :=
    takePending_eq_some_iff.mpr ⟨hfind, rfl⟩
  have hrequest := hleft.request
  cases e with
  | data id d =>
    obtain rfl := Option.some.inj he
    rw [step, htake]
    dsimp only
    rw [onData]
    split
    · exact Or.inr (Or.inl ⟨d, List.mem_append_right _ List.mem_cons_self⟩)
    · exact Or.inl ⟨_, by rw [hrequest]⟩
  | nack id =>
    obtain rfl := Option.some.inj he
    rw [step, htake]
    exact Or.inl ⟨.nacked, by rw [← hrequest]; rfl⟩
  | timeout id =>
    obtain rfl := Option.some.inj he
    rw [step, htake]
    dsimp only
    rw [onTimeout]
    split
    · exact Or.inl ⟨_, by rw [hrequest]⟩
    · next hretries =>
      -- one retry less is left
      have hnonneg := hleft.nonneg
      have hle := hleft.retries
      have hnew : Left request (n - 1) { qi with nRetries := qi.nRetries - 1 } :=
        ⟨hrequest, by dsimp only; omega, by dsimp only; omega⟩
      exact Or.inr (Or.inr ⟨n - 1, by omega, waits_enqueue hnew _⟩)
  | validated | validationFailed | retry => exact absurd he.symm (Option.some_ne_none _)

/-- The validator answers for its Data: the request ends, or a retry is scheduled. -/
theorem validating_answered (h : Numbered f) (hrequest : qi.request = request) {d : δ}
    (hqi : (qi, d) ∈ f.validating) (opts : SecurityOptions) {e : FetchEvent δ}
    (he : e = .validated qi.id ∨ e = .validationFailed qi.id) :
    (∃ outcome, (f.step opts e).2 = some (request, outcome)) ∨
      0 < qi.nRetriesOnValidationFail ∧ qi ∈ (f.step opts e).1.scheduled := by
  have hfind : ∃ d', f.validating.find? (·.1.id = qi.id) = some (qi, d') := by
    have hplaces : (f.validating.map (·.1) : Multiset _) ≤ f.interests := by
      rw [interests, add_right_comm]
      exact Multiset.le_add_left _ _
    have hmap := h.find? hplaces (List.mem_map_of_mem hqi)
    rw [List.find?_map, Option.map_eq_some_iff] at hmap
    obtain ⟨⟨qi', d'⟩, hfind, rfl⟩ := hmap
    exact ⟨d', hfind⟩
  obtain ⟨d', hfind⟩ := hfind
  have htake : f.takeValidating qi.id =
      some ((qi, d'), { f with validating := f.validating.eraseP (·.1.id = qi.id) }) :=
    takeValidating_eq_some_iff.mpr ⟨hfind, rfl⟩
  rcases he with rfl | rfl
  · rw [step, htake]
    exact Or.inl ⟨.satisfied d', by rw [← hrequest]⟩
  · rw [step, htake]
    dsimp only
    rw [onValidationFailed]
    split
    · next hretries => exact Or.inr ⟨hretries, List.mem_append_right _ List.mem_cons_self⟩
    · exact Or.inl ⟨.invalid, by rw [← hrequest]⟩

/-- A scheduled retry fires. -/
theorem scheduled_retried (h : Numbered f) (hleft : Left request n qi)
    (hretries : 0 < qi.nRetriesOnValidationFail) (hqi : qi ∈ f.scheduled) (opts : SecurityOptions) :
    ∃ m < n, Waits request m (f.step opts (.retry qi.id)).1 := by
  have hfind : f.scheduled.find? (·.id = qi.id) = some qi := by
    refine h.find? ?_ hqi
    rw [interests]
    exact Multiset.le_add_left _ _
  have htake : f.takeScheduled qi.id =
      some (qi, { f with scheduled := f.scheduled.eraseP (·.id = qi.id) }) :=
    takeScheduled_eq_some_iff.mpr ⟨hfind, rfl⟩
  have hle := hleft.retries
  have hnew : Left request (n - 1) { qi with nRetriesOnValidationFail := qi.nRetriesOnValidationFail - 1 } :=
    ⟨hleft.request, hleft.nonneg, by dsimp only; omega⟩
  rw [step, htake]
  exact ⟨n - 1, by omega, waits_enqueue hnew _⟩

end Fetcher

/-! ## Infinite runs -/

/-- A fetcher that is used for ever. -/
structure FetcherExecution (δ : Type) (opts : SecurityOptions) where
  history : ℕ → FetcherHistory δ
  use : ℕ → FetcherUse δ
  history_zero : history 0 = {}
  history_succ : ∀ t, history (t + 1) = (history t).next opts (use t)

namespace FetcherExecution

open FetcherHistory Fetcher

variable {δ : Type} {opts : SecurityOptions} {ex : FetcherExecution δ opts}

/-- Each Interest that is pending is answered while it is, the validator answers for all Data that
    it is given, and each retry that is scheduled fires. -/
structure Fair (ex : FetcherExecution δ opts) : Prop where
  answers : ∀ t, ∀ qi ∈ (ex.history t).fetcher.pendingInterests, ∃ t' ≥ t,
    qi ∈ (ex.history t').fetcher.pendingInterests ∧ ∃ e, ex.use t' = .event e ∧ e.answered = some qi.id
  validates : ∀ t, ∀ x ∈ (ex.history t).fetcher.validating, ∃ t' ≥ t,
    x ∈ (ex.history t').fetcher.validating ∧
      (ex.use t' = .event (.validated x.1.id) ∨ ex.use t' = .event (.validationFailed x.1.id))
  retries : ∀ t, ∀ qi ∈ (ex.history t).fetcher.scheduled, ∃ t' ≥ t,
    qi ∈ (ex.history t').fetcher.scheduled ∧ ex.use t' = .event (.retry qi.id)

theorem invariant (ex : FetcherExecution δ opts) (t : ℕ) : Invariant (ex.history t) := by
  induction t with
  | zero =>
    rw [ex.history_zero]
    exact Invariant.init
  | succ t ih =>
    rw [ex.history_succ]
    exact ih.next opts (ex.use t)

/-- The window has its places, and identifiers are unique. -/
theorem numbered (ex : FetcherExecution δ opts) (t : ℕ) :
    (ex.history t).fetcher.windowSize = 10 ∧ (ex.history t).fetcher.Numbered := by
  induction t with
  | zero =>
    rw [ex.history_zero]
    exact ⟨rfl, Multiset.nodup_zero, fun qi hqi => absurd hqi (Multiset.notMem_zero qi)⟩
  | succ t ih =>
    obtain ⟨hwindow, hnumbered⟩ := ih
    rw [ex.history_succ]
    cases ex.use t with
    | expressInterest nRetries notNull =>
      exact ⟨(interestIdCounter_processQueueLoop _ _).2.trans hwindow, hnumbered.enqueue _⟩
    | event e => exact ⟨(windowSize_step _ opts e).trans hwindow, hnumbered.step opts e⟩

/-- The request has ended. -/
def Ended (ex : FetcherExecution δ opts) (request : ℕ) (t : ℕ) : Prop :=
  request ∈ (ex.history t).ended.map (·.1)

variable {request n : ℕ}

theorem ended_of_event {t : ℕ} {e : FetchEvent δ} (huse : ex.use t = .event e)
    (hended : ∃ outcome, ((ex.history t).fetcher.step opts e).2 = some (request, outcome)) :
    ex.Ended request (t + 1) := by
  obtain ⟨outcome, houtcome⟩ := hended
  rw [Ended, ex.history_succ, huse, FetcherHistory.next]
  dsimp only
  rw [houtcome, List.map_append]
  exact List.mem_append_right _ List.mem_cons_self

/-- What is in the queue becomes pending, since all that is pending is answered. -/
theorem queue_leadsTo (hfair : ex.Fair) (k : ℕ) :
    LeadsTo (fun t => ∃ qi, Left request n qi ∧ (ex.history t).fetcher.interestQueue[k]? = some qi)
      fun t => ∃ qi, Left request n qi ∧ qi ∈ (ex.history t).fetcher.pendingInterests := by
  refine LeadsTo.of_rank (P := fun k t =>
    ∃ qi, Left request n qi ∧ (ex.history t).fetcher.interestQueue[k]? = some qi) ?_ k
  intro k
  refine LeadsTo.of_unless (H := fun t => ∃ other ∈ (ex.history t).fetcher.pendingInterests,
    ∃ e, ex.use t = .event e ∧ e.answered = some other.id) ?_ ?_ ?_
  · -- it stays, moves on, or becomes pending
    rintro t ⟨qi, hleft, hqi⟩
    have hwindow := (ex.invariant t).sound.window
    rw [ex.history_succ]
    have hmoved : ∀ (f : Fetcher ℕ δ) (p : ℕ → Prop),
        (qi ∈ f.pendingInterests ∨ ∃ k' ≤ k, f.interestQueue[k']? = some qi ∧ p k') →
        (∃ qi, Left request n qi ∧ f.interestQueue[k]? = some qi) ∨
          (∃ qi, Left request n qi ∧ qi ∈ f.pendingInterests) ∨
            ∃ j < k, ∃ qi, Left request n qi ∧ f.interestQueue[j]? = some qi := by
      rintro f p (hpending | ⟨k', hle, hk', -⟩)
      · exact Or.inr (Or.inl ⟨qi, hleft, hpending⟩)
      · by_cases hk : k' = k
        · exact Or.inl ⟨qi, hleft, hk ▸ hk'⟩
        · exact Or.inr (Or.inr ⟨k', by omega, qi, hleft, hk'⟩)
    cases ex.use t with
    | expressInterest nRetries notNull =>
      exact hmoved _ _ (queue_enqueue hwindow hqi _)
    | event e => exact hmoved _ _ (queue_step hwindow hqi opts e)
  · -- the window is full, and some Interest in it is answered
    rintro t ⟨qi, -, hqi⟩
    have hfull := (ex.invariant t).settled (List.ne_nil_of_mem (List.mem_of_getElem? hqi))
    rw [(ex.numbered t).1] at hfull
    obtain ⟨other, hother⟩ := List.exists_mem_of_length_pos (by omega :
      0 < (ex.history t).fetcher.pendingInterests.length)
    obtain ⟨t', ht', hpending, e, huse, he⟩ := hfair.answers t other hother
    exact ⟨t', ht', other, hpending, e, huse, he⟩
  · rintro t ⟨qi, hleft, hqi⟩ ⟨other, hother, e, huse, he⟩
    rw [ex.history_succ, huse]
    rcases queue_step (ex.invariant t).sound.window hqi opts e with hpending | ⟨k', hle, hk', hlt⟩
    · exact Or.inl ⟨qi, hleft, hpending⟩
    · exact Or.inr ⟨k', hlt ⟨other, hother, he⟩, qi, hleft, hk'⟩

/-- A pending Interest is answered, and its Data validated. -/
theorem pending_leadsTo (hfair : ex.Fair) :
    LeadsTo (fun t => ∃ qi, Left request n qi ∧ qi ∈ (ex.history t).fetcher.pendingInterests) fun t =>
      (ex.Ended request t ∨ ∃ m < n, Waits request m (ex.history t).fetcher) ∨
        ∃ qi d, Left request n qi ∧ (qi, d) ∈ (ex.history t).fetcher.validating := by
  rintro t ⟨qi, hleft, hqi⟩
  obtain ⟨t', ht', hpending, e, huse, he⟩ := hfair.answers t qi hqi
  refine ⟨t' + 1, by omega, ?_⟩
  rcases pending_answered (ex.numbered t').2 hleft hpending opts he with hended | hvalidating | hwaits
  · exact Or.inl (Or.inl (ended_of_event huse hended))
  · rw [ex.history_succ, huse]
    obtain ⟨d, hd⟩ := hvalidating
    exact Or.inr ⟨qi, d, hleft, hd⟩
  · rw [ex.history_succ, huse]
    exact Or.inl (Or.inr hwaits)

/-- What is validated ends, or is tried again with one retry less. -/
theorem validating_leadsTo (hfair : ex.Fair) :
    LeadsTo (fun t => ∃ qi d, Left request n qi ∧ (qi, d) ∈ (ex.history t).fetcher.validating) fun t =>
      ex.Ended request t ∨ ∃ m < n, Waits request m (ex.history t).fetcher := by
  rintro t ⟨qi, d, hleft, hqi⟩
  obtain ⟨t', ht', hvalidating, huse⟩ := hfair.validates t (qi, d) hqi
  obtain ⟨e, huse, he⟩ : ∃ e, ex.use t' = .event e ∧ (e = .validated qi.id ∨ e = .validationFailed qi.id) := by
    rcases huse with huse | huse
    · exact ⟨_, huse, Or.inl rfl⟩
    · exact ⟨_, huse, Or.inr rfl⟩
  rcases validating_answered (ex.numbered t').2 hleft.request hvalidating opts he with
    hended | ⟨hretries, hscheduled⟩
  · exact ⟨t' + 1, by omega, Or.inl (ended_of_event huse hended)⟩
  · -- the retry fires some time
    obtain ⟨t'', ht'', hqi, hretry⟩ := hfair.retries (t' + 1) qi (by
      rw [ex.history_succ, huse]
      exact hscheduled)
    refine ⟨t'' + 1, by omega, Or.inr ?_⟩
    rw [ex.history_succ, hretry]
    exact scheduled_retried (ex.numbered t'').2 hleft hretries hqi opts

/-- With so many retries left, a request ends. -/
theorem waits_leadsTo (hfair : ex.Fair) (n : ℕ) :
    LeadsTo (fun t => Waits request n (ex.history t).fetcher) (ex.Ended request) := by
  refine LeadsTo.of_rank (P := fun n t => Waits request n (ex.history t).fetcher) ?_ n
  intro n
  have hpending : LeadsTo (fun t => ∃ qi, Left request n qi ∧ qi ∈ (ex.history t).fetcher.pendingInterests)
      fun t => ex.Ended request t ∨ ∃ m < n, Waits request m (ex.history t).fetcher :=
    (pending_leadsTo hfair).trans_or (validating_leadsTo hfair)
  rintro t ⟨qi, hleft, hqi⟩
  rcases List.mem_append.mp hqi with hqi | hqi
  · obtain ⟨k, hk⟩ := List.getElem?_of_mem hqi
    exact (queue_leadsTo hfair k).trans hpending t ⟨qi, hleft, hk⟩
  · exact hpending t ⟨qi, hleft, hqi⟩

/-- What has ended stays so. -/
theorem ended_prefix (ex : FetcherExecution δ opts) {t t' : ℕ} (h : t ≤ t') :
    (ex.history t).ended <+: (ex.history t').ended := by
  induction t', h using Nat.le_induction with
  | base => exact List.prefix_refl _
  | succ t' _ ih =>
    refine ih.trans ?_
    rw [ex.history_succ]
    cases ex.use t' with
    | expressInterest nRetries notNull => exact List.prefix_refl _
    | event e => exact List.prefix_append _ _

/-- A request with a number of retries ends, and ends once, however many others are made: no
    request starves, and none is retried for ever. -/
theorem request_ends (hfair : ex.Fair) {t : ℕ} {nRetries : Int} {notNull : Bool}
    (hcall : ex.use t = .expressInterest nRetries notNull) (hnonneg : 0 ≤ nRetries) :
    ∃ t' outcome, ∀ t'' ≥ t', (ex.history t'').ended.filter (·.1 = (ex.history t).calls.length) =
      [((ex.history t).calls.length, outcome)] ∧
        (ex.history t'').places (ex.history t).calls.length = 0 := by
  have hnew : Left (ex.history t).calls.length (nRetries.toNat + opts.nRetriesOnValidationFail.toNat)
      ⟨0, (ex.history t).calls.length, nRetries, opts.nRetriesOnValidationFail⟩ :=
    ⟨rfl, hnonneg, Nat.le_refl _⟩
  have hwaits : Waits (ex.history t).calls.length
      (nRetries.toNat + opts.nRetriesOnValidationFail.toNat) (ex.history (t + 1)).fetcher := by
    rw [ex.history_succ, hcall]
    exact waits_enqueue hnew _
  obtain ⟨t', -, hended⟩ := waits_leadsTo hfair _ (t + 1) hwaits
  -- what has ended is nowhere else, and has ended once
  have honce : ∀ t'' ≥ t', (ex.history t'').places (ex.history t).calls.length = 0 ∧
      ∃ outcome, (ex.history t'').ended.filter (·.1 = (ex.history t).calls.length) =
        [((ex.history t).calls.length, outcome)] := by
    intro t'' ht''
    have hI := ex.invariant t''
    have hmem : (ex.history t).calls.length ∈ (ex.history t'').ended.map (·.1) :=
      List.map_subset _ (ex.ended_prefix ht'').subset hended
    obtain ⟨r, hr, hrequest⟩ := List.mem_map.mp hmem
    have hlt : (ex.history t).calls.length < (ex.history t'').calls.length := by
      rw [← hrequest]
      exact hI.lt_of_ended hr
    have hone := hI.places_add_ended hlt
    have hpos := List.count_pos_iff.mpr hmem
    have hplaces : (ex.history t'').places (ex.history t).calls.length = 0 := by omega
    exact ⟨hplaces, hI.ended_of_places hlt hplaces⟩
  obtain ⟨-, outcome, hfirst⟩ := honce t' le_rfl
  refine ⟨t', outcome, fun t'' ht'' => ?_⟩
  obtain ⟨hplaces, outcome', hlater⟩ := honce t'' ht''
  have hprefix := (ex.ended_prefix ht'').filter (·.1 = (ex.history t).calls.length)
  rw [hfirst, hlater] at hprefix
  have hsame := (List.cons_prefix_cons.mp hprefix).1
  rw [hlater, ← hsame]
  exact ⟨rfl, hplaces⟩

/-! ## A run that is fair -/

/-- One request, whose first Interest times out, and whose Data is validated. -/
def shortUse : ℕ → FetcherUse Unit
  | 0 => .expressInterest 1 true
  | 1 => .event (.timeout 1)
  | 2 => .event (.data 2 ())
  | 3 => .event (.validated 2)
  | _ => .event (.nack 0)

def shortRun : FetcherExecution Unit { hasValidator := true } where
  history t := (List.range t).foldl (fun h t => h.next { hasValidator := true } (shortUse t)) {}
  use := shortUse
  history_zero := rfl
  history_succ t := by
    rw [List.range_succ, List.foldl_append]
    rfl

/-- In the end nothing happens any more. -/
theorem shortRun_rest (t : ℕ) : shortRun.history (t + 4) = shortRun.history 4 := by
  induction t with
  | zero => rfl
  | succ t ih =>
    rw [Nat.add_right_comm, shortRun.history_succ, ih]
    rfl

/-- The Interest is pending after the first use and, as a retry, after the second one. -/
theorem pending_shortRun {t : ℕ} {qi : QueuedInterest ℕ}
    (h : qi ∈ (shortRun.history t).fetcher.pendingInterests) :
    t = 1 ∧ qi = ⟨1, 0, 1, 0⟩ ∨ t = 2 ∧ qi = ⟨2, 0, 0, 0⟩ := by
  match t with
  | 0 | 3 => exact absurd h List.not_mem_nil
  | 1 => exact Or.inl ⟨rfl, List.mem_singleton.mp h⟩
  | 2 => exact Or.inr ⟨rfl, List.mem_singleton.mp h⟩
  | t + 4 =>
    rw [shortRun_rest] at h
    exact absurd h List.not_mem_nil

theorem fair_shortRun : shortRun.Fair where
  answers t qi hqi := by
    rcases pending_shortRun hqi with ⟨rfl, rfl⟩ | ⟨rfl, rfl⟩
    · exact ⟨1, le_rfl, hqi, .timeout 1, rfl, rfl⟩
    · exact ⟨2, le_rfl, hqi, .data 2 (), rfl, rfl⟩
  validates t x hx := by
    match t with
    | 0 | 1 | 2 => exact absurd hx List.not_mem_nil
    | 3 =>
      obtain rfl : x = (⟨2, 0, 0, 0⟩, ()) := List.mem_singleton.mp hx
      exact ⟨3, le_rfl, hx, Or.inl rfl⟩
    | t + 4 =>
      rw [shortRun_rest] at hx
      exact absurd hx List.not_mem_nil
  retries t qi hqi := by
    match t with
    | 0 | 1 | 2 | 3 => exact absurd hqi List.not_mem_nil
    | t + 4 =>
      rw [shortRun_rest] at hqi
      exact absurd hqi List.not_mem_nil

theorem request_ends_short : ∃ t outcome, ∀ t' ≥ t,
    (shortRun.history t').ended.filter (·.1 = 0) = [(0, outcome)] ∧ (shortRun.history t').places 0 = 0 :=
  request_ends (t := 0) fair_shortRun rfl Int.one_nonneg

end FetcherExecution

end Svs
