import Svs.ForStd.Run
import Svs.Spec.FetcherCorrect

/-!
# Runs of a fetcher

A fetcher together with the calls of `expressInterest` and the ends of their requests.
A request is named by the number of calls before it.

## Key results

- `Sound.step`: every handler leaves the window full or the queue empty
- `conserved`: window, identifiers, places and order of the requests, after any run
- `answered_run_iff`: when every request that ends has been answered with one callback
-/

namespace Svs

/-- The callbacks that `expressInterest` is given. -/
inductive FetchCallback
  | afterSatisfied | afterNacked | afterTimeout | afterValidationFailed
deriving DecidableEq

/-- The callback that is invoked when a request ends. -/
def FetchOutcome.callback {δ : Type} : FetchOutcome δ → Option FetchCallback
  | .satisfied _ => some .afterSatisfied
  | .nacked => some .afterNacked
  | .timedOut => some .afterTimeout
  | .invalid => none

namespace Fetcher

variable {π δ : Type}

/-! ## The window -/

/-- The loop gives the face a first part of the queue: as much as fits into the window. -/
theorem processQueueLoop_eq (queue : List (QueuedInterest π)) (f : Fetcher π δ) :
    ∃ sent rest, queue = sent ++ rest ∧
      processQueueLoop queue f =
        { f with interestQueue := rest, pendingInterests := f.pendingInterests ++ sent
                 expressed := f.expressed ++ sent } ∧
      (f.pendingInterests.length ≤ f.windowSize →
        (f.pendingInterests ++ sent).length ≤ f.windowSize ∧
          (rest ≠ [] → (f.pendingInterests ++ sent).length = f.windowSize)) := by
  induction queue generalizing f with
  | nil => exact ⟨[], [], rfl, by simp [processQueueLoop], by simp⟩
  | cons i queue ih =>
    rw [processQueueLoop]
    split
    · next hroom =>
      obtain ⟨sent, rest, hqueue, heq, hwindow⟩ := ih
        { f with pendingInterests := f.pendingInterests ++ [i], expressed := f.expressed ++ [i] }
      refine ⟨i :: sent, rest, by rw [hqueue, List.cons_append], ?_, ?_⟩
      · rw [heq]
        simp
      · intro _
        simpa using hwindow (by simpa using hroom)
    · next hfull =>
      refine ⟨[], i :: queue, rfl, by simp, ?_⟩
      intro hle
      rw [List.append_nil]
      exact ⟨hle, fun _ => by omega⟩

/-- The face has as many Interests as the window allows, or the queue is empty. -/
def Settled (f : Fetcher π δ) : Prop :=
  f.interestQueue ≠ [] → f.pendingInterests.length = f.windowSize

variable [BEq π]

/-- What holds of a fetcher also before the queue moves.  `requests` are those of the
    calls of `expressInterest`, in their order. -/
structure Sound (requests : List π) (f : Fetcher π δ) : Prop where
  window : f.pendingInterests.length ≤ f.windowSize
  ids : ((f.interestQueue ++ f.pendingInterests).map (·.id)).Nodup
  issued : ∀ qi ∈ f.interestQueue ++ f.pendingInterests, qi.id ≤ f.interestIdCounter
  order : ((f.expressed ++ f.interestQueue).map (·.request)).eraseDups = requests
  sent : ∀ qi ∈ f.pendingInterests ++ f.validating.map (·.1) ++ f.scheduled,
    qi.request ∈ f.expressed.map (·.request)

variable {requests : List π} {f f' : Fetcher π δ}

/-- What leaves the queue becomes pending and is expressed, in the same order. -/
theorem Sound.processQueue (h : Sound requests f) :
    Sound requests f.processQueue ∧ f.processQueue.Settled := by
  obtain ⟨sent, rest, hqueue, heq, hwindow⟩ := processQueueLoop_eq f.interestQueue f
  rw [Fetcher.processQueue, heq]
  obtain ⟨hle, hfull⟩ := hwindow h.window
  refine ⟨⟨hle, ?_, ?_, ?_, ?_⟩, hfull⟩
  · -- the identifiers are the same ones, in another order
    have hperm : (rest ++ (f.pendingInterests ++ sent)).Perm (f.interestQueue ++ f.pendingInterests) := by
      rw [hqueue, ← List.append_assoc, List.append_assoc sent]
      exact List.perm_append_comm
    exact ((hperm.map (·.id)).nodup_iff).mpr h.ids
  · intro qi hqi
    apply h.issued qi
    rw [hqueue]
    grind
  · rw [List.append_assoc, ← hqueue]
    exact h.order
  · intro qi hqi
    by_cases hsent : qi ∈ sent
    · exact List.mem_map_of_mem (List.mem_append_right _ hsent)
    · -- it has been sent before
      rw [List.map_append]
      apply List.mem_append_left
      apply h.sent qi
      grind

/-- An Interest under a fresh identifier joins the queue. -/
theorem Sound.push {requests' : List π} (h : Sound requests f) (qi : QueuedInterest π)
    (horder : ((f.expressed ++ f.interestQueue).map (·.request) ++ [qi.request]).eraseDups =
      requests') : Sound requests' (f.enqueue qi) ∧ (f.enqueue qi).Settled := by
  apply Sound.processQueue
  refine ⟨h.window, ?_, ?_, ?_, h.sent⟩
  · rw [List.append_assoc, List.singleton_append,
      (List.perm_middle.map QueuedInterest.id).nodup_iff, List.map_cons, List.nodup_cons]
    refine ⟨?_, h.ids⟩
    -- the identifiers that have been given are smaller
    intro hmem
    obtain ⟨qi', hqi', hid⟩ := List.mem_map.mp hmem
    have hissued := h.issued qi' hqi'
    dsimp only at hid
    omega
  · intro qi' hqi'
    have hissued := h.issued qi'
    grind
  · simpa using horder

/-- An Interest that is taken out has been sent, and leaves the others as they are. -/
theorem Sound.takePending (h : Sound requests f) {id : Nat} {qi : QueuedInterest π}
    (htake : f.takePending id = some (qi, f')) :
    Sound requests f' ∧ qi.request ∈ f'.expressed.map (·.request) := by
  obtain ⟨hfind, rfl⟩ := takePending_eq_some_iff.mp htake
  have hsub : (f.pendingInterests.eraseP (·.id = id)).Sublist f.pendingInterests :=
    List.eraseP_sublist
  refine ⟨⟨hsub.length_le.trans h.window, ?_, ?_, h.order, ?_⟩, ?_⟩
  · exact h.ids.sublist ((hsub.append_left f.interestQueue).map (·.id))
  · intro qi hqi
    exact h.issued qi ((hsub.append_left f.interestQueue).subset hqi)
  · intro qi hqi
    apply h.sent qi
    rw [List.append_assoc] at hqi ⊢
    exact (hsub.append_right _).subset hqi
  · apply h.sent
    rw [List.append_assoc]
    exact List.mem_append_left _ (List.mem_of_find?_eq_some hfind)

theorem Sound.takeValidating (h : Sound requests f) {id : Nat} {qi : QueuedInterest π × δ}
    (htake : f.takeValidating id = some (qi, f')) :
    Sound requests f' ∧ qi.1.request ∈ f'.expressed.map (·.request) ∧ (f.Settled → f'.Settled) := by
  obtain ⟨hfind, rfl⟩ := takeValidating_eq_some_iff.mp htake
  have hsub : (f.validating.eraseP (·.1.id = id)).Sublist f.validating := List.eraseP_sublist
  refine ⟨⟨h.window, h.ids, h.issued, h.order, ?_⟩, ?_, fun hsettled => hsettled⟩
  · intro qi hqi
    apply h.sent qi
    have hmem := (hsub.map (·.1)).subset (a := qi)
    grind
  · apply h.sent
    have hmem := List.mem_map_of_mem (f := (·.1)) (List.mem_of_find?_eq_some hfind)
    grind

theorem Sound.takeScheduled (h : Sound requests f) {id : Nat} {qi : QueuedInterest π}
    (htake : f.takeScheduled id = some (qi, f')) :
    Sound requests f' ∧ qi.request ∈ f'.expressed.map (·.request) := by
  obtain ⟨hfind, rfl⟩ := takeScheduled_eq_some_iff.mp htake
  have hsub : (f.scheduled.eraseP (·.id = id)).Sublist f.scheduled := List.eraseP_sublist
  refine ⟨⟨h.window, h.ids, h.issued, h.order, ?_⟩, ?_⟩
  · intro qi hqi
    apply h.sent qi
    exact (hsub.append_left _).subset hqi
  · exact h.sent _ (List.mem_append_right _ (List.mem_of_find?_eq_some hfind))

/-- Waiting for the validator. -/
theorem Sound.validate (h : Sound requests f) {qi : QueuedInterest π} (data : δ)
    (hsent : qi.request ∈ f.expressed.map (·.request)) :
    Sound requests { f with validating := f.validating ++ [(qi, data)] } := by
  refine ⟨h.window, h.ids, h.issued, h.order, ?_⟩
  intro qi' hqi'
  have hmem := h.sent qi'
  grind

/-- Waiting for a retry. -/
theorem Sound.schedule (h : Sound requests f) {qi : QueuedInterest π}
    (hsent : qi.request ∈ f.expressed.map (·.request)) :
    Sound requests { f with scheduled := f.scheduled ++ [qi] } := by
  refine ⟨h.window, h.ids, h.issued, h.order, ?_⟩
  intro qi' hqi'
  have hmem := h.sent qi'
  grind

/-! ## Handlers -/

variable [LawfulBEq π]

/-- A retry: the request has been sent before. -/
theorem Sound.enqueue (h : Sound requests f) {qi : QueuedInterest π}
    (hsent : qi.request ∈ f.expressed.map (·.request)) :
    Sound requests (f.enqueue qi) ∧ (f.enqueue qi).Settled := by
  apply h.push
  rw [List.eraseDups_concat_of_mem, h.order]
  rw [List.map_append]
  exact List.mem_append_left _ hsent

/-- A call of `expressInterest` with a request that is not one of the earlier ones. -/
theorem Sound.expressInterest (h : Sound requests f) {request : π} (hnew : request ∉ requests)
    (opts : SecurityOptions) (nRetries : Int) :
    Sound (requests ++ [request]) (f.expressInterest opts request nRetries) ∧
      (f.expressInterest opts request nRetries).Settled := by
  apply h.push
  rw [List.eraseDups_concat_of_notMem, h.order]
  rwa [← List.mem_eraseDups, h.order]

/-- Every handler lets the queue move as far as it can. -/
theorem Sound.step (h : Sound requests f) (hsettled : f.Settled) (opts : SecurityOptions)
    (e : FetchEvent δ) : Sound requests (f.step opts e).1 ∧ (f.step opts e).1.Settled := by
  have hmoves := moves_step opts e f
  generalize f.step opts e = r at hmoves ⊢
  cases hmoves with
  | lacks => exact ⟨h, hsettled⟩
  | satisfied htake | nacked htake | timedOut htake => exact (h.takePending htake).1.processQueue
  | @validating id data qi f' htake =>
    obtain ⟨hsound, hsent⟩ := h.takePending htake
    obtain ⟨hqueue, hmoved⟩ := hsound.processQueue
    obtain ⟨sent, rest, -, heq, -⟩ := processQueueLoop_eq f'.interestQueue f'
    -- what has been sent stays sent when the queue moves
    refine ⟨hqueue.validate data ?_, hmoved⟩
    rw [Fetcher.processQueue, heq, List.map_append]
    exact List.mem_append_left _ hsent
  | resent htake =>
    -- a retry is left, of a request that has been sent before
    obtain ⟨hsound, hsent⟩ := h.takePending htake
    exact hsound.enqueue hsent
  | validated htake | invalid htake =>
    obtain ⟨hsound, -, hkept⟩ := h.takeValidating htake
    exact ⟨hsound, hkept hsettled⟩
  | scheduled htake =>
    obtain ⟨hsound, hsent, hkept⟩ := h.takeValidating htake
    exact ⟨hsound.schedule hsent, hkept hsettled⟩
  | retried htake =>
    obtain ⟨hsound, hsent⟩ := h.takeScheduled htake
    exact hsound.enqueue hsent

end Fetcher

/-! ## Histories -/

/-- What is done with a fetcher. -/
inductive FetcherUse (δ : Type)
  /-- A call of `expressInterest`, and whether its `afterValidationFailed` is not null. -/
  | expressInterest (nRetries : Int) (notNull : Bool)
  | event (e : FetchEvent δ)
deriving DecidableEq

/-- A fetcher with its past.  The request of a call is the number of calls before it. -/
structure FetcherHistory (δ : Type) where
  fetcher : Fetcher Nat δ := {}
  /-- Of every call, whether its `afterValidationFailed` is not null. -/
  calls : List Bool := []
  /-- The requests that have ended, and how. -/
  ended : List (Nat × FetchOutcome δ) := []

namespace FetcherHistory

variable {δ : Type}

/-- One thing that is done with a fetcher. -/
def next (opts : SecurityOptions) (u : FetcherUse δ) (h : FetcherHistory δ) : FetcherHistory δ :=
  match u with
  | .expressInterest nRetries notNull =>
    { h with fetcher := h.fetcher.expressInterest opts h.calls.length nRetries
             calls := h.calls ++ [notNull] }
  | .event e =>
    let (fetcher, outcome) := h.fetcher.step opts e
    { h with fetcher := fetcher, ended := h.ended ++ outcome.toList }

/-- The callbacks that have been invoked for a request. -/
def callbacks (h : FetcherHistory δ) (request : Nat) : List FetchCallback :=
  (h.ended.filter (·.1 = request)).filterMap (·.2.callback)

/-- In how many places a request is: queued, pending, being validated or waiting for a retry. -/
def places (h : FetcherHistory δ) (request : Nat) : Nat :=
  h.fetcher.interestQueue.countP (·.request = request) +
    h.fetcher.pendingInterests.countP (·.request = request) +
    h.fetcher.validating.countP (·.1.request = request) +
    h.fetcher.scheduled.countP (·.request = request)

/-- Between the handlers, a request is in one place or has ended. -/
structure Invariant (h : FetcherHistory δ) : Prop where
  sound : h.fetcher.Sound (List.range h.calls.length)
  settled : h.fetcher.Settled
  accounted : h.fetcher.outstanding + (h.ended.map (·.1) : Multiset Nat) =
    Multiset.range h.calls.length

theorem Invariant.init : Invariant ({} : FetcherHistory δ) where
  sound := ⟨Nat.zero_le _, List.nodup_nil, by simp, rfl, by simp⟩
  settled := fun h => absurd rfl h
  accounted := rfl

theorem ended_eq (outcome : Option (Nat × FetchOutcome δ)) :
    Fetcher.ended outcome = (outcome.toList.map (·.1) : Multiset Nat) := by
  cases outcome <;> rfl

theorem Invariant.next {h : FetcherHistory δ} (hI : Invariant h) (opts : SecurityOptions)
    (u : FetcherUse δ) : Invariant (h.next opts u) := by
  cases u with
  | expressInterest nRetries notNull =>
    have hnew : h.calls.length ∉ List.range h.calls.length := by simp
    obtain ⟨hsound, hsettled⟩ := hI.sound.expressInterest hnew opts nRetries
    refine ⟨?_, hsettled, ?_⟩
    · rw [FetcherHistory.next, List.length_append, List.length_singleton, List.range_succ]
      exact hsound
    · rw [FetcherHistory.next, Fetcher.outstanding_expressInterest, add_assoc, hI.accounted,
        List.length_append, List.length_singleton, Multiset.range_succ, Multiset.singleton_add]
  | event e =>
    obtain ⟨hsound, hsettled⟩ := hI.sound.step hI.settled opts e
    refine ⟨hsound, hsettled, ?_⟩
    rw [FetcherHistory.next, ← hI.accounted, Fetcher.outstanding_step opts e h.fetcher]
    -- the request that the event ends moves from the first part to the second
    dsimp only
    rw [List.map_append, ← Multiset.coe_add, ended_eq]
    ac_rfl

theorem Invariant.run (opts : SecurityOptions) (uses : List (FetcherUse δ)) :
    Invariant (Run.state (FetcherHistory.next opts) uses {}) := by
  apply Run.state_invariant Invariant.init
  intro u h hI
  exact hI.next opts u

/-! ## Conservation -/

theorem places_eq_count (h : FetcherHistory δ) (request : Nat) :
    h.places request = h.fetcher.outstanding.count request := by
  simp only [places, Fetcher.outstanding, Multiset.count_add, Multiset.coe_count, List.count,
    List.countP_map]
  rfl

/-- A request has been given to the fetcher, and is in one place or has ended. -/
theorem Invariant.places_add_ended {h : FetcherHistory δ} (hI : Invariant h) {request : Nat}
    (hcall : request < h.calls.length) :
    h.places request + (h.ended.map (·.1)).count request = 1 := by
  rw [places_eq_count, ← Multiset.coe_count, ← Multiset.count_add, hI.accounted,
    ← Multiset.coe_range, Multiset.coe_count]
  exact List.count_eq_one_of_mem List.nodup_range (List.mem_range.mpr hcall)

/-- The window is kept and used, and nothing is lost or reordered. -/
structure Conserved (h : FetcherHistory δ) : Prop where
  window : h.fetcher.pendingInterests.length ≤ h.fetcher.windowSize
  busy : h.fetcher.interestQueue ≠ [] → h.fetcher.pendingInterests.length = h.fetcher.windowSize
  ids : ((h.fetcher.interestQueue ++ h.fetcher.pendingInterests).map (·.id)).Nodup
  place : ∀ request < h.calls.length, request ∉ h.ended.map (·.1) → h.places request = 1
  /-- The first transmissions are those of the first calls, in their order. -/
  order : (h.fetcher.expressed.map (·.request)).eraseDups <+: List.range h.calls.length

/-- Whatever happens, the fetcher keeps its window and its requests. -/
theorem conserved (opts : SecurityOptions) (uses : List (FetcherUse δ)) :
    Conserved (Run.state (next opts) uses {}) := by
  have hI := Invariant.run opts uses
  refine ⟨hI.sound.window, hI.settled, hI.sound.ids, ?_, ?_⟩
  · intro request hcall hended
    have hone := hI.places_add_ended hcall
    rwa [List.count_eq_zero_of_not_mem hended] at hone
  · have hprefix := List.eraseDups_prefix
      ((Run.state (next opts) uses {}).fetcher.expressed.map (·.request))
      ((Run.state (next opts) uses {}).fetcher.interestQueue.map (·.request))
    rwa [← List.map_append, hI.sound.order] at hprefix

/-! ## Answers -/

/-- Of the requests with an `afterValidationFailed`, each that is nowhere any more has been
    answered with one callback. -/
def Answered (h : FetcherHistory δ) : Prop :=
  ∀ request, h.calls[request]? = some true → h.places request = 0 → (h.callbacks request).length = 1

/-- The validator rejects the Data of a request with an `afterValidationFailed`, and no
    retry is left. -/
def GivesUp (u : FetcherUse δ) (h : FetcherHistory δ) : Prop :=
  ∃ id qi, u = .event (.validationFailed id) ∧ h.fetcher.validating.find? (·.1.id = id) = some qi ∧
    qi.1.nRetriesOnValidationFail ≤ 0 ∧ h.calls[qi.1.request]? = some true

/-- A request with an `afterValidationFailed` has ended without a callback. -/
def Unanswered (h : FetcherHistory δ) : Prop :=
  ∃ request, h.calls[request]? = some true ∧ (request, .invalid) ∈ h.ended

theorem Invariant.lt_of_ended {h : FetcherHistory δ} (hI : Invariant h) {r : Nat × FetchOutcome δ}
    (hr : r ∈ h.ended) : r.1 < h.calls.length := by
  rw [← Multiset.mem_range, ← hI.accounted, Multiset.mem_add, Multiset.mem_coe]
  exact .inr (List.mem_map_of_mem hr)

/-- A request goes unanswered in the step that gives it up, and in no other. -/
theorem Invariant.unanswered_next_iff {h : FetcherHistory δ} (hI : Invariant h)
    (opts : SecurityOptions) (u : FetcherUse δ) :
    (h.next opts u).Unanswered ↔ h.Unanswered ∨ GivesUp u h := by
  cases u with
  | expressInterest nRetries notNull =>
    -- a request that has ended is not that of the new call
    have hgives : ¬GivesUp (δ := δ) (.expressInterest nRetries notNull) h := by simp [GivesUp]
    rw [or_iff_left hgives]
    apply exists_congr
    intro request
    apply and_congr_left
    intro hended
    rw [FetcherHistory.next, List.getElem?_append_left (hI.lt_of_ended hended)]
  | event e =>
    constructor
    · rintro ⟨request, hcall, hended⟩
      rcases List.mem_append.mp hended with hbefore | hnow
      · exact .inl ⟨request, hcall, hbefore⟩
      · have hends := (Fetcher.step_eq_some_iff opts e h.fetcher request .invalid).mp
          (Option.mem_toList.mp hnow)
        cases hends with
        | validationFailed hfind hretries => exact .inr ⟨_, _, rfl, hfind, hretries, hcall⟩
    · rintro (⟨request, hcall, hended⟩ | ⟨id, qi, heq, hfind, hretries, hcall⟩)
      · exact ⟨request, hcall, List.mem_append_left _ hended⟩
      · obtain rfl := FetcherUse.event.inj heq
        have hends := (Fetcher.step_eq_some_iff opts _ h.fetcher _ _).mpr
          (.validationFailed hfind hretries)
        exact ⟨qi.1.request, hcall, List.mem_append_right _ (Option.mem_toList.mpr hends)⟩

/-- The one end of a request that is nowhere any more. -/
theorem Invariant.ended_of_places {h : FetcherHistory δ} (hI : Invariant h) {request : Nat}
    (hcall : request < h.calls.length) (hplaces : h.places request = 0) :
    ∃ outcome, h.ended.filter (·.1 = request) = [(request, outcome)] := by
  have hone := hI.places_add_ended hcall
  rw [hplaces, Nat.zero_add, List.count, List.countP_map, List.countP_eq_length_filter] at hone
  obtain ⟨⟨n, outcome⟩, heq⟩ := List.length_eq_one_iff.mp hone
  have hmem : (n, outcome) ∈ h.ended.filter ((· == request) ∘ (·.1)) := by simp [heq]
  obtain rfl : n = request := by simpa using List.of_mem_filter hmem
  exact ⟨outcome, by rw [← heq]; rfl⟩

theorem Invariant.answered_iff_not_unanswered {h : FetcherHistory δ} (hI : Invariant h) :
    h.Answered ↔ ¬h.Unanswered := by
  constructor
  · rintro hanswered ⟨request, hcall, hended⟩
    have hlt := hI.lt_of_ended hended
    have hplaces : h.places request = 0 := by
      have hone := hI.places_add_ended hlt
      have hpos := List.count_pos_iff.mpr (List.mem_map_of_mem (f := (·.1)) hended)
      dsimp only at hone hpos
      omega
    obtain ⟨outcome, heq⟩ := hI.ended_of_places hlt hplaces
    have hmem : (request, FetchOutcome.invalid) ∈ h.ended.filter (·.1 = request) :=
      List.mem_filter.mpr ⟨hended, by simp⟩
    rw [heq, List.mem_singleton] at hmem
    obtain ⟨-, rfl⟩ := Prod.mk.inj hmem
    have hlength := hanswered request hcall hplaces
    simp [callbacks, heq, FetchOutcome.callback] at hlength
  · intro hun request hcall hplaces
    obtain ⟨hlt, -⟩ := List.getElem?_eq_some_iff.mp hcall
    obtain ⟨outcome, heq⟩ := hI.ended_of_places hlt hplaces
    have hmem : (request, outcome) ∈ h.ended.filter (·.1 = request) := by simp [heq]
    rw [callbacks, heq]
    cases outcome with
    | satisfied | nacked | timedOut => rfl
    | invalid => exact absurd ⟨request, hcall, (List.mem_filter.mp hmem).1⟩ hun

/-- The requests of a run have been answered with one callback each, just when the
    validator never rejected Data with no retry left. -/
theorem answered_run_iff (opts : SecurityOptions) (uses : List (FetcherUse δ)) :
    (Run.state (next opts) uses {}).Answered ↔
      Run.Always (next opts) (fun u h => ¬GivesUp u h) uses {} := by
  have hfault : ¬Unanswered (Run.state (next opts) uses {}) ↔
      ¬Unanswered {} ∧ Run.Always (next opts) (fun u h => ¬GivesUp u h) uses {} :=
    Run.not_fault_iff Invariant.init (fun u h hI => hI.next opts u)
      (fun u h hI => hI.unanswered_next_iff opts u)
  have hinit : ¬Unanswered ({} : FetcherHistory δ) := by
    rintro ⟨request, -, hended⟩
    cases hended
  rw [(Invariant.run opts uses).answered_iff_not_unanswered, hfault, and_iff_right hinit]

/-- With a validator and no retries, Data that is rejected is reported to nobody. -/
theorem not_answered : ¬(Run.state (next { hasValidator := true })
    [.expressInterest 0 true, .event (.data 1 ()), .event (.validationFailed 1)] {}).Answered := by
  intro hanswered
  exact absurd (hanswered 0 rfl rfl) (by decide)

end FetcherHistory

end Svs
