import Svs.Spec.FetcherRuns

/-!
# How often an Interest is sent

Both kinds of retries are counted in the request that is sent again.  What a request has
been sent, and what it may still be sent, never grows.

## Key results

- `Within.step`: no event takes more than the retries that are left
- `expressed_le`: how often the Interest of a request is given to the face
-/

namespace Svs

namespace Fetcher

variable {π δ : Type} {f f' : Fetcher π δ}

/-- The Interests that the fetcher has: queued, pending, being validated, waiting for a
    retry. -/
def interests (f : Fetcher π δ) : Multiset (QueuedInterest π) :=
  (f.interestQueue : Multiset _) + (f.pendingInterests : Multiset _) +
    (f.validating.map (·.1) : Multiset _) + (f.scheduled : Multiset _)

/-- The Interests that the face has been given, or is given as soon as the window allows. -/
def handed (f : Fetcher π δ) : Multiset (QueuedInterest π) :=
  (f.expressed : Multiset _) + (f.interestQueue : Multiset _)

theorem interests_processQueueLoop (queue : List (QueuedInterest π)) (f : Fetcher π δ) :
    (processQueueLoop queue f).interests = ({ f with interestQueue := queue }).interests ∧
      (processQueueLoop queue f).handed = ({ f with interestQueue := queue }).handed ∧
      (processQueueLoop queue f).scheduled = f.scheduled := by
  obtain ⟨sent, rest, rfl, heq, -⟩ := processQueueLoop_eq queue f
  rw [heq]
  simp only [interests, handed, ← Multiset.coe_add, and_true]
  constructor <;> ac_rfl

/-- An Interest that joins the queue. -/
theorem interests_enqueue (qi : QueuedInterest π) (f : Fetcher π δ) :
    ∃ id, (f.enqueue qi).interests = {{ qi with id := id }} + f.interests ∧
      (f.enqueue qi).handed = {{ qi with id := id }} + f.handed ∧
      (f.enqueue qi).scheduled = f.scheduled := by
  obtain ⟨hinterests, hhanded, hscheduled⟩ := interests_processQueueLoop
    (f.interestQueue ++ [{ qi with id := f.interestIdCounter + 1 }])
    { f with interestIdCounter := f.interestIdCounter + 1
             interestQueue := f.interestQueue ++ [{ qi with id := f.interestIdCounter + 1 }] }
  refine ⟨f.interestIdCounter + 1, hinterests.trans ?_, hhanded.trans ?_, hscheduled⟩
  · simp only [interests, ← Multiset.coe_add, Multiset.coe_singleton]
    ac_rfl
  · simp only [handed, ← Multiset.coe_add, Multiset.coe_singleton]
    ac_rfl

theorem interests_validate (qi : QueuedInterest π) (data : δ) (f : Fetcher π δ) :
    interests { f with validating := f.validating ++ [(qi, data)] } = {qi} + f.interests := by
  simp only [interests, List.map_append, List.map_cons, List.map_nil, ← Multiset.coe_add,
    Multiset.coe_singleton]
  ac_rfl

theorem interests_schedule (qi : QueuedInterest π) (f : Fetcher π δ) :
    interests { f with scheduled := f.scheduled ++ [qi] } = {qi} + f.interests := by
  simp only [interests, ← Multiset.coe_add, Multiset.coe_singleton]
  ac_rfl

/-- The Interest that an event is about is taken out of its place. -/
structure Takes (qi : QueuedInterest π) (f f' : Fetcher π δ) : Prop where
  interests : f.interests = {qi} + f'.interests
  handed : f'.handed = f.handed
  scheduled : f'.scheduled.Sublist f.scheduled

theorem takes_takePending {id : Nat} {qi : QueuedInterest π} (h : f.takePending id = some (qi, f')) :
    Takes qi f f' := by
  obtain ⟨hfind, rfl⟩ := takePending_eq_some_iff.mp h
  refine ⟨?_, rfl, .refl _⟩
  have hperm := Multiset.coe_eq_coe.mpr (List.perm_cons_eraseP hfind)
  simp only [interests, hperm, ← Multiset.cons_coe, ← Multiset.singleton_add]
  ac_rfl

theorem takes_takeValidating {id : Nat} {qi : QueuedInterest π × δ}
    (h : f.takeValidating id = some (qi, f')) : Takes qi.1 f f' := by
  obtain ⟨hfind, rfl⟩ := takeValidating_eq_some_iff.mp h
  refine ⟨?_, rfl, .refl _⟩
  have hperm := Multiset.coe_eq_coe.mpr ((List.perm_cons_eraseP hfind).map (·.1))
  simp only [interests, hperm, List.map_cons, ← Multiset.cons_coe, ← Multiset.singleton_add]
  ac_rfl

theorem takes_takeScheduled {id : Nat} {qi : QueuedInterest π}
    (h : f.takeScheduled id = some (qi, f')) : Takes qi f f' := by
  obtain ⟨hfind, rfl⟩ := takeScheduled_eq_some_iff.mp h
  refine ⟨?_, rfl, List.eraseP_sublist⟩
  have hperm := Multiset.coe_eq_coe.mpr (List.perm_cons_eraseP hfind)
  simp only [interests, hperm, ← Multiset.cons_coe, ← Multiset.singleton_add]
  ac_rfl

/-! ## The retries that are left -/

variable [DecidableEq π] {request : π} {bound : Nat}

/-- The retries that an Interest has left, of both kinds. -/
def retriesLeft (request : π) (qi : QueuedInterest π) : Nat :=
  if qi.request = request then qi.nRetries.toNat + qi.nRetriesOnValidationFail.toNat else 0

/-- How often the request has been sent, or is about to be, and may be sent again. -/
def spent (request : π) (f : Fetcher π δ) : Nat :=
  f.handed.countP (·.request = request) + (f.interests.map (retriesLeft request)).sum

/-- The request stays within the bound.  No retry is scheduled where none is left. -/
structure Within (request : π) (bound : Nat) (f : Fetcher π δ) : Prop where
  nonneg : ∀ qi ∈ f.interests, qi.request = request → 0 ≤ qi.nRetries
  scheduled : ∀ qi ∈ f.scheduled, 0 < qi.nRetriesOnValidationFail
  spent : f.spent request ≤ bound

theorem spent_enqueue (qi : QueuedInterest π) (f : Fetcher π δ) :
    (f.enqueue qi).spent request =
      (if qi.request = request then 1 else 0) + retriesLeft request qi + f.spent request := by
  obtain ⟨id, hinterests, hhanded, -⟩ := interests_enqueue qi f
  rw [spent, spent, hinterests, hhanded, Multiset.countP_add, Multiset.map_add, Multiset.sum_add,
    Multiset.map_singleton, Multiset.sum_singleton, ← Multiset.cons_zero, Multiset.countP_cons,
    Multiset.countP_zero]
  simp only [retriesLeft]
  omega

theorem Takes.spent_eq {qi : QueuedInterest π} (h : Takes qi f f') :
    f.spent request = retriesLeft request qi + f'.spent request := by
  rw [spent, spent, h.interests, h.handed, Multiset.map_add, Multiset.sum_add, Multiset.map_singleton,
    Multiset.sum_singleton]
  omega

/-- An Interest that joins the queue with retries that are paid for. -/
theorem Within.enqueue {qi : QueuedInterest π} (h : Within request bound f)
    (hnonneg : qi.request = request → 0 ≤ qi.nRetries)
    (hpaid : (if qi.request = request then 1 else 0) + retriesLeft request qi + f.spent request ≤ bound) :
    Within request bound (f.enqueue qi) := by
  obtain ⟨id, hinterests, -, hscheduled⟩ := interests_enqueue qi f
  refine ⟨?_, by rw [hscheduled]; exact h.scheduled, by rwa [spent_enqueue]⟩
  intro qi' hqi'
  rw [hinterests, Multiset.mem_add, Multiset.mem_singleton] at hqi'
  rcases hqi' with rfl | hqi'
  · exact hnonneg
  · exact h.nonneg qi' hqi'

/-- What is left when an Interest has been taken out. -/
theorem Within.take {qi : QueuedInterest π} (h : Within request bound f) (htakes : Takes qi f f') :
    Within request bound f' ∧ (qi.request = request → 0 ≤ qi.nRetries) ∧
      retriesLeft request qi + f'.spent request ≤ bound := by
  have hspent := h.spent
  rw [htakes.spent_eq] at hspent
  have hmem : ∀ qi' ∈ {qi} + f'.interests, qi' ∈ f.interests := fun qi' hqi' => by
    rwa [htakes.interests]
  refine ⟨⟨?_, fun qi' hqi' => h.scheduled qi' (htakes.scheduled.subset hqi'), by omega⟩, ?_, hspent⟩
  · exact fun qi' hqi' => h.nonneg qi' (hmem qi' (Multiset.mem_add.mpr (.inr hqi')))
  · exact h.nonneg qi (hmem qi (Multiset.mem_add.mpr (.inl (Multiset.mem_singleton_self qi))))

theorem spent_processQueue (f : Fetcher π δ) : f.processQueue.spent request = f.spent request := by
  obtain ⟨hinterests, hhanded, -⟩ := interests_processQueueLoop f.interestQueue f
  rw [Fetcher.spent, Fetcher.processQueue, hinterests, hhanded]
  rfl

theorem Within.processQueue (h : Within request bound f) : Within request bound f.processQueue := by
  obtain ⟨hinterests, -, hscheduled⟩ := interests_processQueueLoop f.interestQueue f
  refine ⟨?_, ?_, (spent_processQueue f).trans_le h.spent⟩
  · rw [Fetcher.processQueue, hinterests]
    exact h.nonneg
  · rw [Fetcher.processQueue, hscheduled]
    exact h.scheduled

/-- An Interest that has been taken out waits in another place. -/
theorem Within.put (h : Within request bound f) (qi : QueuedInterest π)
    (hinterests : f'.interests = {qi} + f.interests) (hhanded : f'.handed = f.handed)
    (hscheduled : ∀ qi ∈ f'.scheduled, 0 < qi.nRetriesOnValidationFail)
    (hnonneg : qi.request = request → 0 ≤ qi.nRetries)
    (hpaid : retriesLeft request qi + f.spent request ≤ bound) : Within request bound f' := by
  refine ⟨?_, hscheduled, ?_⟩
  · intro qi' hqi'
    rw [hinterests, Multiset.mem_add, Multiset.mem_singleton] at hqi'
    rcases hqi' with rfl | hqi'
    · exact hnonneg
    · exact h.nonneg qi' hqi'
  · rw [Fetcher.spent, hinterests, hhanded, Multiset.map_add, Multiset.sum_add, Multiset.map_singleton,
      Multiset.sum_singleton]
    rw [Fetcher.spent] at hpaid
    omega

/-! ## Events -/

/-- A timeout is paid with one of the retries. -/
theorem Within.resend {qi : QueuedInterest π} (h : Within request bound f) (hretries : qi.nRetries ≠ 0)
    (hnonneg : qi.request = request → 0 ≤ qi.nRetries)
    (hpaid : retriesLeft request qi + f.spent request ≤ bound) :
    Within request bound (f.enqueue { qi with nRetries := qi.nRetries - 1 }) := by
  apply h.enqueue
  · intro hrequest
    have hpos := hnonneg hrequest
    dsimp only at hrequest ⊢
    omega
  · rw [retriesLeft] at hpaid ⊢
    split at hpaid
    · next hrequest =>
      have hpos := hnonneg hrequest
      rw [if_pos hrequest, if_pos hrequest]
      dsimp only
      omega
    · next hrequest =>
      rw [if_neg hrequest, if_neg hrequest]
      omega

/-- A failed validation is paid when its retry fires. -/
theorem Within.schedule {qi : QueuedInterest π} (h : Within request bound f)
    (hretries : 0 < qi.nRetriesOnValidationFail) (hnonneg : qi.request = request → 0 ≤ qi.nRetries)
    (hpaid : retriesLeft request qi + f.spent request ≤ bound) :
    Within request bound { f with scheduled := f.scheduled ++ [qi] } := by
  refine h.put qi (interests_schedule qi f) rfl ?_ hnonneg hpaid
  intro qi' hqi'
  rcases List.mem_append.mp hqi' with hold | hnew
  · exact h.scheduled qi' hold
  · obtain rfl := List.mem_singleton.mp hnew
    exact hretries

theorem Within.retry {qi : QueuedInterest π} (h : Within request bound f)
    (hretries : 0 < qi.nRetriesOnValidationFail) (hnonneg : qi.request = request → 0 ≤ qi.nRetries)
    (hpaid : retriesLeft request qi + f.spent request ≤ bound) :
    Within request bound
      (f.enqueue { qi with nRetriesOnValidationFail := qi.nRetriesOnValidationFail - 1 }) := by
  refine h.enqueue hnonneg ?_
  rw [retriesLeft] at hpaid ⊢
  split at hpaid
  · next hrequest =>
    rw [if_pos hrequest, if_pos hrequest]
    dsimp only
    omega
  · next hrequest =>
    rw [if_neg hrequest, if_neg hrequest]
    omega

/-- Whatever happens to the Interests, the request stays within the bound. -/
theorem Within.step (h : Within request bound f) (opts : SecurityOptions) (e : FetchEvent δ) :
    Within request bound (f.step opts e).1 := by
  have hmoves := moves_step opts e f
  generalize f.step opts e = r at hmoves ⊢
  cases hmoves with
  | lacks => exact h
  | satisfied htake | nacked htake | timedOut htake => exact (h.take (takes_takePending htake)).1.processQueue
  | validating htake =>
    obtain ⟨hwithin, hnonneg, hpaid⟩ := h.take (takes_takePending htake)
    rw [← spent_processQueue] at hpaid
    exact hwithin.processQueue.put _ (interests_validate _ _ _) rfl hwithin.processQueue.scheduled
      hnonneg hpaid
  | resent htake hretries =>
    obtain ⟨hwithin, hnonneg, hpaid⟩ := h.take (takes_takePending htake)
    exact hwithin.resend hretries hnonneg hpaid
  | validated htake | invalid htake => exact (h.take (takes_takeValidating htake)).1
  | scheduled htake hretries =>
    obtain ⟨hwithin, hnonneg, hpaid⟩ := h.take (takes_takeValidating htake)
    exact hwithin.schedule hretries hnonneg hpaid
  | retried htake =>
    obtain ⟨hwithin, hnonneg, hpaid⟩ := h.take (takes_takeScheduled htake)
    have hmem := List.mem_of_find?_eq_some (takeScheduled_eq_some_iff.mp htake).1
    exact hwithin.retry (h.scheduled _ hmem) hnonneg hpaid

/-- A call adds to the bound of its own request. -/
theorem Within.expressInterest (h : Within request bound f) (opts : SecurityOptions) (request' : π)
    (nRetries : Int) (hnonneg : request' = request → 0 ≤ nRetries) :
    Within request
      ((if request' = request then 1 + nRetries.toNat + opts.nRetriesOnValidationFail.toNat else 0) + bound)
      (f.expressInterest opts request' nRetries) := by
  apply Within.enqueue ⟨h.nonneg, h.scheduled, h.spent.trans (Nat.le_add_left _ _)⟩ hnonneg
  have hspent := h.spent
  rw [retriesLeft]
  split
  · dsimp only
    omega
  · omega

end Fetcher

namespace FetcherHistory

open Fetcher

variable {δ : Type}

/-- The numbers of retries that the calls ask for. -/
def retries (uses : List (FetcherUse δ)) : List Int :=
  uses.filterMap fun
    | .expressInterest nRetries _ => some nRetries
    | .event _ => none

/-- The calls of other requests do not count. -/
theorem within_next (opts : SecurityOptions) {h : FetcherHistory δ} {request bound : Nat}
    (hwithin : Within request bound h.fetcher) {u : FetcherUse δ}
    (hother : (∃ nRetries notNull, u = .expressInterest nRetries notNull) → h.calls.length ≠ request) :
    Within request bound (h.next opts u).fetcher := by
  cases u with
  | expressInterest nRetries notNull =>
    have hne := hother ⟨nRetries, notNull, rfl⟩
    have hcall := hwithin.expressInterest opts h.calls.length nRetries
      fun heq => absurd heq hne
    rwa [if_neg hne, Nat.zero_add] at hcall
  | event e => exact hwithin.step opts e

/-- Once the call has been made, its bound stays. -/
theorem within_state (opts : SecurityOptions) {h : FetcherHistory δ} {request bound : Nat}
    (hwithin : Within request bound h.fetcher) (hcalled : request < h.calls.length)
    (uses : List (FetcherUse δ)) :
    Within request bound (Run.state (next opts) uses h).fetcher := by
  induction uses generalizing h with
  | nil => exact hwithin
  | cons u uses ih =>
    apply ih (within_next opts hwithin fun _ => Nat.ne_of_gt hcalled)
    cases u with
    | expressInterest nRetries notNull =>
      rw [next, List.length_append]
      exact Nat.lt_add_right _ hcalled
    | event e => exact hcalled

/-- Before the call the request is not there; with it, it gets the bound. -/
theorem within_call (opts : SecurityOptions) {h : FetcherHistory δ} {request : Nat} {nRetries : Int}
    (hwithin : Within request 0 h.fetcher) {uses : List (FetcherUse δ)} {before : Nat}
    (hrequest : h.calls.length + before = request)
    (hcall : (retries uses)[before]? = some nRetries) (hnonneg : 0 ≤ nRetries) :
    Within request (1 + nRetries.toNat + opts.nRetriesOnValidationFail.toNat)
      (Run.state (next opts) uses h).fetcher := by
  induction uses generalizing h before with
  | nil => simp [retries] at hcall
  | cons u uses ih =>
    cases u with
    | expressInterest nRetries' notNull =>
      have hlength : (h.next opts (.expressInterest nRetries' notNull)).calls.length =
          h.calls.length + 1 := by
        rw [next, List.length_append, List.length_singleton]
      cases before with
      | zero =>
        -- this is the call
        obtain rfl : nRetries' = nRetries := Option.some.inj hcall
        have hfirst := hwithin.expressInterest opts h.calls.length nRetries'
          fun _ => hnonneg
        rw [if_pos (by omega), Nat.add_zero] at hfirst
        exact within_state opts (h := h.next opts (.expressInterest nRetries' notNull)) hfirst
          (by omega) uses
      | succ before =>
        refine ih (within_next opts hwithin fun _ => by omega) ?_ hcall
        rw [hlength]
        omega
    | event e => exact ih (hwithin.step opts e) hrequest hcall

/-- In every run the Interest of a request is given to the face at most once, and once more
    for each retry. -/
theorem expressed_le (opts : SecurityOptions) (uses : List (FetcherUse δ)) (request : Nat)
    (nRetries : Int) (hcall : (retries uses)[request]? = some nRetries) (hnonneg : 0 ≤ nRetries) :
    ((Run.state (next opts) uses {}).fetcher.expressed.countP (·.request = request) : Int) ≤
      1 + nRetries + max 0 opts.nRetriesOnValidationFail := by
  have hinit : Within request 0 ({} : FetcherHistory δ).fetcher :=
    ⟨fun qi hqi => absurd hqi (Multiset.notMem_zero qi), fun qi hqi => absurd hqi List.not_mem_nil,
      Nat.le_refl 0⟩
  have hspent := (within_call opts hinit (Nat.zero_add request) hcall hnonneg).spent
  rw [spent, handed, Multiset.countP_add, Multiset.coe_countP] at hspent
  omega

/-- A validator rejects the Data of a second request once; it has one retry of each kind. -/
theorem expressed_le_rejected :
    ((Run.state (next { hasValidator := true, nRetriesOnValidationFail := 1 })
      [.expressInterest 0 true, .expressInterest 1 true, .event (.data 2 ()),
        .event (.validationFailed 2), .event (.retry 2), .event (.timeout 3)]
      {}).fetcher.expressed.countP (·.request = 1) : Int) ≤ 1 + 1 + max 0 1 :=
  expressed_le { hasValidator := true, nRetriesOnValidationFail := 1 } _ 1 1 (by decide) (by decide)

end FetcherHistory

end Svs
