import Svs.ForStd.List
import Svs.Native.Fetcher

/-!
# Requests of a fetcher

A request waits in the queue, for the face, for the validator or for a retry, and in one
of them at a time.

## Key results

- `outstanding_expressInterest`: a request that is made
- `moves_step`: the cases of an event
- `outstanding_step`: what an event does to the requests
- `step_eq_some_iff`: the events that end a request
-/

namespace Svs

namespace Fetcher

variable {π δ : Type}

/-- The requests that have not ended. -/
def outstanding (f : Fetcher π δ) : Multiset π :=
  (f.interestQueue.map (·.request) : Multiset π) + (f.pendingInterests.map (·.request) : Multiset π) +
    (f.validating.map (·.1.request) : Multiset π) + (f.scheduled.map (·.request) : Multiset π)

/-- The request that an event ends. -/
def ended : Option (π × FetchOutcome δ) → Multiset π
  | some (request, _) => {request}
  | none => 0

@[simp] theorem ended_none : ended (none : Option (π × FetchOutcome δ)) = 0 := rfl

@[simp] theorem ended_some (request : π) (outcome : FetchOutcome δ) :
    ended (some (request, outcome)) = {request} := rfl

@[simp] theorem outstanding_empty : ({} : Fetcher π δ).outstanding = 0 := rfl

theorem outstanding_processQueueLoop (queue : List (QueuedInterest π)) (f : Fetcher π δ) :
    (processQueueLoop queue f).outstanding = ({ f with interestQueue := queue }).outstanding := by
  induction queue generalizing f with
  | nil => rfl
  | cons i queue ih =>
    rw [processQueueLoop]
    split
    · -- the head of the queue becomes pending
      rw [ih]
      simp only [outstanding, List.map_append, List.map_cons, List.map_nil, ← Multiset.coe_add,
        ← Multiset.cons_coe, ← Multiset.singleton_add, Multiset.coe_nil, add_zero]
      ac_rfl
    · rfl

@[simp] theorem outstanding_processQueue (f : Fetcher π δ) :
    f.processQueue.outstanding = f.outstanding :=
  outstanding_processQueueLoop f.interestQueue f

@[simp] theorem outstanding_enqueue (qi : QueuedInterest π) (f : Fetcher π δ) :
    (f.enqueue qi).outstanding = {qi.request} + f.outstanding := by
  rw [enqueue, outstanding_processQueue]
  simp only [outstanding, List.map_append, List.map_cons, List.map_nil, ← Multiset.coe_add,
    Multiset.coe_singleton]
  ac_rfl

/-- A request that is made is outstanding. -/
@[simp] theorem outstanding_expressInterest (opts : SecurityOptions) (request : π) (nRetries : Int)
    (f : Fetcher π δ) :
    (f.expressInterest opts request nRetries).outstanding = {request} + f.outstanding :=
  outstanding_enqueue _ f

/-! ## Taking an Interest out -/

variable {opts : SecurityOptions} {f f' : Fetcher π δ} {e : FetchEvent δ} {id : Nat}

theorem takePending_eq_some_iff {qi : QueuedInterest π} :
    f.takePending id = some (qi, f') ↔ f.pendingInterests.find? (·.id = id) = some qi ∧
      f' = { f with pendingInterests := f.pendingInterests.eraseP (·.id = id) } := by
  rw [takePending, Option.map_eq_some_iff]
  constructor
  · rintro ⟨qi', hfind, heq⟩
    obtain ⟨rfl, rfl⟩ := Prod.mk.inj heq
    exact ⟨hfind, rfl⟩
  · rintro ⟨hfind, rfl⟩
    exact ⟨qi, hfind, rfl⟩

theorem takeValidating_eq_some_iff {x : QueuedInterest π × δ} :
    f.takeValidating id = some (x, f') ↔ f.validating.find? (·.1.id = id) = some x ∧
      f' = { f with validating := f.validating.eraseP (·.1.id = id) } := by
  rw [takeValidating, Option.map_eq_some_iff]
  constructor
  · rintro ⟨x', hfind, heq⟩
    obtain ⟨rfl, rfl⟩ := Prod.mk.inj heq
    exact ⟨hfind, rfl⟩
  · rintro ⟨hfind, rfl⟩
    exact ⟨x, hfind, rfl⟩

theorem takeScheduled_eq_some_iff {qi : QueuedInterest π} :
    f.takeScheduled id = some (qi, f') ↔ f.scheduled.find? (·.id = id) = some qi ∧
      f' = { f with scheduled := f.scheduled.eraseP (·.id = id) } := by
  rw [takeScheduled, Option.map_eq_some_iff]
  constructor
  · rintro ⟨qi', hfind, heq⟩
    obtain ⟨rfl, rfl⟩ := Prod.mk.inj heq
    exact ⟨hfind, rfl⟩
  · rintro ⟨hfind, rfl⟩
    exact ⟨qi, hfind, rfl⟩

theorem outstanding_takePending {qi : QueuedInterest π} (h : f.takePending id = some (qi, f')) :
    f.outstanding = {qi.request} + f'.outstanding := by
  obtain ⟨hfind, rfl⟩ := takePending_eq_some_iff.mp h
  simp only [outstanding, List.coe_map_of_find? _ hfind]
  ac_rfl

theorem outstanding_takeValidating {x : QueuedInterest π × δ} (h : f.takeValidating id = some (x, f')) :
    f.outstanding = {x.1.request} + f'.outstanding := by
  obtain ⟨hfind, rfl⟩ := takeValidating_eq_some_iff.mp h
  simp only [outstanding, List.coe_map_of_find? _ hfind]
  ac_rfl

theorem outstanding_takeScheduled {qi : QueuedInterest π} (h : f.takeScheduled id = some (qi, f')) :
    f.outstanding = {qi.request} + f'.outstanding := by
  obtain ⟨hfind, rfl⟩ := takeScheduled_eq_some_iff.mp h
  simp only [outstanding, List.coe_map_of_find? _ hfind]
  ac_rfl

/-! ## Events -/

/-- The fetcher does not have the Interest that the event is about. -/
def Lacks (f : Fetcher π δ) : FetchEvent δ → Prop
  | .data id _ | .nack id | .timeout id => f.takePending id = none
  | .validated id | .validationFailed id => f.takeValidating id = none
  | .retry id => f.takeScheduled id = none

/-- What an event does to a fetcher, and the request that it ends. -/
inductive Moves (opts : SecurityOptions) (f : Fetcher π δ) :
    FetchEvent δ → Fetcher π δ × Option (π × FetchOutcome δ) → Prop
  | lacks {e : FetchEvent δ} (h : f.Lacks e) : Moves opts f e (f, none)
  | satisfied {id : Nat} {data : δ} {qi : QueuedInterest π} {f' : Fetcher π δ}
      (htake : f.takePending id = some (qi, f')) (hvalidator : opts.hasValidator = false) :
      Moves opts f (.data id data) (f'.processQueue, some (qi.request, .satisfied data))
  | validating {id : Nat} {data : δ} {qi : QueuedInterest π} {f' : Fetcher π δ}
      (htake : f.takePending id = some (qi, f')) (hvalidator : opts.hasValidator = true) :
      Moves opts f (.data id data)
        ({ f'.processQueue with validating := f'.processQueue.validating ++ [(qi, data)] }, none)
  | nacked {id : Nat} {qi : QueuedInterest π} {f' : Fetcher π δ}
      (htake : f.takePending id = some (qi, f')) :
      Moves opts f (.nack id) (f'.processQueue, some (qi.request, .nacked))
  | timedOut {id : Nat} {qi : QueuedInterest π} {f' : Fetcher π δ}
      (htake : f.takePending id = some (qi, f')) (hretries : qi.nRetries = 0) :
      Moves opts f (.timeout id) (f'.processQueue, some (qi.request, .timedOut))
  | resent {id : Nat} {qi : QueuedInterest π} {f' : Fetcher π δ}
      (htake : f.takePending id = some (qi, f')) (hretries : qi.nRetries ≠ 0) :
      Moves opts f (.timeout id) (f'.enqueue { qi with nRetries := qi.nRetries - 1 }, none)
  | validated {id : Nat} {x : QueuedInterest π × δ} {f' : Fetcher π δ}
      (htake : f.takeValidating id = some (x, f')) :
      Moves opts f (.validated id) (f', some (x.1.request, .satisfied x.2))
  | scheduled {id : Nat} {x : QueuedInterest π × δ} {f' : Fetcher π δ}
      (htake : f.takeValidating id = some (x, f')) (hretries : 0 < x.1.nRetriesOnValidationFail) :
      Moves opts f (.validationFailed id) ({ f' with scheduled := f'.scheduled ++ [x.1] }, none)
  | invalid {id : Nat} {x : QueuedInterest π × δ} {f' : Fetcher π δ}
      (htake : f.takeValidating id = some (x, f')) (hretries : x.1.nRetriesOnValidationFail ≤ 0) :
      Moves opts f (.validationFailed id) (f', some (x.1.request, .invalid))
  | retried {id : Nat} {qi : QueuedInterest π} {f' : Fetcher π δ}
      (htake : f.takeScheduled id = some (qi, f')) :
      Moves opts f (.retry id)
        (f'.enqueue { qi with nRetriesOnValidationFail := qi.nRetriesOnValidationFail - 1 }, none)

/-- The cases of `step`, for all that is said about it. -/
theorem moves_step (opts : SecurityOptions) (e : FetchEvent δ) (f : Fetcher π δ) :
    Moves opts f e (f.step opts e) := by
  cases e with
  | data id data =>
    rw [step]
    cases htake : f.takePending id with
    | none => exact .lacks htake
    | some r =>
      dsimp only
      rw [onData]
      split
      · next hvalidator => exact .validating htake hvalidator
      · next hvalidator => exact .satisfied htake (Bool.eq_false_iff.mpr hvalidator)
  | nack id =>
    rw [step]
    cases htake : f.takePending id with
    | none => exact .lacks htake
    | some r => exact .nacked htake
  | timeout id =>
    rw [step]
    cases htake : f.takePending id with
    | none => exact .lacks htake
    | some r =>
      dsimp only
      rw [onTimeout]
      split
      · next hretries => exact .timedOut htake hretries
      · -- also with a negative number of retries
        next hretries => exact .resent htake hretries
  | validated id =>
    rw [step]
    cases htake : f.takeValidating id with
    | none => exact .lacks htake
    | some r => exact .validated htake
  | validationFailed id =>
    rw [step]
    cases htake : f.takeValidating id with
    | none => exact .lacks htake
    | some r =>
      dsimp only
      rw [onValidationFailed]
      split
      · next hretries => exact .scheduled htake hretries
      · next hretries => exact .invalid htake (Int.not_lt.mp hretries)
  | retry id =>
    rw [step]
    cases htake : f.takeScheduled id with
    | none => exact .lacks htake
    | some r => exact .retried htake

/-- An event ends at most one request, and keeps the others. -/
theorem outstanding_step (opts : SecurityOptions) (e : FetchEvent δ) (f : Fetcher π δ) :
    f.outstanding = ended (f.step opts e).2 + (f.step opts e).1.outstanding := by
  have hmoves := moves_step opts e f
  generalize f.step opts e = r at hmoves ⊢
  cases hmoves with
  | lacks => simp
  | satisfied htake | nacked htake | timedOut htake => simp [outstanding_takePending htake]
  | validating htake =>
    rw [outstanding_takePending htake, ← outstanding_processQueue]
    simp only [ended_none, zero_add, outstanding, List.map_append, List.map_cons, List.map_nil,
      ← Multiset.coe_add, Multiset.coe_singleton]
    ac_rfl
  | scheduled htake =>
    rw [outstanding_takeValidating htake]
    simp only [ended_none, zero_add, outstanding, List.map_append, List.map_cons, List.map_nil,
      ← Multiset.coe_add, Multiset.coe_singleton]
    ac_rfl
  | resent htake => simp [outstanding_takePending htake]
  | validated htake | invalid htake => simp [outstanding_takeValidating htake]
  | retried htake => simp [outstanding_takeScheduled htake]

/-! ## Ends of requests -/

/-- The event ends the request, with the outcome. -/
inductive Ends (opts : SecurityOptions) (f : Fetcher π δ) : FetchEvent δ → π → FetchOutcome δ → Prop
  /-- Data arrives that nobody validates. -/
  | data {id : Nat} {data : δ} {qi : QueuedInterest π} (hvalidator : opts.hasValidator = false)
      (h : f.pendingInterests.find? (·.id = id) = some qi) :
      Ends opts f (.data id data) qi.request (.satisfied data)
  /-- A Nack arrives. -/
  | nack {id : Nat} {qi : QueuedInterest π} (h : f.pendingInterests.find? (·.id = id) = some qi) :
      Ends opts f (.nack id) qi.request .nacked
  /-- The last retry times out. -/
  | timeout {id : Nat} {qi : QueuedInterest π} (h : f.pendingInterests.find? (·.id = id) = some qi)
      (hretries : qi.nRetries = 0) : Ends opts f (.timeout id) qi.request .timedOut
  /-- The Data is valid. -/
  | validated {id : Nat} {qi : QueuedInterest π × δ}
      (h : f.validating.find? (·.1.id = id) = some qi) :
      Ends opts f (.validated id) qi.1.request (.satisfied qi.2)
  /-- The Data is not valid, and no retry is left. -/
  | validationFailed {id : Nat} {qi : QueuedInterest π × δ}
      (h : f.validating.find? (·.1.id = id) = some qi) (hretries : qi.1.nRetriesOnValidationFail ≤ 0) :
      Ends opts f (.validationFailed id) qi.1.request .invalid

/-- An event ends a request as `Ends` says, and no other way. -/
theorem step_eq_some_iff (opts : SecurityOptions) (e : FetchEvent δ) (f : Fetcher π δ)
    (request : π) (outcome : FetchOutcome δ) :
    (f.step opts e).2 = some (request, outcome) ↔ Ends opts f e request outcome := by
  constructor
  · intro h
    have hmoves := moves_step opts e f
    generalize f.step opts e = r at hmoves h
    cases hmoves with
    | lacks | validating | resent | scheduled | retried => exact absurd h.symm (Option.some_ne_none _)
    | satisfied htake hvalidator =>
      obtain ⟨rfl, rfl⟩ := Prod.mk.inj (Option.some.inj h)
      exact .data hvalidator (takePending_eq_some_iff.mp htake).1
    | nacked htake =>
      obtain ⟨rfl, rfl⟩ := Prod.mk.inj (Option.some.inj h)
      exact .nack (takePending_eq_some_iff.mp htake).1
    | timedOut htake hretries =>
      obtain ⟨rfl, rfl⟩ := Prod.mk.inj (Option.some.inj h)
      exact .timeout (takePending_eq_some_iff.mp htake).1 hretries
    | validated htake =>
      obtain ⟨rfl, rfl⟩ := Prod.mk.inj (Option.some.inj h)
      exact .validated (takeValidating_eq_some_iff.mp htake).1
    | invalid htake hretries =>
      obtain ⟨rfl, rfl⟩ := Prod.mk.inj (Option.some.inj h)
      exact .validationFailed (takeValidating_eq_some_iff.mp htake).1 hretries
  · intro h
    cases h with
    | data hvalidator hfind => simp [step, takePending, hfind, onData, hvalidator]
    | nack hfind => simp [step, takePending, hfind, onNack]
    | timeout hfind hretries => simp [step, takePending, hfind, onTimeout, hretries]
    | validated hfind => simp [step, takeValidating, hfind]
    | validationFailed hfind hretries =>
      simp [step, takeValidating, hfind, onValidationFailed, Int.not_lt.mpr hretries]

end Fetcher

end Svs
