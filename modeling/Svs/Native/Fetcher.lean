import Mathlib

/-!
# Fetcher

`Fetcher` keeps a window of Interests pending and the others in a queue.  A request `π`
is an Interest with its callbacks, a `δ` the Data that satisfies one.

The face calls back once for each Interest, with Data, a Nack or a timeout; the
validator answers once for each Data; a scheduled retry fires once.  An answer that is
given during the call of `validate` is one that comes right after it, since the call is
the last thing `onData` does.
-/

namespace Svs

/-- What `SecurityOptions` says about fetching and validating. -/
structure SecurityOptions where
  /-- Whether there is a `validator`. -/
  hasValidator : Bool := false
  /-- Whether there is an `encapsulatedDataValidator`. -/
  hasEncapsulatedDataValidator : Bool := false
  nRetriesOnValidationFail : Int := 0

/-- `Fetcher::QueuedInterest`. -/
structure QueuedInterest (π : Type) where
  id : Nat
  request : π
  nRetries : Int
  nRetriesOnValidationFail : Int
deriving DecidableEq

/-- How a request ends. -/
inductive FetchOutcome (δ : Type)
  /-- `afterSatisfied` is called. -/
  | satisfied (data : δ)
  /-- `afterNacked` is called. -/
  | nacked
  /-- `afterTimeout` is called. -/
  | timedOut
  /-- The Data fails validation and no retry is left.  Nothing is called, since the call
      of `afterValidationFailed` stands after a `return`. -/
  | invalid
deriving DecidableEq

/-- What happens to a fetcher, addressed by the identifier of the Interest. -/
inductive FetchEvent (δ : Type)
  | data (id : Nat) (data : δ)
  | nack (id : Nat)
  | timeout (id : Nat)
  /-- The validator accepts the Data. -/
  | validated (id : Nat)
  /-- The validator rejects the Data. -/
  | validationFailed (id : Nat)
  /-- The retry that is scheduled after a failed validation. -/
  | retry (id : Nat)
deriving DecidableEq

/-- The members of `Fetcher`.  Of a pending Interest the map holds the handle, and the
    callbacks bound to it hold the rest.  No fetcher lives to count `2 ^ 64` Interests. -/
structure Fetcher (π δ : Type) where
  interestIdCounter : Nat := 0
  windowSize : Nat := 10
  interestQueue : List (QueuedInterest π) := []
  pendingInterests : List (QueuedInterest π) := []
  /-- The validator has been given the Data and has not answered. -/
  validating : List (QueuedInterest π × δ) := []
  /-- The retry has been scheduled. -/
  scheduled : List (QueuedInterest π) := []
  /-- What the face has been given so far. -/
  expressed : List (QueuedInterest π) := []
deriving DecidableEq

namespace Fetcher

variable {π δ : Type}

/-- The loop of `processQueue`, along the queue. -/
def processQueueLoop : List (QueuedInterest π) → Fetcher π δ → Fetcher π δ
  | [], f => { f with interestQueue := [] }
  | i :: queue, f =>
    if f.pendingInterests.length < f.windowSize then
      processQueueLoop queue
        { f with pendingInterests := f.pendingInterests ++ [i], expressed := f.expressed ++ [i] }
    else { f with interestQueue := i :: queue }

/-- `Fetcher::processQueue`. -/
def processQueue (f : Fetcher π δ) : Fetcher π δ := processQueueLoop f.interestQueue f

/-- What both `expressInterest` do with an Interest: it gets the next identifier. -/
def enqueue (qi : QueuedInterest π) (f : Fetcher π δ) : Fetcher π δ :=
  let id := f.interestIdCounter + 1
  processQueue
    { f with interestIdCounter := id, interestQueue := f.interestQueue ++ [{ qi with id := id }] }

/-- `Fetcher::expressInterest(interest, ...)`. -/
def expressInterest (opts : SecurityOptions) (request : π) (nRetries : Int) (f : Fetcher π δ) :
    Fetcher π δ :=
  f.enqueue { id := 0, request := request, nRetries := nRetries,
              nRetriesOnValidationFail := opts.nRetriesOnValidationFail }

/-- `Fetcher::onData`. -/
def onData (opts : SecurityOptions) (data : δ) (qi : QueuedInterest π) (f : Fetcher π δ) :
    Fetcher π δ × Option (π × FetchOutcome δ) :=
  -- the window has a free place already while the Data is being validated
  let f := f.processQueue
  if opts.hasValidator then ({ f with validating := f.validating ++ [(qi, data)] }, none)
  else (f, some (qi.request, .satisfied data))

/-- `Fetcher::onNack`. -/
def onNack (qi : QueuedInterest π) (f : Fetcher π δ) : Fetcher π δ × Option (π × FetchOutcome δ) :=
  (f.processQueue, some (qi.request, .nacked))

/-- `Fetcher::onTimeout`.  A negative number of retries never comes to an end. -/
def onTimeout (qi : QueuedInterest π) (f : Fetcher π δ) :
    Fetcher π δ × Option (π × FetchOutcome δ) :=
  if qi.nRetries = 0 then (f.processQueue, some (qi.request, .timedOut))
  -- the retry goes to the end of the queue, under a new identifier
  else (f.enqueue { qi with nRetries := qi.nRetries - 1 }, none)

/-- `onValidationFailed` in `onData`. -/
def onValidationFailed (qi : QueuedInterest π) (f : Fetcher π δ) :
    Fetcher π δ × Option (π × FetchOutcome δ) :=
  if 0 < qi.nRetriesOnValidationFail then ({ f with scheduled := f.scheduled ++ [qi] }, none)
  else (f, some (qi.request, .invalid))

/-- The scheduled retry. -/
def onRetry (qi : QueuedInterest π) (f : Fetcher π δ) : Fetcher π δ :=
  f.enqueue { qi with nRetriesOnValidationFail := qi.nRetriesOnValidationFail - 1 }

/-- Takes the pending Interest out of the map. -/
def takePending (id : Nat) (f : Fetcher π δ) : Option (QueuedInterest π × Fetcher π δ) :=
  (f.pendingInterests.find? (·.id = id)).map fun qi =>
    (qi, { f with pendingInterests := f.pendingInterests.eraseP (·.id = id) })

/-- Takes the Interest whose Data the validator answers for. -/
def takeValidating (id : Nat) (f : Fetcher π δ) : Option ((QueuedInterest π × δ) × Fetcher π δ) :=
  (f.validating.find? (·.1.id = id)).map fun qi =>
    (qi, { f with validating := f.validating.eraseP (·.1.id = id) })

/-- Takes the scheduled retry. -/
def takeScheduled (id : Nat) (f : Fetcher π δ) : Option (QueuedInterest π × Fetcher π δ) :=
  (f.scheduled.find? (·.id = id)).map fun qi =>
    (qi, { f with scheduled := f.scheduled.eraseP (·.id = id) })

/-- One event, and the request that it ends.  Events of Interests that the fetcher does
    not have do not happen. -/
def step (opts : SecurityOptions) (e : FetchEvent δ) (f : Fetcher π δ) :
    Fetcher π δ × Option (π × FetchOutcome δ) :=
  match e with
  | .data id data =>
    match f.takePending id with
    | some (qi, f) => f.onData opts data qi
    | none => (f, none)
  | .nack id =>
    match f.takePending id with
    | some (qi, f) => f.onNack qi
    | none => (f, none)
  | .timeout id =>
    match f.takePending id with
    | some (qi, f) => f.onTimeout qi
    | none => (f, none)
  | .validated id =>
    match f.takeValidating id with
    | some ((qi, data), f) => (f, some (qi.request, .satisfied data))
    | none => (f, none)
  | .validationFailed id =>
    match f.takeValidating id with
    | some ((qi, _), f) => f.onValidationFailed qi
    | none => (f, none)
  | .retry id =>
    match f.takeScheduled id with
    | some (qi, f) => (f.onRetry qi, none)
    | none => (f, none)

end Fetcher

end Svs
