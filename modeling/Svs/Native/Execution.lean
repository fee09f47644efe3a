import Svs.ForStd.Traffic
import Svs.Native.Network

/-!
# Infinite runs

A node and a group of nodes that run for ever.  `Timely` is what a node relies on of its
scheduler and its clocks.
-/

namespace Svs

open Gossip (Packet)

namespace Core

/-- A node that runs for ever.  Where it has no input, something happens elsewhere. -/
structure Execution (P : Platform) (cfg : Config) where
  core : ℕ → Core
  input : ℕ → Option (Moment × Event)
  uninitialized : Int
  core_zero : core 0 = init cfg uninitialized
  core_succ : ∀ t, core (t + 1) =
    match input t with
    | none => core t
    | some e => (step P cfg e.1 e.2 (core t)).1

namespace Execution

variable {P : Platform} {cfg : Config}

/-- `m_scheduler` fires no event early, and none waits for ever; `sendInitialInterest` is
    called once.  The steady clock does not go back, and the system clock goes on. -/
structure Timely (ex : Execution P cfg) : Prop where
  due : ∀ t m, ex.input t = some (m, .retx) →
    ∃ τ, (ex.core t).retxEvent = some τ ∧ τ ≤ m.currentTime
  fires : ∀ t τ, (ex.core t).retxEvent = some τ →
    ∃ t' ≥ t, (∃ m, ex.input t' = some (m, .retx)) ∨ (ex.core t').retxEvent ≠ some τ
  starts : ∃ t m, ex.input t = some (m, .start) ∧ ∀ t' m', ex.input t' = some (m', .start) → t' = t
  steady : ∀ t t' e e', t ≤ t' → ex.input t = some e → ex.input t' = some e' →
    e.1.currentTime ≤ e'.1.currentTime
  passes : ∀ bound, ∃ T, ∀ t ≥ T, ∀ e, ex.input t = some e → bound ≤ e.1.now

/-- In the step a Sync Interest with the vector is sent. -/
def Sends (ex : Execution P cfg) (t : ℕ) (vv : VersionVector) : Prop :=
  ∃ e, ex.input t = some e ∧ .expressInterest vv ∈ (step P cfg e.1 e.2 (ex.core t)).2

/-- In the step a Sync Interest with the vector is received. -/
def Hears (ex : Execution P cfg) (t : ℕ) (vv : VersionVector) : Prop :=
  ∃ m face, ex.input t = some (m, .syncInterest vv face)

end Execution

end Core

namespace Network

variable {ι : Type*}

/-- What happens in a group. -/
inductive Action (ι : Type*)
  /-- Node `i` publishes under its own id. -/
  | publish (i : ι) (m : Moment)
  /-- A timer of node `i` fires. -/
  | fire (i : ι) (m : Moment) (e : Event)
  /-- A vector in flight arrives at node `i`. -/
  | deliver (i : ι) (m : Moment) (face : UInt64) (p : Packet ι VersionVector)
  /-- The network loses all but the packets in `rest`. -/
  | lose (rest : List (Packet ι VersionVector))

/-- What may happen in a state. -/
def Action.Allowed (cfg : ι → Config) (s : Network ι) : Action ι → Prop
  | .publish i _ => Core.getSeqNo (cfg i) (cfg i).id (s.cores i) <
      Core.nextSeqNo (cfg i) (cfg i).id (s.cores i)
  | .fire _ _ e => e = .start ∨ e = .retx
  | .deliver _ _ _ p => p ∈ s.flight
  | .lose rest => rest.Sublist s.flight

variable [DecidableEq ι]

/-- What the action is to node `i`. -/
def Action.input (cfg : ι → Config) (s : Network ι) (i : ι) : Action ι → Option (Moment × Event)
  | .publish j m =>
    if j = i then
      some (m, .updateSeqNo (Core.nextSeqNo (cfg i) (cfg i).id (s.cores i))
        (Core.targetNode (cfg i) (cfg i).id))
    else none
  | .fire j m e => if j = i then some (m, e) else none
  | .deliver j m face p => if j = i then some (m, .syncInterest p.content face) else none
  | .lose _ => none

/-- The state after an action. -/
def perform (P : Platform) (cfg : ι → Config) (s : Network ι) : Action ι → Network ι
  | .publish i m => { s with
      cores := Function.update s.cores i (Core.publishData (cfg i) m (cfg i).id (s.cores i)).1
      published := Function.update s.published (cfg i).id (s.published (cfg i).id + 1)
      lastPublication := Function.update s.lastPublication i (s.clock + 1)
      clock := s.clock + 1 }
  | .fire i m e => { s with
      cores := Function.update s.cores i (Core.step P (cfg i) m e (s.cores i)).1
      flight := s.flight ++ packets i s.clock (Core.step P (cfg i) m e (s.cores i)).2
      clock := s.clock + 1 }
  | .deliver i m face p => { s with
      cores := Function.update s.cores i
        (Core.processVector P (cfg i) m p.content face (s.cores i)).1
      processed := Function.update s.processed i (s.processed i ++ [p])
      clock := s.clock + 1 }
  | .lose rest => { s with flight := rest, clock := s.clock + 1 }

/-- A group that runs for ever. -/
structure Execution (P : Platform) (cfg : ι → Config) where
  state : ℕ → Network ι
  action : ℕ → Action ι
  uninitialized : ι → Int
  state_zero : state 0 = init cfg uninitialized
  allowed : ∀ t, (action t).Allowed cfg (state t)
  state_succ : ∀ t, state (t + 1) = perform P cfg (state t) (action t)

namespace Execution

variable {P : Platform} {cfg : ι → Config}

/-- The packets that the nodes send and receive. -/
def traffic (ex : Execution P cfg) : Traffic ι (Packet ι VersionVector) where
  sends t i p := ∃ m e, ex.action t = .fire i m e ∧
    p ∈ packets i (ex.state t).clock (Core.step P (cfg i) m e ((ex.state t).cores i)).2
  hears t i p := ∃ m face, ex.action t = .deliver i m face p

end Execution

end Network

end Svs
