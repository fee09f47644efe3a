import Svs.Native.Sync

/-!
# Publishing

`SVSyncBase::publishData` reads the entry with `getSeqNo` and writes the successor with
`updateSeqNo`.  Each of the two takes `m_vvMutex` for itself, and so does
`mergeStateVector`, so calls on several threads and the merges of the face's thread
interleave by these steps.  What a step does after releasing the lock moves timers only.
-/

namespace Svs

open Std VersionVector

/-- A step of some thread on `m_vv`. -/
inductive LockedStep (κ : Type)
  /-- `publishData(.., id, ..)` on the thread reads the entry. -/
  | getSeqNo (thread : κ) (id : NodeID)
  /-- The call on the thread writes the entry, and returns. -/
  | updateSeqNo (thread : κ)
  /-- A vector is merged. -/
  | mergeStateVector (vvOther : VersionVector)

/-- A core on which threads publish: `pending` are the calls between their two steps, with
    `pubId` and `newSeq`, and `returned` what calls have returned. -/
structure Publishers (κ : Type) where
  core : Core
  pending : κ → Option (NodeID × SeqNo)
  returned : List (NodeID × SeqNo)

namespace Publishers

variable {κ : Type}

/-- A core on which no call is in progress. -/
def idle (core : Core) : Publishers κ where
  core := core
  pending _ := none
  returned := []

/-- One step.  A thread makes one call at a time. -/
def step [DecidableEq κ] (cfg : Config) (e : Moment × LockedStep κ) (s : Publishers κ) :
    Publishers κ :=
  match e.2 with
  | .getSeqNo thread id =>
    match s.pending thread with
    | some _ => s
    | none =>
      let call := (Core.targetNode cfg id, Core.nextSeqNo cfg id s.core)
      { s with pending := Function.update s.pending thread (some call) }
  | .updateSeqNo thread =>
    match s.pending thread with
    | none => s
    | some (pubId, newSeq) =>
      { core := Core.updateSeqNo cfg e.1 newSeq pubId s.core
        pending := Function.update s.pending thread none
        returned := s.returned ++ [(pubId, newSeq)] }
  | .mergeStateVector vvOther => { s with core := (Core.mergeStateVector e.1 vvOther s.core).1 }

end Publishers

/-! ## Publishing on the face's thread -/

/-- What happens to a node that publishes on the thread of the face. -/
inductive NodeEvent
  /-- The event of `sendInitialInterest` fires. -/
  | start
  /-- A Sync Interest with a decodable state vector arrives. -/
  | syncInterest (vvOther : VersionVector) (incomingFace : UInt64)
  /-- The pending retransmission event fires. -/
  | retx
  /-- The application calls `publishData`. -/
  | publishData (id : NodeID)

namespace NodeEvent

/-- The event of the core: `publishData` is an update to what it read. -/
def toEvent (cfg : Config) (e : NodeEvent) (c : Core) : Event :=
  match e with
  | .start => .start
  | .syncInterest vvOther incomingFace => .syncInterest vvOther incomingFace
  | .retx => .retx
  | .publishData id => .updateSeqNo (Core.nextSeqNo cfg id c) (Core.targetNode cfg id)

/-- A node with the vectors it has had so far, the present one included. -/
abbrev History := Core × List VersionVector

/-- One step of a node, with its history. -/
def next (P : Platform) (cfg : Config) (e : Moment × NodeEvent) (h : History) : History :=
  let c := (Core.step P cfg e.1 (e.2.toEvent cfg h.1) h.1).1
  (c, h.2 ++ [c.vv])

end NodeEvent

end Svs
