import Svs.Native.Sync
import Svs.ForStd.Gossip

/-!
# A group of nodes

Any number of nodes, each running the core with its own configuration, and the
vectors in flight between them.  The network may lose, duplicate and reorder them:
a delivered packet stays in flight, and any packet may be lost at any time.

`published` and `lastPublication` are history: how often each node has published
under its id, and when it last did; `processed` lists what each node has received.
-/

namespace Svs

open Gossip (Packet)

/-- The cores of all nodes and the vectors in flight. -/
structure Network (ι : Type*) where
  cores : ι → Core
  published : NodeID → ℕ
  flight : List (Packet ι VersionVector)
  processed : ι → List (Packet ι VersionVector)
  lastPublication : ι → ℕ
  clock : ℕ

namespace Network

variable {ι : Type*}

/-- Every node starts empty. -/
def init (cfg : ι → Config) (uninitialized : ι → Int) : Network ι where
  cores i := Core.init (cfg i) (uninitialized i)
  published _ := 0
  flight := []
  processed _ := []
  lastPublication _ := 0
  clock := 0

/-- The packets of the vectors among the effects of a handler. -/
def packets (i : ι) (clock : ℕ) (effects : List Effect) : List (Packet ι VersionVector) :=
  effects.filterMap fun
    | .expressInterest vv => some ⟨i, vv.wire, clock⟩
    | .onUpdate _ => none

variable [DecidableEq ι]

/-- The transitions of the group. -/
inductive Step (P : Platform) (cfg : ι → Config) (s : Network ι) : Network ι → Prop
  /-- Node `i` publishes under its own id; the sequence number does not wrap. -/
  | publish (i : ι) (m : Moment)
      (hwrap : Core.getSeqNo (cfg i) (cfg i).id (s.cores i) <
        Core.nextSeqNo (cfg i) (cfg i).id (s.cores i)) :
      Step P cfg s { s with
        cores := Function.update s.cores i
          (Core.publishData (cfg i) m (cfg i).id (s.cores i)).1
        published := Function.update s.published (cfg i).id (s.published (cfg i).id + 1)
        lastPublication := Function.update s.lastPublication i (s.clock + 1)
        clock := s.clock + 1 }
  /-- Node `i` sends the vector that `buildSyncVector` returns. -/
  | send (i : ι) (m : Moment) :
      Step P cfg s { s with
        cores := Function.update s.cores i (Core.buildSyncVector P (cfg i) m (s.cores i)).1
        flight := s.flight ++
          [⟨i, (Core.buildSyncVector P (cfg i) m (s.cores i)).2.wire, s.clock⟩]
        clock := s.clock + 1 }
  /-- A timer of node `i` fires. -/
  | fire (i : ι) (m : Moment) (e : Event) (he : e = .start ∨ e = .retx) :
      Step P cfg s { s with
        cores := Function.update s.cores i (Core.step P (cfg i) m e (s.cores i)).1
        flight := s.flight ++ packets i s.clock (Core.step P (cfg i) m e (s.cores i)).2
        clock := s.clock + 1 }
  /-- A vector in flight arrives at node `i`. -/
  | deliver (i : ι) (m : Moment) (face : UInt64) (p : Packet ι VersionVector)
      (hp : p ∈ s.flight) :
      Step P cfg s { s with
        cores := Function.update s.cores i
          (Core.processVector P (cfg i) m p.content face (s.cores i)).1
        processed := Function.update s.processed i (s.processed i ++ [p])
        clock := s.clock + 1 }
  /-- The network loses all but the packets in `rest`. -/
  | lose (rest : List (Packet ι VersionVector)) (hrest : rest.Sublist s.flight) :
      Step P cfg s { s with flight := rest, clock := s.clock + 1 }

/-- The states that runs of the group reach. -/
inductive Reachable (P : Platform) (cfg : ι → Config) : Network ι → Prop
  | init (uninitialized : ι → Int) : Reachable P cfg (init cfg uninitialized)
  | step {s s' : Network ι} : Reachable P cfg s → Step P cfg s s' → Reachable P cfg s'

end Network

end Svs
