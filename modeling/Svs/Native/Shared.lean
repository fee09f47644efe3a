import Svs.Native.Fetcher
import Svs.Native.PubSubPublish

/-!
# Sync nodes that share data

`SVSyncShared` names the data of all nodes under one prefix, so that a node can answer for
another one.  With `setCacheAll` it keeps the packets of others that it has fetched, and
serves them from its store.

The group is run with others around it, who may send what they like.  They cannot make the
signature of a node for a packet that this node has not signed.
-/

namespace Svs

/-- A packet with its signature. -/
structure SignedData where
  data : Data
  signature : List UInt8
deriving DecidableEq

/-- A call of the `onValidated` that `fetchData` is given, with `m_cacheAll` at that time. -/
structure ValidatedCall where
  publication : Publication
  packet : SignedData
  cacheAll : Bool
deriving DecidableEq

/-- The constructor's arguments. -/
structure SharedConfig where
  core : Config
  grpPrefix : Name
  securityOptions : SecurityOptions

namespace SharedConfig

/-- The data prefix, `/d` below the group's prefix. -/
def dataPrefix (cfg : SharedConfig) : Name := cfg.grpPrefix.append (.ofBytes [[100]])

/-- `SVSyncShared::getDataName`. -/
def getDataName (cfg : SharedConfig) (p : Publication) : Name :=
  (cfg.dataPrefix.append p.nodeId).appendNumber p.seqNo

end SharedConfig

/-- `SVSyncShared`; `delivered` is the log of the calls of `dataCallback`. -/
structure SVSyncShared where
  core : Core
  fetcher : Fetcher Publication SignedData := {}
  dataStore : List SignedData := []
  cacheAll : Bool := false
  delivered : List ValidatedCall := []

namespace SVSyncShared

/-- `SVSyncBase::publishData`: the packet and the new state. -/
def publishData (cfg : SharedConfig) (sign : Data → List UInt8) (m : Moment) (content : List UInt8)
    (id : NodeID) (contentType : Nat) (s : SVSyncShared) : SignedData × SVSyncShared :=
  let (core, newSeq) := Core.publishData cfg.core m id s.core
  let data : Data :=
    { name := cfg.getDataName ⟨Core.targetNode cfg.core id, newSeq⟩
      contentType := contentType, content := content }
  let packet : SignedData := ⟨data, sign data⟩
  (packet, { s with core := core, dataStore := s.dataStore ++ [packet] })

/-- `SVSyncBase::fetchData`. -/
def fetchData (cfg : SharedConfig) (p : Publication) (nRetries : Int) (s : SVSyncShared) : SVSyncShared :=
  { s with fetcher := s.fetcher.expressInterest cfg.securityOptions p nRetries }

/-- `SVSyncBase::onDataValidated`, with `SVSyncShared::shouldCache`. -/
def onDataValidated (p : Publication) (packet : SignedData) (s : SVSyncShared) : SVSyncShared :=
  { s with
    dataStore := if s.cacheAll then s.dataStore ++ [packet] else s.dataStore
    delivered := s.delivered ++ [⟨p, packet, s.cacheAll⟩] }

/-- The callbacks that `fetchData` gives to the fetcher.  Where a request fails nothing is left
    of it but a call of the application. -/
def onOutcome : Option (Publication × FetchOutcome SignedData) → SVSyncShared → SVSyncShared
  | some (p, .satisfied packet), s => s.onDataValidated p packet
  | _, s => s

/-- An event of the fetcher. -/
def fetchEvent (cfg : SharedConfig) (e : FetchEvent SignedData) (s : SVSyncShared) : SVSyncShared :=
  let (fetcher, outcome) := s.fetcher.step cfg.securityOptions e
  { s with fetcher := fetcher }.onOutcome outcome

end SVSyncShared

/-- Who signs, and what a validator accepts. -/
structure DataKey (ι : Type*) where
  sign : ι → Data → List UInt8
  Genuine : SignedData → Prop

/-- The nodes, the packets in flight, and what each node has published. -/
structure SharedGroup (ι : Type*) where
  nodes : ι → SVSyncShared
  flight : List SignedData
  published : ι → List (SeqNo × Data)

namespace SharedGroup

variable {ι : Type*}

/-- Every node starts empty. -/
def init (cfg : ι → SharedConfig) (uninitialized : ι → Int) : SharedGroup ι where
  nodes i := { core := Core.init (cfg i).core (uninitialized i) }
  flight := []
  published _ := []

/-- Some node has published the packet. -/
def Published (s : SharedGroup ι) (d : Data) : Prop := ∃ j seq, (seq, d) ∈ s.published j

variable [DecidableEq ι]

/-- One node changes. -/
def setNode (i : ι) (node : SVSyncShared) (s : SharedGroup ι) : SharedGroup ι :=
  { s with nodes := Function.update s.nodes i node }

/-- The transitions of the group. -/
inductive Step (P : Platform) (cfg : ι → SharedConfig) (key : DataKey ι) (s : SharedGroup ι) :
    SharedGroup ι → Prop
  /-- Node `i` publishes under its own id; the sequence number does not wrap. -/
  | publish (i : ι) (m : Moment) (content : List UInt8) (contentType : Nat) (packet : SignedData)
      (node : SVSyncShared)
      (hwrap : Core.getSeqNo (cfg i).core EMPTY_NODE_ID (s.nodes i).core <
        Core.nextSeqNo (cfg i).core EMPTY_NODE_ID (s.nodes i).core)
      (hpublish : (s.nodes i).publishData (cfg i) (key.sign i) m content EMPTY_NODE_ID contentType =
        (packet, node)) :
      Step P cfg key s { s with
        nodes := Function.update s.nodes i node
        flight := s.flight ++ [packet]
        published := Function.update s.published i (s.published i ++
          [(Core.nextSeqNo (cfg i).core EMPTY_NODE_ID (s.nodes i).core, packet.data)]) }
  /-- A timer of node `i` fires, or a state vector arrives, whosever it is. -/
  | sync (i : ι) (m : Moment) (e : Event) (he : ∀ seq nid, e ≠ .updateSeqNo seq nid) :
      Step P cfg key s (s.setNode i
        { s.nodes i with core := (Core.step P (cfg i).core m e (s.nodes i).core).1 })
  | setCacheAll (i : ι) (val : Bool) :
      Step P cfg key s (s.setNode i { s.nodes i with cacheAll := val })
  | fetchData (i : ι) (p : Publication) (nRetries : Int) :
      Step P cfg key s (s.setNode i ((s.nodes i).fetchData (cfg i) p nRetries))
  /-- The store of node `i` has the packet, and `onDataInterest` puts it. -/
  | put (i : ι) (packet : SignedData) (hpacket : packet ∈ (s.nodes i).dataStore) :
      Step P cfg key s { s with flight := s.flight ++ [packet] }
  /-- Data comes from what is in flight, for an Interest that takes longer names; the validator
      accepts only what is genuine. -/
  | fetchEvent (i : ι) (e : FetchEvent SignedData)
      (harrives : ∀ id packet, e = .data id packet → packet ∈ s.flight ∧
        ∀ qi, (s.nodes i).fetcher.pendingInterests.find? (·.id = id) = some qi →
          ((cfg i).getDataName qi.request).isPrefixOf packet.data.name)
      (haccepts : ∀ id qi packet, e = .validated id →
        (s.nodes i).fetcher.validating.find? (·.1.id = id) = some (qi, packet) → key.Genuine packet) :
      Step P cfg key s (s.setNode i ((s.nodes i).fetchEvent (cfg i) e))
  /-- Somebody else sends a packet. -/
  | inject (packet : SignedData) (hforged : key.Genuine packet → s.Published packet.data) :
      Step P cfg key s { s with flight := s.flight ++ [packet] }
  /-- The network loses all but what is kept. -/
  | lose (flight : List SignedData) (hflight : flight.Sublist s.flight) :
      Step P cfg key s { s with flight := flight }

/-- The states that runs of the group reach. -/
inductive Reachable (P : Platform) (cfg : ι → SharedConfig) (key : DataKey ι) : SharedGroup ι → Prop
  | init (uninitialized : ι → Int) : Reachable P cfg key (init cfg uninitialized)
  | step {s s' : SharedGroup ι} : Reachable P cfg key s → Step P cfg key s s' → Reachable P cfg key s'

end SharedGroup

end Svs
