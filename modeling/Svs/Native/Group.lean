import Svs.Native.MappingQuery
import Svs.Native.PubSubPublish
import Svs.Native.Receive

/-!
# A group of `SVSPubSub` nodes

The nodes with all that they send each other: Sync Interests as the bytes of their
`ApplicationParameters`, and Data.  The network may lose, duplicate and reorder what is in
flight.  A node may put any packet of its data store, as `publishData` and `onDataInterest`
do, and answers the mapping queries that its Interest filter lets through.  All nodes are on
one side of the signatures: what is in flight, some node has sent.

`published` is history: the calls of `publish` that each node has made.
-/

namespace Svs

open EncodingBuffer

/-- The publication that the Interest of a request is for. -/
def DataRequest.publication : DataRequest → Publication
  | .fetch p => p
  | .prefetch nodeId seqNo => ⟨nodeId, seqNo⟩

/-- Whether Data arrives. -/
def FetchEvent.isData {δ : Type} : FetchEvent δ → Bool
  | .data _ _ => true
  | _ => false

/-- The event comes from the application, a timer or a validator, or is a Nack. -/
def PubSub.Event.isLocal : PubSub.Event → Bool
  | .subscribe _ _ | .subscribeToProducer _ _ _ | .unsubscribe _ => true
  | .fetchData e _ | .fetchMapping e => !e.isData
  | .validationFailed _ | .segmentsError _ | .blobAnswer _ _ => true
  | .insertMapping _ _ _ _ | .onGetExtraData | .onRecvExtraData _ | .update _ => false
  | .segmentsComplete _ _ _ => false

namespace Publisher

/-- The value of the `ApplicationParameters` that `sendSyncInterest` builds: the extra block
    is written first, so it comes last. -/
def applicationParameters (syncVv : VersionVector) (extra : List UInt8) : List UInt8 :=
  let enc : EncodingBuffer Nat := do
    let length ← prependBytes extra
    return length + (← prependBytes syncVv.encode)
  (enc.run []).2

/-- What the core does to the node around it, and the Sync Interests that it sends. -/
def perform (cfg : PublisherConfig) (now : UInt64) :
    List Effect → Publisher → Publisher × List (List UInt8)
  | [], s => (s, [])
  | .expressInterest syncVv :: effects, s =>
    let (pubSub, extra) := s.pubSub.onGetExtraData
    let (s, sent) := perform cfg now effects { s with pubSub := pubSub }
    (s, applicationParameters syncVv extra :: sent)
  | .onUpdate info :: effects, s =>
    perform cfg now effects { s with pubSub := s.pubSub.step cfg.pubSub (now, .update info) }

/-- A timer of the core fires. -/
def fire (P : Platform) (cfg : PublisherConfig) (m : Moment) (now : UInt64) (e : Event)
    (s : Publisher) : Publisher × List (List UInt8) :=
  let (core, effects) := Core.step P cfg.core m e s.core
  perform cfg now effects { s with core := core }

/-- A validated Sync Interest arrives. -/
def onSyncInterestValidated (P : Platform) (cfg : PublisherConfig) (m : Moment) (now : UInt64)
    (interest : SyncInterest) (s : Publisher) : Publisher × List (List UInt8) :=
  let outcome := Receiver.onSyncInterestValidated .packetFormat P cfg.core
    (some (Receiver.pubSubCallback .packetFormat)) m interest ⟨s.core, s.pubSub.mappings⟩
  perform cfg now outcome.effects
    { s with
      core := outcome.receiver.core
      pubSub := { s.pubSub with mappings := outcome.receiver.mappings } }

end Publisher

/-- A call of `publish` without a prefix, and the clock's microseconds. -/
structure PublishCall where
  now : UInt64
  name : Name
  value : List UInt8
  mappingBlocks : List Block

/-- What is done to the node. -/
def PublishCall.perform (cfg : PublisherConfig) (m : Moment) (call : PublishCall) (s : Publisher) :
    Publisher :=
  (Publisher.publish cfg m call.now call.name call.value EMPTY_NODE_ID call.mappingBlocks s).2

/-- What a `SegmentFetcher` for the name completes with: the contents of the segments of one
    version, as many as a FinalBlockId among them says. -/
def Reassembled (flight : List Data) (pubName : Name) (bytes : List UInt8) : Prop :=
  ∃ (version : Component) (segments : List Data), segments.length < 2 ^ 64 ∧
    (∀ (k : ℕ) d, segments[k]? = some d →
      d ∈ flight ∧ d.name = ⟨pubName.components ++ [version, ⟨50, Codec.integerBytes (.ofNat k)⟩]⟩) ∧
    (∃ d ∈ segments, d.finalBlock = some ⟨50, Codec.integerBytes (.ofNat (segments.length - 1))⟩) ∧
    bytes = segments.flatMap (·.content)

/-- The nodes, the Sync Interests and the Data in flight. -/
structure Group (ι : Type*) where
  nodes : ι → Publisher
  syncInterests : List (List UInt8)
  data : List Data
  published : ι → List PublishCall

namespace Group

variable {ι : Type*}

/-- Every node starts empty. -/
def init (cfg : ι → PublisherConfig) (uninitialized : ι → Int) (count : ι → UInt32) : Group ι where
  nodes i :=
    { core := Core.init (cfg i).core (uninitialized i), pubSub := { subscriptionCount := count i } }
  syncInterests := []
  data := []
  published _ := []

variable [DecidableEq ι]

/-- Something happens to the pub/sub layer of a node. -/
def act (cfg : ι → PublisherConfig) (i : ι) (e : UInt64 × PubSub.Event) (g : Group ι) : Group ι :=
  { g with
    nodes := Function.update g.nodes i
      { g.nodes i with pubSub := (g.nodes i).pubSub.step (cfg i).pubSub e } }

/-- The transitions of the group. -/
inductive Step (P : Platform) (cfg : ι → PublisherConfig) (g : Group ι) : Group ι → Prop
  /-- Node `i` publishes; the sequence number does not wrap. -/
  | publish (i : ι) (m : Moment) (call : PublishCall)
      (hwrap : Core.getSeqNo (cfg i).core EMPTY_NODE_ID (g.nodes i).core <
        Core.nextSeqNo (cfg i).core EMPTY_NODE_ID (g.nodes i).core) :
      Step P cfg g { g with
        nodes := Function.update g.nodes i (call.perform (cfg i) m (g.nodes i))
        published := Function.update g.published i (g.published i ++ [call]) }
  /-- A timer of node `i` fires; what is sent fits into memory. -/
  | fire (i : ι) (m : Moment) (now : UInt64) (e : Event) (he : e = .start ∨ e = .retx)
      (hfits : ∀ bytes ∈ ((g.nodes i).fire P (cfg i) m now e).2, bytes.length < 2 ^ 64) :
      Step P cfg g { g with
        nodes := Function.update g.nodes i ((g.nodes i).fire P (cfg i) m now e).1
        syncInterests := g.syncInterests ++ ((g.nodes i).fire P (cfg i) m now e).2 }
  /-- A Sync Interest in flight arrives at node `i`. -/
  | receive (i : ι) (m : Moment) (now : UInt64) (bytes : List UInt8) (incomingFaceId : Option UInt64)
      (hbytes : bytes ∈ g.syncInterests) :
      Step P cfg g { g with
        nodes := Function.update g.nodes i
          ((g.nodes i).onSyncInterestValidated P (cfg i) m now ⟨some bytes, incomingFaceId⟩).1 }
  /-- Something happens at node `i` that brings nothing from the network. -/
  | act (i : ι) (e : UInt64 × PubSub.Event) (he : e.2.isLocal = true) : Step P cfg g (g.act cfg i e)
  /-- Node `i` puts a packet of its data store. -/
  | put (i : ι) (d : Data) (hd : d ∈ (g.nodes i).dataStore) :
      Step P cfg g { g with data := g.data ++ [d] }
  /-- Node `i` answers a mapping query. -/
  | answer (i : ι) (uninitialized : UInt64) (name : Name) (d : Data)
      (hfilter : (((cfg i).core.id.append (cfg i).syncPrefix).append MappingProvider.MAPPING).isPrefixOf name)
      (hd : MappingProvider.onMappingQuery (cfg i).syncPrefix uninitialized name
        (g.nodes i).pubSub.mappings memoryLimit = some (some d))
      (hfits : d.content.length < 2 ^ 64) :
      Step P cfg g { g with data := g.data ++ [d] }
  /-- Data arrives for an Interest of `fetchData`, which takes longer names. -/
  | fetchData (i : ι) (now : UInt64) (id : ℕ) (d : Data) (answer : Option Bool) (hd : d ∈ g.data)
      (hname : ∀ qi, (g.nodes i).pubSub.dataFetcher.pendingInterests.find? (·.id = id) = some qi →
        (PubSub.getDataName (cfg i).syncPrefix qi.request.publication).isPrefixOf d.name) :
      Step P cfg g (g.act cfg i (now, .fetchData (.data id d) answer))
  /-- Data arrives for a mapping query, which takes its own name only. -/
  | fetchMapping (i : ι) (now : UInt64) (id : ℕ) (d : Data) (hd : d ∈ g.data)
      (hname : ∀ qi, (g.nodes i).pubSub.mappingFetcher.pendingInterests.find? (·.id = id) = some qi →
        d.name = MappingProvider.getMappingQueryDataName (cfg i).syncPrefix qi.request) :
      Step P cfg g (g.act cfg i (now, .fetchMapping (.data id d)))
  /-- A `SegmentFetcher` completes. -/
  | segments (i : ι) (now : UInt64) (task : ℕ) (bytes : List UInt8) (answers : List (Option Bool))
      (hbytes : ∀ p pubName s, (g.nodes i).pubSub.takeTask task = some (.segments p pubName, s) →
        Reassembled g.data pubName bytes) :
      Step P cfg g (g.act cfg i (now, .segmentsComplete task bytes answers))
  /-- The network loses all but what is kept. -/
  | lose (syncInterests : List (List UInt8)) (data : List Data)
      (hinterests : syncInterests.Sublist g.syncInterests) (hdata : data.Sublist g.data) :
      Step P cfg g { g with syncInterests := syncInterests, data := data }

/-- The states that runs of the group reach. -/
inductive Reachable (P : Platform) (cfg : ι → PublisherConfig) : Group ι → Prop
  | init (uninitialized : ι → Int) (count : ι → UInt32) :
      Reachable P cfg (init cfg uninitialized count)
  | step {g g' : Group ι} : Reachable P cfg g → Step P cfg g g' → Reachable P cfg g'

end Group

end Svs
