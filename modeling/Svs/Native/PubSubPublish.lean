import Svs.Native.PubSub
import Svs.Native.Sync

/-!
# `SVSPubSub::publish`

A value that fits into one packet is published by `publishPacket`, which goes through
`SVSyncBase::publishData`.  A larger one is cut into segments, which `publish` itself
enters into the data store before it takes the next sequence number.

Both sign and encode the packets that they encapsulate; `Face::put` is taken to return.
-/

namespace Svs

namespace PubSub

/-- `SVSync::getDataName`. -/
def getDataName (syncPrefix : Name) (p : Publication) : Name :=
  Codec.packetFormat.appendNumber ⟨p.nodeId.components ++ syncPrefix.components⟩ p.seqNo

/-- The name that `insertDataSegment` gives to a segment, with version 0. -/
def getSegmentName (syncPrefix : Name) (p : Publication) (segNo : UInt64) : Name :=
  ⟨(getDataName syncPrefix p).components ++ [⟨54, [0]⟩, ⟨50, Codec.integerBytes segNo⟩]⟩

end PubSub

/-- The constructor's arguments.  `m_dataPrefix` is the `m_id` of the core. -/
structure PublisherConfig where
  core : Config
  pubSub : PubSubConfig
  syncPrefix : Name
  /-- `sign` and `wireEncode`. -/
  wireEncode : Data → List UInt8

/-- What publishing touches: the members of `SVSPubSub`, the core, and the packets given to
    `m_dataStore` and to the face. -/
structure Publisher where
  core : Core
  pubSub : PubSub
  dataStore : List Data := []
  put : List Data := []

namespace Publisher

/-- `SVSPubSub::MAX_DATA_SIZE`. -/
def MAX_DATA_SIZE : Nat := 8000

/-- `SVSyncBase::publishData`: the sequence number and the new state. -/
def publishData (cfg : PublisherConfig) (m : Moment) (content : List UInt8) (id : NodeID)
    (contentType : Nat) (s : Publisher) : SeqNo × Publisher :=
  let (core, newSeq) := Core.publishData cfg.core m id s.core
  let data : Data :=
    { name := PubSub.getDataName cfg.syncPrefix ⟨Core.targetNode cfg.core id, newSeq⟩
      contentType := contentType, content := content }
  (newSeq, { s with core := core, dataStore := s.dataStore ++ [data], put := s.put ++ [data] })

/-- `SVSyncBase::insertDataSegment`. -/
def insertDataSegment (cfg : PublisherConfig) (content : List UInt8) (nid : NodeID) (seq : SeqNo)
    (segNo : Nat) (finalBlock : Component) (contentType : Nat) (s : Publisher) : Publisher :=
  let data : Data :=
    { name := PubSub.getSegmentName cfg.syncPrefix ⟨nid, seq⟩ (.ofNat segNo)
      contentType := contentType, content := content, finalBlock := some finalBlock }
  { s with dataStore := s.dataStore ++ [data] }

/-- `SVSPubSub::publishPacket`. -/
def publishPacket (cfg : PublisherConfig) (m : Moment) (now : UInt64) (data : Data)
    (nodePrefix : Name) (mappingBlocks : List Block) (s : Publisher) : SeqNo × Publisher :=
  let nid := Core.targetNode cfg.core nodePrefix
  let (seqNo, s) := publishData cfg m (cfg.wireEncode data) nid tlv.Data s
  (seqNo, { s with
    pubSub := s.pubSub.insertMapping cfg.pubSub now nid seqNo data.name mappingBlocks })

/-- The segment of a value that a round of the loop encapsulates. -/
def segment (name : Name) (value : List UInt8) (finalBlock : Component) (i : Nat) : Data where
  name := ⟨name.components ++ [⟨54, [0]⟩, ⟨50, Codec.integerBytes (.ofNat i)⟩]⟩
  content := (value.drop (i * MAX_DATA_SIZE)).take (min (value.length - i * MAX_DATA_SIZE) MAX_DATA_SIZE)
  finalBlock := some finalBlock

/-- `SVSPubSub::publish`.  The value of a small publication is published without the
    argument `mappingBlocks`, so with the default of `publishPacket`. -/
def publish (cfg : PublisherConfig) (m : Moment) (now : UInt64) (name : Name) (value : List UInt8)
    (nodePrefix : Name) (mappingBlocks : List Block) (s : Publisher) : SeqNo × Publisher :=
  if MAX_DATA_SIZE < value.length then
    let nSegments := value.length / MAX_DATA_SIZE + 1
    let finalBlock : Component := ⟨50, Codec.integerBytes (.ofNat (nSegments - 1))⟩
    let nid := Core.targetNode cfg.core nodePrefix
    let seqNo := Core.getSeqNo cfg.core nid s.core + 1
    -- the segments are stored, and not given to the face
    let s := (List.range nSegments).foldl
      (fun s i =>
        let content := cfg.wireEncode (segment name value finalBlock i)
        insertDataSegment cfg content nid seqNo i finalBlock tlv.Data s)
      s
    (seqNo, { s with
      pubSub := s.pubSub.insertMapping cfg.pubSub now nid seqNo name mappingBlocks
      core := Core.updateSeqNo cfg.core m seqNo nid s.core })
  else publishPacket cfg m now { name := name, content := value } nodePrefix [] s

/-- What `publish` calls for a value that it segments. -/
inductive Call
  | insertDataSegment (content : List UInt8) (nid : NodeID) (seq : SeqNo) (segNo : Nat)
      (finalBlock : Component) (contentType : Nat)
  | insertMapping (nid : NodeID) (seqNo : SeqNo) (name : Name) (mappingBlocks : List Block)
  | updateSeqNo (seq : SeqNo) (nid : NodeID)
deriving DecidableEq

/-- One of the calls. -/
def Call.perform (cfg : PublisherConfig) (m : Moment) (now : UInt64) (call : Call) (s : Publisher) :
    Publisher :=
  match call with
  | .insertDataSegment content nid seq segNo finalBlock contentType =>
    Publisher.insertDataSegment cfg content nid seq segNo finalBlock contentType s
  | .insertMapping nid seqNo name mappingBlocks =>
    { s with pubSub := s.pubSub.insertMapping cfg.pubSub now nid seqNo name mappingBlocks }
  | .updateSeqNo seq nid => { s with core := Core.updateSeqNo cfg.core m seq nid s.core }

/-- The calls in their order, for a value that is larger than `MAX_DATA_SIZE`. -/
def publishCalls (cfg : PublisherConfig) (name : Name) (value : List UInt8) (nodePrefix : Name)
    (mappingBlocks : List Block) (s : Publisher) : List Call :=
  let nSegments := value.length / MAX_DATA_SIZE + 1
  let finalBlock : Component := ⟨50, Codec.integerBytes (.ofNat (nSegments - 1))⟩
  let nid := Core.targetNode cfg.core nodePrefix
  let seqNo := Core.getSeqNo cfg.core nid s.core + 1
  (List.range nSegments).map (fun i =>
    .insertDataSegment (cfg.wireEncode (segment name value finalBlock i)) nid seqNo i finalBlock
      tlv.Data) ++
    [.insertMapping nid seqNo name mappingBlocks, .updateSeqNo seqNo nid]

end Publisher

end Svs
