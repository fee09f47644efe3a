import Svs.ForStd.Loop
import Svs.Native.Core
import Svs.Native.Encoder
import Svs.Native.Fetcher

/-!
# `SVSPubSub`

The members of `SVSPubSub` with the two fetchers below them, the one of `SVSyncBase` for
publications and the one of `MappingProvider` for mappings.  `step` is one call of the
application, one callback of the face or of a validator, or one update of the core.

`log` records what is appended to `m_fetchMap` and erased from it, and which callbacks
are called.  Callbacks of the application are taken to return.
-/

namespace Svs

open Std

namespace tlv

/-- `ndn::tlv::Data`, the type of a block and of a content. -/
def Data : Nat := 6

/-- `ndn::tlv::TimestampNameComponent`. -/
def TimestampNameComponent : Nat := 56

end tlv

namespace Name

/-- `Name::isPrefixOf`. -/
def isPrefixOf (a b : Name) : Bool := a.components.isPrefixOf b.components

/-- `Name::get`; a negative index counts from the end.  `none` stands for a read outside of
    the name, which is undefined. -/
def get (n : Name) : Int → Option Component
  | .ofNat k => n.components[k]?
  | .negSucc k =>
    if n.components.length < k + 1 then none else n.components[n.components.length - (k + 1)]?

/-- `Name::append`. -/
def append (a b : Name) : Name := ⟨a.components ++ b.components⟩

/-- `Name::appendNumber`. -/
def appendNumber (n : Name) (i : UInt64) : Name := Codec.packetFormat.appendNumber n i

/-- `Name::getPrefix`.  A negative number counts from the end; where the name is shorter
    than that the sum wraps around, and the whole name is the prefix. -/
def getPrefix (n : Name) : Int → Name
  | .ofNat k => ⟨n.components.take k⟩
  | .negSucc k =>
    if n.components.length < k + 1 then n else ⟨n.components.take (n.components.length - (k + 1))⟩

end Name

/-- `ndn::Data`. -/
structure Data where
  name : Name
  contentType : Nat := 0
  content : List UInt8 := []
  finalBlock : Option Component := none
deriving DecidableEq, Repr

/-- A key of `m_fetchMap`. -/
structure Publication where
  nodeId : NodeID
  seqNo : SeqNo
deriving DecidableEq, Repr

namespace Publication

/-- `std::pair` compares the first members, then the second ones. -/
def key (p : Publication) : NodeID ×ₗ ℕ := toLex (p.nodeId, p.seqNo.toNat)

theorem key_injective : Function.Injective key := by
  rintro ⟨n, s⟩ ⟨n', s'⟩ h
  simp only [key, EmbeddingLike.apply_eq_iff_eq, Prod.mk.injEq] at h
  obtain ⟨rfl, hs⟩ := h
  rw [UInt64.toNat_inj.mp hs]

instance : LinearOrder Publication := LinearOrder.lift' key key_injective

instance : TransOrd Publication := inferInstance

end Publication

/-- A callback that the application registers, named by the registration. -/
structure Callback where
  /-- How many registrations came before it. -/
  registration : Nat
  /-- Whether `subscribeToProducer` registered it. -/
  toProducer : Bool
deriving DecidableEq, Repr

/-- `SVSPubSub::Subscription`. -/
structure Subscription where
  id : UInt32
  pref : Name
  callback : Callback
  isPacketSubscription : Bool
  prefetch : Bool
deriving DecidableEq, Repr

/-- `SVSPubSub::SubscriptionData`. -/
structure SubscriptionData where
  name : Name
  data : List UInt8
  producerPrefix : Name
  seqNo : SeqNo
  packet : Option Data
deriving DecidableEq, Repr

/-- What `SVSPubSub` does that the log records. -/
inductive PubSub.Effect
  /-- The subscription is appended to the publication's entry of `m_fetchMap`. -/
  | queued (sub : Subscription) (publication : Publication)
  /-- The callback of the subscription is called. -/
  | called (sub : Subscription) (subData : SubscriptionData)
  /-- The publication's entry is erased from `m_fetchMap`. -/
  | erased (publication : Publication) (subs : List Subscription)
  /-- `m_onUpdate` is called. -/
  | updated (info : List MissingDataInfo)
deriving DecidableEq

/-- What a call of `SVSyncBase::fetchData` is for. -/
inductive DataRequest
  /-- The first packet of a publication, for `onSyncData`. -/
  | fetch (publication : Publication)
  /-- A prefetch, whose callback does nothing. -/
  | prefetch (nodeId : NodeID) (seqNo : SeqNo)
deriving DecidableEq

/-- The packets that a `SegmentFetcher` has reassembled, while they are being validated.
    `remaining` are the elements that the loop has not come to. -/
structure Blob where
  publication : Publication
  innerName : Name
  finalBuffer : List UInt8 := []
  remaining : List Block
  /-- Validations that have not been answered. -/
  unanswered : Nat := 0
  numValidated : Nat := 0
  numFailed : Nat := 0
deriving DecidableEq, Repr

/-- Every element is still to come, or is being validated, or has been. -/
def Blob.numElem (b : Blob) : Nat :=
  b.remaining.length + b.unanswered + b.numValidated + b.numFailed

/-- The validator accepts an element, or rejects it. -/
def Blob.answer (b : Blob) (accepted : Bool) : Blob :=
  if accepted then { b with numValidated := b.numValidated + 1 }
  else { b with numFailed := b.numFailed + 1 }

/-- The loop copies the content of an element, and `elements` are left. -/
def Blob.copy (b : Blob) (content : List UInt8) (elements : List Block) : Blob :=
  { b with finalBuffer := b.finalBuffer ++ content, remaining := elements }

/-- What `onSyncData` is waiting for. -/
inductive FetchTask
  /-- The validator's answer for the encapsulated packet, which did not come at once. -/
  | validation (publication : Publication)
  /-- A `SegmentFetcher`, and the name it fetches. -/
  | segments (publication : Publication) (pubName : Name)
  /-- The validations of the reassembled packets. -/
  | blob (b : Blob)
deriving DecidableEq

/-- `SVSPubSubOptions`; the age is in milliseconds. -/
structure SVSPubSubOptions where
  useTimestamp : Bool := true
  maxPubAge : Int := 0

/-- The constructor's options, and the decoder of packets in ndn-cxx. -/
structure PubSubConfig where
  opts : SVSPubSubOptions := {}
  securityOptions : SecurityOptions := {}
  /-- `Data(const Block&)`. -/
  decodeData : Block → Option Data

/-- The members of `SVSPubSub`.  The constructor does not set `m_subscriptionCount`. -/
structure PubSub where
  subscriptionCount : UInt32
  registrations : Nat := 0
  producerSubscriptions : List Subscription := []
  prefixSubscriptions : List Subscription := []
  /-- `m_map` of `m_mappingProvider`. -/
  mappings : MappingStore := ∅
  notificationMappingList : MappingList := {}
  fetchMap : ExtTreeMap Publication (List Subscription) := ∅
  fetchingMap : ExtTreeMap Publication Bool := ∅
  /-- The fetcher of `m_svsync`. -/
  dataFetcher : Fetcher DataRequest Data := {}
  /-- The fetcher of `m_mappingProvider`. -/
  mappingFetcher : Fetcher MissingDataInfo Data := {}
  taskCounter : Nat := 0
  tasks : List (Nat × FetchTask) := []
  log : List PubSub.Effect := []

/-- `blockFromValue` of the content: one block and nothing after it. -/
def blockFromValue (content : List UInt8) : Option Block :=
  match Codec.readBlock content with
  | some (block, []) => some block
  | _ => none

/-- More rounds than this no loop over sequence numbers makes: a round allocates, or reads
    an entry of a map for itself, of more than 16 bytes, and there are `2 ^ 64` bytes. -/
def memoryLimit : Nat := 2 ^ 60

namespace MappingStore

/-- `MappingProvider::getMapping`; `none` stands for the exception. -/
def getMapping (p : Publication) (store : MappingStore) : Option MappingEntryPair :=
  store[Codec.packetFormat.appendNumber p.nodeId p.seqNo]?

/-- The loop of `onDataValidated` in `fetchNameMapping`: a mapping that is there stays. -/
def addMappings (nodeId : NodeID) (pairs : List (SeqNo × MappingEntryPair)) (store : MappingStore) :
    MappingStore :=
  pairs.foldl
    (fun store p =>
      match getMapping ⟨nodeId, p.1⟩ store with
      | some _ => store
      | none => store.insertMapping .packetFormat nodeId p.1 p.2)
    store

/-- The round of the loop of `onMappingQuery`.  The second member is the response, and
    `none` when a mapping is missing. -/
def onMappingQueryRound (query : MissingDataInfo) (store : MappingStore) :
    SeqNo × Option MappingList → Option (SeqNo × Option MappingList)
  | (_, none) => none
  | (i, some queryResponse) =>
    if i ≤ max query.high query.low then
      match getMapping ⟨query.nodeId, i⟩ store with
      | some mapping =>
        some (i + 1, some { queryResponse with pairs := queryResponse.pairs ++ [(i, mapping)] })
      | none => some (i, none)
    else none

/-- `MappingProvider::onMappingQuery`: the list that is sent back, if one is. -/
def onMappingQuery (query : MissingDataInfo) (store : MappingStore) : Option MappingList := do
  let (_, queryResponse) ← Loop.run (onMappingQueryRound query store) memoryLimit
    (query.low, some { nodeId := query.nodeId })
  let queryResponse ← queryResponse
  if queryResponse.pairs = [] then none else some queryResponse

end MappingStore

namespace PubSub

/-! ## Subscriptions -/

/-- `SVSPubSub::subscribe`. -/
def subscribe (pref : Name) (packets : Bool) (s : PubSub) : PubSub :=
  let handle := s.subscriptionCount + 1
  let sub : Subscription :=
    { id := handle, pref := pref, callback := ⟨s.registrations, false⟩
      isPacketSubscription := packets, prefetch := false }
  { s with subscriptionCount := handle, registrations := s.registrations + 1
           prefixSubscriptions := s.prefixSubscriptions ++ [sub] }

/-- `SVSPubSub::subscribeToProducer`. -/
def subscribeToProducer (nodePrefix : Name) (prefetch packets : Bool) (s : PubSub) : PubSub :=
  let handle := s.subscriptionCount + 1
  let sub : Subscription :=
    { id := handle, pref := nodePrefix, callback := ⟨s.registrations, true⟩
      isPacketSubscription := packets, prefetch := prefetch }
  { s with subscriptionCount := handle, registrations := s.registrations + 1
           producerSubscriptions := s.producerSubscriptions ++ [sub] }

/-- `SVSPubSub::unsubscribe`. -/
def unsubscribe (handle : UInt32) (s : PubSub) : PubSub :=
  { s with producerSubscriptions := s.producerSubscriptions.eraseP (·.id = handle)
           prefixSubscriptions := s.prefixSubscriptions.eraseP (·.id = handle) }

/-! ## Mappings -/

/-- `Name::Component::fromNumber` with the type of a time stamp, as a block. -/
def timestampBlock (now : UInt64) : Block where
  type := tlv.TimestampNameComponent
  value := Codec.integerBytes now

/-- `SVSPubSub::insertMapping`, which both ways to publish call. -/
def insertMapping (cfg : PubSubConfig) (now : UInt64) (nid : NodeID) (seqNo : SeqNo) (name : Name)
    (additional : List Block) (s : PubSub) : PubSub :=
  let additional := if cfg.opts.useTimestamp then additional ++ [timestampBlock now] else additional
  let entry : MappingEntryPair := { name := name, blocks := additional }
  let list := s.notificationMappingList
  -- the list that the next Sync Interest carries is of one node
  let notify := list.nodeId = EMPTY_NODE_ID ∨ list.nodeId = nid
  { s with
    notificationMappingList :=
      if notify then { nodeId := nid, pairs := list.pairs ++ [(seqNo, entry)] } else list
    mappings := s.mappings.insertMapping .packetFormat nid seqNo entry }

/-- `SVSPubSub::onGetExtraData`. -/
def onGetExtraData (s : PubSub) : PubSub × List UInt8 :=
  ({ s with notificationMappingList := {} }, s.notificationMappingList.encode)

/-- `SVSPubSub::onRecvExtraData`. -/
def onRecvExtraData (block : Block) (s : PubSub) : PubSub :=
  { s with mappings := s.mappings.onRecvExtraData .packetFormat block }

/-! ## Queueing -/

/-- The list that `m_fetchMap[publication]` reads. -/
def subscribers (p : Publication) (s : PubSub) : List Subscription := s.fetchMap[p]?.getD []

/-- `m_fetchMap[publication].push_back(sub)`. -/
def queue (p : Publication) (s : PubSub) (sub : Subscription) : PubSub :=
  { s with fetchMap := s.fetchMap.insert p (s.subscribers p ++ [sub])
           log := s.log ++ [.queued sub p] }

/-- The loop over the blocks in `processMapping`.  The count of microseconds is read as
    unsigned. -/
def tooOld (maxPubAge : Int) (now : UInt64) : List Block → Decoded Bool
  | [] => .ok false
  | block :: blocks =>
    if block.type ≠ tlv.TimestampNameComponent then tooOld maxPubAge now blocks
    else do
      let pubTime ← orTlvError (Codec.packetFormat.readNonNegativeInteger block)
      let maxAge := UInt64.ofInt (maxPubAge * 1000)
      if now - pubTime > maxAge then .ok true else tooOld maxPubAge now blocks

/-- The check of the time stamps in `processMapping`. -/
def expired (cfg : PubSubConfig) (now : UInt64) (blocks : List Block) : Decoded Bool :=
  if 0 < cfg.opts.maxPubAge then tooOld cfg.opts.maxPubAge now blocks else .ok false

/-- `SVSPubSub::processMapping`, and whether it queued the publication. -/
def processMapping (cfg : PubSubConfig) (now : UInt64) (p : Publication) (s : PubSub) :
    Decoded (Bool × PubSub) :=
  match s.mappings.getMapping p with
  | none => .error .outOfRange
  | some mapping => do
    -- an old publication is skipped, and counts as processed
    if ← expired cfg now mapping.blocks then return (false, s)
    let matching := s.prefixSubscriptions.filter fun sub => sub.pref.isPrefixOf mapping.name
    return (!matching.isEmpty, matching.foldl (queue p) s)

/-- `SVSyncBase::fetchData`. -/
def fetchData (cfg : PubSubConfig) (request : DataRequest) (nRetries : Int) (s : PubSub) : PubSub :=
  { s with dataFetcher := s.dataFetcher.expressInterest cfg.securityOptions request nRetries }

/-- The round of the loop of `fetchAll`. -/
def fetchOne (cfg : PubSubConfig) (s : PubSub) (key : Publication) : PubSub :=
  -- the key counts, also where its value is `false`
  if key ∈ s.fetchingMap then s
  else fetchData cfg (.fetch key) 12 { s with fetchingMap := s.fetchingMap.insert key true }

/-- `SVSPubSub::fetchAll`. -/
def fetchAll (cfg : PubSubConfig) (s : PubSub) : PubSub :=
  s.fetchMap.keys.foldl (fetchOne cfg) s

/-! ## Updates -/

/-- The round of the loop that queues a producer subscription. -/
def queueRound (stream : MissingDataInfo) (sub : Subscription) :
    SeqNo × PubSub → Option (SeqNo × PubSub)
  | (i, s) => if i ≤ stream.high then some (i + 1, s.queue ⟨stream.nodeId, i⟩ sub) else none

/-- The round of the loop over the producer subscriptions. -/
def updateProducer (cfg : PubSubConfig) (stream : MissingDataInfo) (s : PubSub)
    (sub : Subscription) : Option PubSub := do
  if sub.pref.isPrefixOf stream.nodeId then
    let (_, s) ← Loop.run (queueRound stream sub) memoryLimit (stream.low, s)
    return if sub.prefetch then fetchData cfg (.prefetch stream.nodeId (stream.high + 1)) 0 s else s
  else return s

/-- The round of the loop over what is already known, where the exception leaves the loop.
    The loop's `i` and `remainingInfo.low` run in step. -/
def knownRound (cfg : PubSubConfig) (now : UInt64) (stream : MissingDataInfo) :
    SeqNo × PubSub → Option (SeqNo × PubSub)
  | (low, s) =>
    if low ≤ stream.high then
      match processMapping cfg now ⟨stream.nodeId, low⟩ s with
      | .ok (_, s) => some (low + 1, s)
    -- no mapping, or one whose time stamp is no number
      | .error _ => none
    else none

/-- `truncatedRemainingInfo`. -/
def truncate (info : MissingDataInfo) : MissingDataInfo :=
  if info.high - info.low > 10 then { info with high := info.low + 10 } else info

/-- `MappingProvider::fetchNameMapping`. -/
def fetchNameMapping (cfg : PubSubConfig) (info : MissingDataInfo) (nRetries : Int) (s : PubSub) :
    PubSub :=
  { s with mappingFetcher := s.mappingFetcher.expressInterest cfg.securityOptions info nRetries }

/-- The round of the loop that requests the rest. -/
def requestRound (cfg : PubSubConfig) (stream : MissingDataInfo) :
    SeqNo × PubSub → Option (SeqNo × PubSub)
  | (low, s) =>
    if stream.high ≥ low then
      some (low + 11, fetchNameMapping cfg (truncate { stream with low := low }) (-1) s)
    else none

/-- What `updateCallbackInternal` does for the prefix subscriptions. -/
def updatePrefix (cfg : PubSubConfig) (now : UInt64) (stream : MissingDataInfo) (s : PubSub) :
    Option PubSub := do
  if s.prefixSubscriptions = [] then return s
  -- what a Sync Interest has brought along first, then requests for the rest
  let (low, s) ← Loop.run (knownRound cfg now stream) memoryLimit (stream.low, s)
  let (_, s) ← Loop.run (requestRound cfg stream) memoryLimit (low, s)
  return s

/-- The round of the loop over the streams. -/
def updateStream (cfg : PubSubConfig) (now : UInt64) (s : PubSub) (stream : MissingDataInfo) :
    Option PubSub := do
  let s ← s.producerSubscriptions.foldlM (updateProducer cfg stream) s
  updatePrefix cfg now stream s

/-- `SVSPubSub::updateCallbackInternal`; `none` when it does not return. -/
def updateCallbackInternal (cfg : PubSubConfig) (now : UInt64) (info : List MissingDataInfo)
    (s : PubSub) : Option PubSub := do
  let s ← info.foldlM (updateStream cfg now) s
  let s := s.fetchAll cfg
  return { s with log := s.log ++ [.updated info] }

/-- The callback of `fetchNameMapping` in `updateCallbackInternal`, along the list.  An
    exception leaves it with what it has queued. -/
def processMappings (cfg : PubSubConfig) (now : UInt64) (streamName : NodeID) :
    List (SeqNo × MappingEntryPair) → (queued : Bool) → PubSub → PubSub
  | [], queued, s => if queued then s.fetchAll cfg else s
  | (seq, _) :: pairs, queued, s =>
    match processMapping cfg now ⟨streamName, seq⟩ s with
    | .ok (q, s) => processMappings cfg now streamName pairs (queued || q) s
    | .error _ => s

/-- The list in a mapping reply. -/
def mappingListOf (data : Data) : Option MappingList := do
  let block ← blockFromValue data.content
  (MappingList.decode .packetFormat block).toOption

/-- `onDataValidated` in `fetchNameMapping`. -/
def onMappingData (cfg : PubSubConfig) (now : UInt64) (info : MissingDataInfo) (data : Data)
    (s : PubSub) : PubSub :=
  match mappingListOf data with
  | none => s
  | some list =>
    processMappings cfg now info.nodeId list.pairs false
      { s with mappings := s.mappings.addMappings info.nodeId list.pairs }

/-! ## Delivery -/

/-- `SVSPubSub::cleanUpFetch`. -/
def cleanUpFetch (p : Publication) (s : PubSub) : PubSub :=
  { s with fetchMap := s.fetchMap.erase p
           fetchingMap := s.fetchingMap.erase p
           log := s.log ++ [.erased p (s.subscribers p)] }

/-- The loop over `m_fetchMap[publication]` with a call of every chosen callback; the
    reading creates the entry if there is none. -/
def callAll (p : Publication) (chosen : Subscription → Bool) (subData : SubscriptionData)
    (s : PubSub) : PubSub :=
  { s with fetchMap := s.fetchMap.insert p (s.subscribers p)
           log := s.log ++ ((s.subscribers p).filter chosen).map (.called · subData) }

/-- Starts waiting for something. -/
def await (task : FetchTask) (s : PubSub) : PubSub :=
  { s with taskCounter := s.taskCounter + 1, tasks := s.tasks ++ [(s.taskCounter, task)] }

/-- `returnData` in `onSyncData`. -/
def returnData (p : Publication) (firstData innerData : Data) (s : PubSub) : PubSub :=
  let subData : SubscriptionData :=
    { name := innerData.name, data := innerData.content, producerPrefix := p.nodeId
      seqNo := p.seqNo, packet := some innerData }
  let hasFinalBlock := innerData.finalBlock.isSome
  let hasBlobSubscriptions := (s.subscribers p).any (!·.isPacketSubscription)
  let s := s.callAll p (fun sub => sub.isPacketSubscription || !hasFinalBlock) subData
  -- the name without version and segment number
  if hasBlobSubscriptions && hasFinalBlock && decide (2 < firstData.name.components.length) then
    s.await (.segments p (firstData.name.getPrefix (-2)))
  else s.cleanUpFetch p

/-- `SVSPubSub::onSyncData`.  When the content does not decode, the exception leaves it
    with nothing done.  `answer` is what the validator says of the encapsulated packet
    before `validate` returns, if it says anything by then.  The callback for success reads
    the local `returnData` through a reference, and can be called until then only. -/
def onSyncData (cfg : PubSubConfig) (p : Publication) (firstData : Data) (answer : Option Bool)
    (s : PubSub) : PubSub :=
  -- the publication stays marked
  if firstData.contentType ≠ tlv.Data then
    { s with fetchingMap := s.fetchingMap.insert p false }
  else
    match (blockFromValue firstData.content).bind cfg.decodeData with
    | none => s
    | some innerData =>
      if cfg.securityOptions.hasEncapsulatedDataValidator then
        match answer with
        | some true => s.returnData p firstData innerData
        -- the callback for failure is empty
        | some false => s
        | none => s.await (.validation p)
      else s.returnData p firstData innerData

/-- `sendFinalBuffer`. -/
def sendFinalBuffer (b : Blob) (s : PubSub) : PubSub :=
  -- some elements have not been answered for
  if b.numValidated + b.numFailed ≠ b.numElem then s
  else if 0 < b.numFailed then s.cleanUpFetch b.publication
  else
    let subData : SubscriptionData :=
      { name := b.innerName, data := b.finalBuffer, producerPrefix := b.publication.nodeId
        seqNo := b.publication.seqNo, packet := none }
    (s.callAll b.publication (!·.isPacketSubscription) subData).cleanUpFetch b.publication

/-- A blob whose validations have not all been answered is kept. -/
def keepBlob (b : Blob) (s : PubSub) : PubSub :=
  if b.unanswered = 0 then s else s.await (.blob b)

/-- The loop over the elements, and what comes after it.  The validator's answers are
    given during the loop, or later (`none`). -/
def validateElements (cfg : PubSubConfig) :
    List Block → (answers : List (Option Bool)) → Blob → PubSub → PubSub
  | [], _, b, s => (s.sendFinalBuffer b).keepBlob b
  | element :: elements, answers, b, s =>
    match cfg.decodeData element with
    -- the exception leaves the loop, but the validator may still answer for earlier elements
    | none => (s.cleanUpFetch b.publication).keepBlob b
    | some innerData =>
      let b := b.copy innerData.content elements
      if cfg.securityOptions.hasEncapsulatedDataValidator then
        match answers.headD none with
        | some accepted =>
          let b := b.answer accepted
          validateElements cfg elements answers.tail b (s.sendFinalBuffer b)
        | none =>
          validateElements cfg elements answers.tail { b with unanswered := b.unanswered + 1 } s
      else validateElements cfg elements answers.tail { b with numValidated := b.numValidated + 1 } s

/-- The callback of `onComplete`. -/
def onComplete (cfg : PubSubConfig) (p : Publication) (data : List UInt8)
    (answers : List (Option Bool)) (s : PubSub) : PubSub :=
  match Codec.packetFormat.elements data with
  -- `parse` throws
  | none => s.cleanUpFetch p
  | some [] => s.cleanUpFetch p
  | some (element :: elements) =>
    match cfg.decodeData element with
    | none => s.cleanUpFetch p
    | some firstInner =>
      let b : Blob :=
        { publication := p, innerName := firstInner.name.getPrefix (-2)
          remaining := element :: elements }
      validateElements cfg (element :: elements) answers b s

/-! ## Runs -/

/-- What happens to a node. -/
inductive Event
  | subscribe (pref : Name) (packets : Bool)
  | subscribeToProducer (nodePrefix : Name) (prefetch packets : Bool)
  | unsubscribe (handle : UInt32)
  /-- `publish` or `publishPacket` enters the mapping of a new publication. -/
  | insertMapping (nid : NodeID) (seqNo : SeqNo) (name : Name) (additional : List Block)
  /-- The core sends a Sync Interest. -/
  | onGetExtraData
  /-- The core receives extra data with a Sync Interest. -/
  | onRecvExtraData (block : Block)
  /-- The core reports missing data. -/
  | update (info : List MissingDataInfo)
  /-- Something happens to an Interest for a publication.  `answer` is what the validator
      says at once of the encapsulated packet, if one is validated. -/
  | fetchData (e : FetchEvent Data) (answer : Option Bool)
  /-- Something happens to an Interest for mappings. -/
  | fetchMapping (e : FetchEvent Data)
  /-- The validator rejects an encapsulated packet when `onSyncData` has returned.  That it
      accepts one then is no event: the callback would call a closure that is gone, which
      is undefined. -/
  | validationFailed (task : Nat)
  /-- A segment fetcher completes.  `answers` are those that the validator gives at once. -/
  | segmentsComplete (task : Nat) (data : List UInt8) (answers : List (Option Bool))
  /-- A segment fetcher fails. -/
  | segmentsError (task : Nat)
  /-- The validator answers for one of the reassembled packets. -/
  | blobAnswer (task : Nat) (accepted : Bool)

/-- Stops waiting. -/
def takeTask (id : Nat) (s : PubSub) : Option (FetchTask × PubSub) :=
  (s.tasks.find? (·.1 = id)).map fun task =>
    (task.2, { s with tasks := s.tasks.eraseP (·.1 = id) })

/-- What the callbacks of a fetched publication do; only `afterSatisfied` does something. -/
def onDataOutcome (cfg : PubSubConfig) (answer : Option Bool) (s : PubSub) :
    Option (DataRequest × FetchOutcome Data) → PubSub
  | some (.fetch p, .satisfied data) => s.onSyncData cfg p data answer
  | _ => s

/-- What the callbacks of a fetched mapping do. -/
def onMappingOutcome (cfg : PubSubConfig) (now : UInt64) (s : PubSub) :
    Option (MissingDataInfo × FetchOutcome Data) → PubSub
  | some (info, .satisfied data) => s.onMappingData cfg now info data
  | _ => s

/-- One step, with the clock's microseconds.  A call of `updateCallbackInternal` that does
    not return is left out of the run; nothing could come after it.  An answer that nothing
    waits for does not come. -/
def step (cfg : PubSubConfig) (e : UInt64 × Event) (s : PubSub) : PubSub :=
  match e.2 with
  | .subscribe pref packets => s.subscribe pref packets
  | .subscribeToProducer nodePrefix prefetch packets =>
    s.subscribeToProducer nodePrefix prefetch packets
  | .unsubscribe handle => s.unsubscribe handle
  | .insertMapping nid seqNo name additional => s.insertMapping cfg e.1 nid seqNo name additional
  | .onGetExtraData => s.onGetExtraData.1
  | .onRecvExtraData block => s.onRecvExtraData block
  | .update info => (s.updateCallbackInternal cfg e.1 info).getD s
  | .fetchData event answer =>
    let (fetcher, outcome) := s.dataFetcher.step cfg.securityOptions event
    onDataOutcome cfg answer { s with dataFetcher := fetcher } outcome
  | .fetchMapping event =>
    let (fetcher, outcome) := s.mappingFetcher.step cfg.securityOptions event
    onMappingOutcome cfg e.1 { s with mappingFetcher := fetcher } outcome
  | .validationFailed task =>
    match s.takeTask task with
    | some (.validation _, s) => s
    | _ => s
  | .segmentsComplete task data answers =>
    match s.takeTask task with
    | some (.segments p _, s) => s.onComplete cfg p data answers
    | _ => s
  | .segmentsError task =>
    match s.takeTask task with
    | some (.segments p _, s) => s.cleanUpFetch p
    | _ => s
  | .blobAnswer task accepted =>
    match s.takeTask task with
    | some (.blob b, s) =>
      let b := Blob.answer { b with unanswered := b.unanswered - 1 } accepted
      (s.sendFinalBuffer b).keepBlob b
    | _ => s

end PubSub

end Svs
