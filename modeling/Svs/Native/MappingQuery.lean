import Svs.Native.PubSub

/-!
# Mapping queries

The name of a query, the provider that answers it, and the two lambdas that take the
Data.  Neither lambda catches anything, so what they call may throw through them.
-/

namespace Svs

/-- `Component::toNumber`. -/
def Component.toNumber (c : Component) : Option UInt64 :=
  Codec.packetFormat.readNonNegativeInteger c.block

namespace MappingProvider

/-- The component `MAPPING`. -/
def MAPPING : Name := .ofBytes [[77, 65, 80, 80, 73, 78, 71]]

/-- `MappingProvider::getMappingQueryDataName`. -/
def getMappingQueryDataName (syncPrefix : Name) (info : MissingDataInfo) : Name :=
  (((info.nodeId.append syncPrefix).append MAPPING).appendNumber info.low).appendNumber info.high

/-- `MappingProvider::parseMappingQueryDataName`; `none` stands for an exception.  The
    incoming face is not set. -/
def parseMappingQueryDataName (syncPrefix : Name) (uninitialized : UInt64) (name : Name) :
    Option MissingDataInfo := do
  let low ← (← name.get (-2)).toNumber
  let high ← (← name.get (-1)).toNumber
  let nodeId := name.getPrefix (-3 - (syncPrefix.components.length : Int))
  return { nodeId := nodeId, low := low, high := high, incomingFace := uninitialized }

/-- `MappingProvider::onMappingQuery` for the name of an Interest: the Data that is put, if
    one is.  `none` when the name does not parse, or the loop makes more rounds. -/
def onMappingQuery (syncPrefix : Name) (uninitialized : UInt64) (name : Name) (store : MappingStore)
    (rounds : Nat) : Option (Option Data) := do
  let query ← parseMappingQueryDataName syncPrefix uninitialized name
  let (_, queryResponse) ← Loop.run (store.onMappingQueryRound query) rounds
    (query.low, some { nodeId := query.nodeId })
  return (queryResponse.filter (·.pairs ≠ [])).map fun queryResponse =>
    { name := name, content := queryResponse.encode }

end MappingProvider

namespace PubSub

/-- The callback of `fetchNameMapping` in `updateCallbackInternal`, and the exception that
    escapes it. -/
def onMappingList (cfg : PubSubConfig) (now : UInt64) (streamName : NodeID) :
    List (SeqNo × MappingEntryPair) → (queued : Bool) → PubSub → PubSub × Option Exception
  | [], queued, s => (if queued then s.fetchAll cfg else s, none)
  | (seq, _) :: pairs, queued, s =>
    match processMapping cfg now ⟨streamName, seq⟩ s with
    | .ok (q, s) => onMappingList cfg now streamName pairs (queued || q) s
    | .error e => (s, some e)

/-- The list in the content of a mapping reply. -/
def decodeReply (data : Data) : Decoded MappingList := do
  MappingList.decode .packetFormat (← orTlvError (blockFromValue data.content))

/-- `onDataValidated` in `fetchNameMapping`, and the exception that escapes it. -/
def onDataValidated (cfg : PubSubConfig) (now : UInt64) (info : MissingDataInfo) (data : Data)
    (s : PubSub) : PubSub × Option Exception :=
  match decodeReply data with
  | .error e => (s, some e)
  | .ok list =>
    onMappingList cfg now info.nodeId list.pairs false
      { s with mappings := s.mappings.addMappings info.nodeId list.pairs }

end PubSub

end Svs
