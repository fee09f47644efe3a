import Svs.Native.Sync
import Svs.Native.MappingProvider

/-!
# Receiving a Sync Interest

`onSyncInterestValidated` from the bytes of the `ApplicationParameters` on: decode
the state vector, hand the mapping block to the application, process the vector.
-/

namespace Svs

open Std

namespace VersionVector

/-- The entry in a `StateVectorEntry` block: its first element as a name, its second as
    an integer. -/
def decodeEntry (codec : Codec) (entry : Block) : Decoded (NodeID × SeqNo) := do
  if entry.type ≠ tlv.StateVectorEntry then throw .tlvError
  let elements ← orTlvError (codec.elements entry.value)
  let nodeId ← orTlvError (codec.decodeName (← elementAt elements 0))
  let seqNo ← orTlvError (codec.readNonNegativeInteger (← elementAt elements 1))
  return (nodeId, seqNo)

/-- One round of the loop of the decoder. -/
def decodeElement (codec : Codec) (vv : VersionVector) (entry : Block) :
    Decoded VersionVector := do
  let (nodeId, seqNo) ← decodeEntry codec entry
  return { vv with map := vv.map.insert nodeId seqNo }

/-- `VersionVector(const Block&)`. -/
def decode (codec : Codec) (block : Block) : Decoded VersionVector := do
  if block.type ≠ tlv.StateVector then throw .tlvError
  let entries ← orTlvError (codec.elements block.value)
  entries.foldlM (decodeElement codec) empty

end VersionVector

/-- What `onSyncInterestValidated` reads of an Interest. -/
structure SyncInterest where
  /-- The value of the `ApplicationParameters`, if there are any. -/
  applicationParameters : Option (List UInt8)
  /-- The `IncomingFaceIdTag`, if the Interest has one. -/
  incomingFaceId : Option UInt64

/-- The state that a received Sync Interest may change. -/
structure Receiver where
  core : Core
  mappings : MappingStore

/-- `RecvExtraBlockCallback`: the new store and the exception it throws, if any. -/
abbrev RecvExtraBlockCallback :=
  Block → VersionVector → MappingStore → MappingStore × Option Exception

/-- How `onSyncInterestValidated` ends: the state it leaves, what it did to the outside,
    and the exception that escapes it, if any. -/
structure Outcome where
  receiver : Receiver
  effects : List Effect := []
  escaped : Option Exception := none

namespace Receiver

/-- The state vector of the parameters. -/
def decodeStateVector (codec : Codec) (params : List Block) : Decoded VersionVector := do
  VersionVector.decode codec (← getElement params tlv.StateVector)

/-- The call of `m_recvExtraBlock`, whose exceptions are dropped. -/
def recvExtraBlock (callback : Option RecvExtraBlockCallback) (params : List Block)
    (vvOther : VersionVector) (store : MappingStore) : MappingStore :=
  match callback, getElement params tlv.MappingData with
  | some f, .ok block => (f block vvOther store).1
  | _, _ => store

/-- `SVSPubSub` passes `onRecvExtraData`, which throws nothing, for the callback. -/
def pubSubCallback (codec : Codec) : RecvExtraBlockCallback :=
  fun block _ store => (store.onRecvExtraData codec block, none)

/-- `onSyncInterestValidated`, built without compression.  The store and the core are
    apart, so the mapping block can be read before the vector is processed. -/
def onSyncInterestValidated (codec : Codec) (P : Platform) (cfg : Config)
    (callback : Option RecvExtraBlockCallback) (m : Moment) (interest : SyncInterest)
    (r : Receiver) : Outcome :=
  let incomingFace := interest.incomingFaceId.getD 0
  match interest.applicationParameters with
  | none => { receiver := r }
  | some bytes =>
    -- `params.parse()` stands outside of any `try`
    match orTlvError (codec.elements bytes) with
    | .error e => { receiver := r, escaped := some e }
    | .ok params =>
      match decodeStateVector codec params with
      | .error .tlvError => { receiver := r }
      | .error e => { receiver := r, escaped := some e }
      | .ok vvOther =>
        let (core, effects) := Core.processVector P cfg m vvOther incomingFace r.core
        { receiver := { core, mappings := recvExtraBlock callback params vvOther r.mappings }
          effects }

end Receiver

end Svs
