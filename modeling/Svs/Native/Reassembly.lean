import Svs.Native.PubSub

/-!
# The buffer of `onComplete`

`SVSPubSub.onComplete` at the level of its memory: the buffer that is allocated at once,
the copies into it, and the counters that the closures share.  A call of the validator may
answer for its own element and for earlier ones, and the other answers come later.
-/

namespace Svs

/-- What the closures of `onComplete` share. -/
structure Assembly where
  publication : Publication
  innerName : Name
  numElem : Nat
  finalBuffer : List UInt8
  bufSize : Nat := 0
  numValidated : Nat := 0
  numFailed : Nat := 0
deriving DecidableEq, Repr

/-- `std::memcpy` to an offset of a buffer; `none` when it would write past the end. -/
def memcpy (buffer : List UInt8) (offset : Nat) (bytes : List UInt8) : Option (List UInt8) :=
  if offset + bytes.length ≤ buffer.length then
    some (buffer.take offset ++ bytes ++ buffer.drop (offset + bytes.length))
  else none

/-- `std::vector::resize`. -/
def resize (buffer : List UInt8) (size : Nat) : List UInt8 :=
  buffer.take size ++ List.replicate (size - buffer.length) 0

namespace Assembly

/-- `sendFinalBuffer`. -/
def sendFinalBuffer (a : Assembly) (s : PubSub) : Assembly × PubSub :=
  if a.numValidated + a.numFailed ≠ a.numElem then (a, s)
  else if 0 < a.numFailed then (a, s.cleanUpFetch a.publication)
  else
    let a := { a with finalBuffer := resize a.finalBuffer a.bufSize }
    let subData : SubscriptionData :=
      { name := a.innerName, data := a.finalBuffer, producerPrefix := a.publication.nodeId
        seqNo := a.publication.seqNo, packet := none }
    (a, (s.callAll a.publication (!·.isPacketSubscription) subData).cleanUpFetch a.publication)

/-- The callbacks that the validator is given, for success and for failure. -/
def answer (x : Assembly × PubSub) (accepted : Bool) : Assembly × PubSub :=
  if accepted then sendFinalBuffer { x.1 with numValidated := x.1.numValidated + 1 } x.2
  else sendFinalBuffer { x.1 with numFailed := x.1.numFailed + 1 } x.2

/-- The copy of an element's content; `none` when it does not fit. -/
def copy (content : List UInt8) (a : Assembly) : Option Assembly := do
  let finalBuffer ← memcpy a.finalBuffer a.bufSize content
  return { a with finalBuffer := finalBuffer, bufSize := a.bufSize + content.length }

/-- The loop over the elements, and the call of `sendFinalBuffer` after it.  `calls` has the
    answers that the validator gives during each of its calls. -/
def validateElements (cfg : PubSubConfig) :
    List Block → (calls : List (List Bool)) → Assembly × PubSub → Option (Assembly × PubSub)
  | [], _, x => some (sendFinalBuffer x.1 x.2)
  | element :: elements, calls, x =>
    match cfg.decodeData element with
    -- the exception leaves the loop, but the closures stay with the validator
    | none => some (x.1, x.2.cleanUpFetch x.1.publication)
    | some innerData =>
      match x.1.copy innerData.content with
      | none => none
      | some a =>
        if cfg.securityOptions.hasEncapsulatedDataValidator then
          validateElements cfg elements calls.tail ((calls.headD []).foldl answer (a, x.2))
        else
          validateElements cfg elements calls.tail ({ a with numValidated := a.numValidated + 1 }, x.2)

/-- The callback of `onComplete`, and what its closures share from there on, if there are
    any; `none` when a copy leaves the buffer. -/
def onComplete (cfg : PubSubConfig) (p : Publication) (data : List UInt8)
    (calls : List (List Bool)) (s : PubSub) : Option (Option Assembly × PubSub) :=
  match Codec.packetFormat.elements data with
  | none => some (none, s.cleanUpFetch p)
  | some [] => some (none, s.cleanUpFetch p)
  | some (element :: elements) =>
    match cfg.decodeData element with
    | none => some (none, s.cleanUpFetch p)
    | some firstInner =>
      let a : Assembly :=
        { publication := p, innerName := firstInner.name.getPrefix (-2)
          numElem := (element :: elements).length
          finalBuffer := List.replicate data.length 0 }
      (validateElements cfg (element :: elements) calls (a, s)).map fun x => (some x.1, x.2)

/-- What happens after the callback has returned. -/
inductive Later
  /-- The validator answers for one of the elements. -/
  | answer (accepted : Bool)
  /-- Something else happens to the node. -/
  | other (e : UInt64 × PubSub.Event)

/-- One step after the callback has returned. -/
def later (cfg : PubSubConfig) (event : Later) (x : Assembly × PubSub) : Assembly × PubSub :=
  match event with
  | .answer accepted => answer x accepted
  | .other e => (x.1, x.2.step cfg e)

end Assembly

end Svs
