import Svs.Native.Group

/-!
# Signed Sync Interests

`SVSyncCore::onSyncInterest` decides by the signer of the group what happens to a Sync
Interest before `onSyncInterestValidated`.  What `security::verifySignature` and the
validator say is an input; the validator may say it later.  It is given no callback for a
rejection, so that a rejection raises an exception.

In a `SecuredGroup` others take part who have no key of the group.  They see what is sent,
keep it, lose it, repeat it, and send what Sync Interests they like.
-/

namespace Svs

/-- `security::SigningInfo::SignerType`, as far as it makes a difference. -/
inductive SignerType
  | NULL
  | HMAC
  /-- All that the `default` of the switch takes. -/
  | other
deriving DecidableEq

/-- A Sync Interest on its way. -/
structure SignedInterest where
  /-- The value of the `ApplicationParameters`, if there are any. -/
  applicationParameters : Option (List UInt8)
  signature : List UInt8
deriving DecidableEq

/-- What `onSyncInterest` does with an Interest. -/
inductive Admission
  /-- `onSyncInterestValidated` is called. -/
  | validated
  /-- `m_securityOptions.validator` is asked, which calls it if it accepts, and else the
      empty function that it was given. -/
  | validating
  | dropped
deriving DecidableEq

namespace SVSyncCore

/-- `SVSyncCore::onSyncInterest`; `verified` is what `security::verifySignature` returns. -/
def onSyncInterest (signerType : SignerType) (hasValidator verified : Bool) : Admission :=
  match signerType with
  | .NULL => .validated
  | .HMAC => if verified then .validated else .dropped
  | .other => if hasValidator then .validating else .validated

end SVSyncCore

/-- How the nodes sign and check Sync Interests. -/
structure GroupKey (ι : Type*) where
  signerType : ι → SignerType
  /-- The signature that a node adds in `sendSyncInterest`. -/
  sign : ι → List UInt8 → List UInt8
  /-- Whether the signature is one that a holder of a key of the group makes for the
      parameters. -/
  Genuine : SignedInterest → Prop

/-- The nodes, what is in flight, and what the validators have been asked about, with the face
    it came from.  `raised` are the Interests whose rejection has raised an exception out of
    the node's face, and `signed` all the parameters that nodes have signed. -/
structure SecuredGroup (ι : Type*) where
  nodes : ι → Publisher
  flight : List SignedInterest
  validating : ι → List (SignedInterest × Option UInt64)
  raised : ι → List SignedInterest
  data : List Data
  published : ι → List PublishCall
  signed : List (List UInt8)

namespace SecuredGroup

variable {ι : Type*}

/-- Every node starts empty. -/
def init (cfg : ι → PublisherConfig) (uninitialized : ι → Int) (count : ι → UInt32) : SecuredGroup ι where
  nodes := (Group.init cfg uninitialized count).nodes
  flight := []
  validating _ := []
  raised _ := []
  data := []
  published _ := []
  signed := []

/-- The group without its Sync Interests. -/
def group (s : SecuredGroup ι) : Group ι where
  nodes := s.nodes
  syncInterests := []
  data := s.data
  published := s.published

variable [DecidableEq ι]

/-- `onSyncInterestValidated` at a node. -/
def receive (P : Platform) (cfg : ι → PublisherConfig) (i : ι) (m : Moment) (now : UInt64)
    (x : SignedInterest) (incomingFaceId : Option UInt64) (s : SecuredGroup ι) : SecuredGroup ι :=
  { s with
    nodes := Function.update s.nodes i
      ((s.nodes i).onSyncInterestValidated P (cfg i) m now ⟨x.applicationParameters, incomingFaceId⟩).1 }

/-- A Sync Interest arrives at a node. -/
def arrive (P : Platform) (cfg : ι → PublisherConfig) (key : GroupKey ι) (i : ι) (m : Moment)
    (now : UInt64) (x : SignedInterest) (incomingFaceId : Option UInt64) (verified : Bool)
    (s : SecuredGroup ι) : SecuredGroup ι :=
  match SVSyncCore.onSyncInterest (key.signerType i) (cfg i).pubSub.securityOptions.hasValidator verified with
  | .validated => s.receive P cfg i m now x incomingFaceId
  | .validating =>
    { s with validating := Function.update s.validating i (s.validating i ++ [(x, incomingFaceId)]) }
  | .dropped => s

/-- The transitions of the group. -/
inductive Step (P : Platform) (cfg : ι → PublisherConfig) (key : GroupKey ι) (s : SecuredGroup ι) :
    SecuredGroup ι → Prop
  /-- A timer of node `i` fires, and it signs what it sends. -/
  | fire (i : ι) (m : Moment) (now : UInt64) (e : Event) (he : e = .start ∨ e = .retx)
      (hfits : ∀ bytes ∈ ((s.nodes i).fire P (cfg i) m now e).2, bytes.length < 2 ^ 64) :
      Step P cfg key s { s with
        nodes := Function.update s.nodes i ((s.nodes i).fire P (cfg i) m now e).1
        flight := s.flight ++
          ((s.nodes i).fire P (cfg i) m now e).2.map fun bytes => ⟨some bytes, key.sign i bytes⟩
        signed := s.signed ++ ((s.nodes i).fire P (cfg i) m now e).2 }
  /-- Something happens that Sync Interests have no part in. -/
  | other (g : Group ι) (hg : Group.Step P cfg s.group g) (hnone : g.syncInterests = []) :
      Step P cfg key s { s with nodes := g.nodes, data := g.data, published := g.published }
  /-- A Sync Interest arrives at node `i`; only a genuine signature verifies. -/
  | arrive (i : ι) (m : Moment) (now : UInt64) (x : SignedInterest) (incomingFaceId : Option UInt64)
      (verified : Bool) (hx : x ∈ s.flight) (hverified : verified = true → key.Genuine x) :
      Step P cfg key s (s.arrive P cfg key i m now x incomingFaceId verified)
  /-- The validator of node `i` accepts an Interest; it accepts genuine ones only. -/
  | accept (i : ι) (m : Moment) (now : UInt64) (x : SignedInterest) (incomingFaceId : Option UInt64)
      (hx : (x, incomingFaceId) ∈ s.validating i) (hgenuine : key.Genuine x) :
      Step P cfg key s (receive P cfg i m now x incomingFaceId
        { s with
          validating := Function.update s.validating i ((s.validating i).erase (x, incomingFaceId)) })
  /-- The validator of node `i` rejects an Interest: it calls an empty function, and the
      exception leaves the loop of the face, with the node as it was.  The application may
      enter the loop again. -/
  | reject (i : ι) (x : SignedInterest) (incomingFaceId : Option UInt64)
      (hx : (x, incomingFaceId) ∈ s.validating i) :
      Step P cfg key s { s with
        validating := Function.update s.validating i ((s.validating i).erase (x, incomingFaceId))
        raised := Function.update s.raised i (s.raised i ++ [x]) }
  /-- Somebody else sends an Interest, and signs no parameters that no node has signed. -/
  | inject (x : SignedInterest)
      (hforged : key.Genuine x → ∃ bytes ∈ s.signed, x.applicationParameters = some bytes) :
      Step P cfg key s { s with flight := s.flight ++ [x] }
  /-- Interests are lost. -/
  | lose (flight : List SignedInterest) (hflight : flight.Sublist s.flight) :
      Step P cfg key s { s with flight := flight }

/-- The states that runs of the group reach. -/
inductive Reachable (P : Platform) (cfg : ι → PublisherConfig) (key : GroupKey ι) : SecuredGroup ι → Prop
  | init (uninitialized : ι → Int) (count : ι → UInt32) :
      Reachable P cfg key (init cfg uninitialized count)
  | step {s s' : SecuredGroup ι} : Reachable P cfg key s → Step P cfg key s s' → Reachable P cfg key s'

end SecuredGroup

end Svs
