import Svs.Native.BuildVector

/-!
# `SVSyncCore`: merging, suppression and transmission

`processVector` is `onSyncInterestValidated` after the state vector has been
decoded.  A handler returns the new state with what it did to the outside: the
callback `m_onUpdate` and the Sync Interest handed to the face.

`Event` and `step` make the handlers the transitions of one state machine, and
`Reachable` its runs, together with the vectors recorded since the node entered
suppression.
-/

namespace Svs

open Std VersionVector

/-- What a handler does outside the core. -/
inductive Effect
  /-- `m_onUpdate(missingInfo)`. -/
  | onUpdate (missingInfo : List MissingDataInfo)
  /-- `m_face.expressInterest` with a state vector. -/
  | expressInterest (vv : VersionVector)

/-- `MergeResult`. -/
structure MergeResult where
  myVectorNew : Bool := false
  otherVectorNew : Bool := false
  missingInfo : List MissingDataInfo := []

namespace Core

/-- The entry was last updated within `m_maxSuppressionTime`. -/
def updatedRecently (m : Moment) (c : Core) (nid : NodeID) : Bool :=
  decide (m.now - c.vv.getLastUpdate nid < c.maxSuppressionTime * 1000000)

/-- One round of the first loop of `mergeStateVector`. -/
def mergeEntry (m : Moment) (acc : VersionVector × MergeResult) (entry : NodeID × SeqNo) :
    VersionVector × MergeResult :=
  let seqCurrent := acc.1.get entry.1
  if seqCurrent < entry.2 then
    (acc.1.set entry.1 entry.2 m.now,
      { acc.2 with
        otherVectorNew := true
        missingInfo := acc.2.missingInfo ++
          [{ nodeId := entry.1, low := seqCurrent + 1, high := entry.2, incomingFace := 0 }] })
  else acc

/-- `mergeStateVector`. -/
def mergeStateVector (m : Moment) (vvOther : VersionVector) (c : Core) : Core × MergeResult :=
  let (vv, result) := vvOther.entries.foldl (mergeEntry m) (c.vv, {})
  let c := { c with vv := vv }
  -- the second loop ignores nodes last updated within the network RTT
  let myVectorNew := c.vv.entries.any fun entry =>
    !updatedRecently m c entry.1 && decide (vvOther.get entry.1 < entry.2)
  (c, { result with myVectorNew := myVectorNew })

/-- One round of the loop of `recordVector`. -/
def recordEntry (m : Moment) (recorded : VersionVector) (entry : NodeID × SeqNo) : VersionVector :=
  if recorded.get entry.1 < entry.2 then recorded.set entry.1 entry.2 m.now else recorded

/-- `recordVector`; the second component tells whether the node is in suppression. -/
def recordVector (m : Moment) (vvOther : VersionVector) (c : Core) : Core × Bool :=
  match c.recordedVv with
  | none => (c, false)
  | some recorded =>
    ({ c with recordedVv := some (vvOther.entries.foldl (recordEntry m) recorded) }, true)

/-- `enterSuppressionState`. -/
def enterSuppressionState (vvOther : VersionVector) (c : Core) : Core :=
  match c.recordedVv with
  | none => { c with recordedVv := some vvOther }
  -- already in suppression
  | some _ => c

/-- `sendSyncInterest`. -/
def sendSyncInterest (P : Platform) (cfg : Config) (m : Moment) (c : Core) : Core × List Effect :=
  if !c.initialized then (c, [])
  else
    let (c, syncVv) := buildSyncVector P cfg m c
    let c := { c with lastSyncTxUs := m.currentTime }
    let c := recordPropagationFeedbackSend cfg (syncVv.get cfg.id) m.currentTime c
    (c, [.expressInterest syncVv])

/-- `minGapUs` of `retxSyncInterest`, a `long`.  Here nothing overflows. -/
def minGapUs (cfg : Config) (c : Core) : Int :=
  let gap := cfg.minSendInterval * 1000
  if gap > 0 ∧ cfg.enableCoordinatedSync ∧
      timerHotness c.hotspotScore c.activityScore > 72 / 100 then
    max 8000 (gap.tdiv 2)
  else gap

/-- The minimum send gap since the last transmission has not elapsed. -/
def withinGap (cfg : Config) (m : Moment) (c : Core) : Bool :=
  decide (minGapUs cfg c > 0 ∧ c.lastSyncTxUs > 0 ∧
    m.currentTime < c.lastSyncTxUs + minGapUs cfg c)

/-- The end of `retxSyncInterest`: sample a delay if there is none, remember the
    scheduled time and replace the pending event.  `1000 * delay` is computed on
    `unsigned int`. -/
def scheduleRetx (cfg : Config) (m : Moment) (delay : Nat) (c : Core) : Core :=
  let delay := if delay = 0 then sampleSyncDelay cfg m c else delay
  { c with
    nextSyncInterest := m.currentTime + (1000 * delay % 2 ^ 32 : Nat)
    retxEvent := some (m.currentTime + 1000 * delay) }

/-- The decision of `retxSyncInterest` to send, past the minimum gap: only in steady
    state, or if the local vector has newer state than the recorded ones. -/
def sendUnlessSuppressed (P : Platform) (cfg : Config) (m : Moment) (c : Core) :
    Core × List Effect :=
  match c.recordedVv with
  | none => sendSyncInterest P cfg m c
  | some recorded =>
    -- of this merge only `myVectorNew` is used; its `missingInfo` is thrown away
    let (c, result) := mergeStateVector m recorded c
    let (c, sent) := if result.myVectorNew then sendSyncInterest P cfg m c else (c, [])
    ({ c with recordedVv := none }, sent)

/-- `retxSyncInterest`. -/
def retxSyncInterest (P : Platform) (cfg : Config) (m : Moment) (send : Bool) (delay : Nat)
    (c : Core) : Core × List Effect :=
  if send then
    if withinGap cfg m c then
      -- too early: try again when the gap has passed, in whole milliseconds
      let rest := (c.lastSyncTxUs + minGapUs cfg c - m.currentTime + 999).tdiv 1000
      (scheduleRetx cfg m (toUnsigned (max 1 rest)) c, [])
    else
      let (c, sent) := sendUnlessSuppressed P cfg m c
      (scheduleRetx cfg m delay c, sent)
  else (scheduleRetx cfg m delay c, [])

/-- `t_nid`: the empty id stands for the node itself. -/
def targetNode (cfg : Config) (nid : NodeID) : NodeID :=
  if nid = EMPTY_NODE_ID then cfg.id else nid

/-- `getSeqNo`. -/
def getSeqNo (cfg : Config) (nid : NodeID) (c : Core) : SeqNo := c.vv.get (targetNode cfg nid)

/-- `localDelay` of `updateSeqNo`. -/
def localDelay (cfg : Config) (c : Core) : Int :=
  let delay := max 1 cfg.localUpdateDelay
  if cfg.enableCoordinatedSync ∧ timerHotness c.hotspotScore c.activityScore > 72 / 100 then
    max 1 (delay.tdiv 2)
  else delay

/-- What `updateSeqNo` does when it raised the entry: schedule an early transmission. -/
def announceUpdate (cfg : Config) (m : Moment) (c : Core) : Core :=
  let c := updateSyncInterval cfg m .LocalUpdate c
  scheduleRetx cfg m (toUnsigned (localDelay cfg c)) c

/-- `updateSeqNo`. -/
def updateSeqNo (cfg : Config) (m : Moment) (seq : SeqNo) (nid : NodeID) (c : Core) : Core :=
  let prev := c.vv.get (targetNode cfg nid)
  -- the entry is set even where this lowers it
  let c := { c with vv := c.vv.set (targetNode cfg nid) seq m.now }
  if seq > prev then announceUpdate cfg m c else c

/-- The sequence number that `SVSyncBase::publishData` hands out. -/
def nextSeqNo (cfg : Config) (nid : NodeID) (c : Core) : SeqNo :=
  getSeqNo cfg (targetNode cfg nid) c + 1

/-- `SVSyncBase::publishData`, as far as the core sees it: the new state and the
    sequence number.  `SVSyncBase` has the same `m_id` as its core. -/
def publishData (cfg : Config) (m : Moment) (nid : NodeID) (c : Core) : Core × SeqNo :=
  let pubId := targetNode cfg nid
  let newSeq := nextSeqNo cfg nid c
  (updateSeqNo cfg m newSeq pubId c, newSeq)

/-- The signal `onSyncInterestValidated` derives from a merge. -/
def syncSignal (result : MergeResult) : SyncSignal :=
  if !result.missingInfo.isEmpty then .RepairNeeded
  else if result.myVectorNew || result.otherVectorNew then .RemoteUpdate
  else .Idle

/-- The end of `onSyncInterestValidated`, out of suppression: reset the timer if the
    incoming state is identical or newer, else prepare to answer. -/
def answerOrReset (P : Platform) (cfg : Config) (m : Moment) (vvOther : VersionVector)
    (myVectorNew : Bool) (c : Core) : Core :=
  -- incoming state identical or newer: reset the timer
  if !myVectorNew then scheduleRetx cfg m 0 c
  else
    let c := enterSuppressionState vvOther c
    let delay := suppressionCurve P c.maxSuppressionTime (m.intrReply c.maxSuppressionTime)
    -- a curved delay of 0 means a sampled one to `retxSyncInterest`
    if m.currentTime + delay * 1000 < c.nextSyncInterest then
      scheduleRetx cfg m (toUnsigned delay) c
    else c

/-- `onSyncInterestValidated`, from the decoded state vector on. -/
def processVector (P : Platform) (cfg : Config) (m : Moment) (vvOther : VersionVector)
    (incomingFace : UInt64) (c : Core) : Core × List Effect :=
  let c := observePropagationFeedback cfg m vvOther c
  let (c, result) := mergeStateVector m vvOther c
  let c := updateSyncInterval cfg m (syncSignal result) c
  let effects :=
    if result.missingInfo.isEmpty then []
    else [.onUpdate (result.missingInfo.map fun e => { e with incomingFace := incomingFace })]
  -- in suppression the vector is recorded, and the timer stays as it is
  let (c, recorded) := recordVector m vvOther c
  if recorded then (c, effects)
  else (answerOrReset P cfg m vvOther result.myVectorNew c, effects)

end Core

/-! ## Runs of one node -/

/-- What can happen to a node. -/
inductive Event
  /-- The event of `sendInitialInterest` fires. -/
  | start
  /-- A Sync Interest with a decodable state vector arrives. -/
  | syncInterest (vvOther : VersionVector) (incomingFace : UInt64)
  /-- The pending retransmission event fires. -/
  | retx
  /-- The application calls `updateSeqNo`. -/
  | updateSeqNo (seq : SeqNo) (nid : NodeID)

namespace Core

/-- One transition of a node. -/
def step (P : Platform) (cfg : Config) (m : Moment) (e : Event) (c : Core) : Core × List Effect :=
  match e with
  | .start => retxSyncInterest P cfg m true 0 { c with initialized := true }
  | .syncInterest vvOther face => processVector P cfg m vvOther face c
  | .retx => retxSyncInterest P cfg m true 0 c
  | .updateSeqNo seq nid => (updateSeqNo cfg m seq nid c, [])

/-- The vectors recorded since the node entered suppression, after one more event. -/
def suppressionLog (e : Event) (c' : Core) (log : List VersionVector) : List VersionVector :=
  match c'.recordedVv, e with
  | none, _ => []
  | some _, .syncInterest vvOther _ => log ++ [vvOther]
  | some _, _ => log

/-- `Reachable c log`: some run of the node ends in `c`, and `log` are the vectors
    recorded in the current suppression period. -/
inductive Reachable (P : Platform) (cfg : Config) : Core → List VersionVector → Prop
  | init (uninitialized : Int) : Reachable P cfg (init cfg uninitialized) []
  | step {c : Core} {log : List VersionVector} (m : Moment) (e : Event) :
      Reachable P cfg c log →
      Reachable P cfg (step P cfg m e c).1 (suppressionLog e (step P cfg m e c).1 log)

/-- The state after a list of events, with the vectors recorded in the suppression
    period it ends in. -/
def run (P : Platform) (cfg : Config) (events : List (Moment × Event))
    (start : Core × List VersionVector) : Core × List VersionVector :=
  events.foldl
    (fun acc e =>
      let c := (step P cfg e.1 e.2 acc.1).1
      (c, suppressionLog e.2 c acc.2))
    start

theorem Reachable.run {P : Platform} {cfg : Config} {start : Core × List VersionVector}
    (h : Reachable P cfg start.1 start.2) (events : List (Moment × Event)) :
    Reachable P cfg (Core.run P cfg events start).1 (Core.run P cfg events start).2 := by
  induction events generalizing start with
  | nil => exact h
  | cons e events ih => exact ih (h.step e.1 e.2)

end Core

end Svs
