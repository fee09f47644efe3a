import Svs.Native.SelectSubset

/-!
# `SVSyncCore`: state, configuration and timers

The members of `SVSyncCore` (`core.hpp`) are split into `Config`, what the
constructor reads from its arguments and the environment and nothing writes
afterwards, and `Core`, the mutable members.  `double` members are exact rationals,
`time::milliseconds` members are integers counting milliseconds, and `long`
microsecond readings are integers; `IsLong` says which of them a `long` can hold.

A handler reads the clocks and the random engine; `Moment` is what one handler
invocation reads.  Metrics output and signing are left out.
-/

namespace Svs

open Std

/-- `enum class TimerMode`. -/
inductive TimerMode
  | Fixed
  | Adaptive
  | NetworkAware
deriving DecidableEq, Repr

/-- `enum class SyncSignal`. -/
inductive SyncSignal
  | Idle
  | RemoteUpdate
  | RepairNeeded
  | LocalUpdate
deriving DecidableEq, Repr

/-- `class MissingDataInfo`. -/
structure MissingDataInfo where
  nodeId : NodeID
  low : SeqNo
  high : SeqNo
  incomingFace : UInt64
deriving DecidableEq, Repr

/-- The constructor's arguments and the environment variables it reads, with the
    constructor's defaults. -/
structure Config where
  id : NodeID := EMPTY_NODE_ID
  fixedIntervalMs : Int := 30000
  periodicSyncJitter : ℚ := 1 / 10
  recentStateVectorEntries : Nat := 8
  maxStateVectorEntries : Nat := 32
  stateVectorRatio : ℚ := 0
  stateVectorStrategy : SubsetStrategy := .Hybrid
  hybridHotRatio : ℚ := 75 / 100
  hybridMinFairEntries : Nat := 2
  scoreSeqWeight : ℚ := 35 / 100
  scoreRecentWeight : ℚ := 45 / 100
  scoreFairWeight : ℚ := 20 / 100
  scorePreferredBoost : ℚ := 60 / 100
  stickyHoldRatio : ℚ := 50 / 100
  stickyMinHold : Nat := 4
  recentQuotaRatio : ℚ := 20 / 100
  recentQuotaMinEntries : Nat := 4
  adaptiveScoreThreshold : ℚ := 50 / 100
  adaptiveScoreRounds : Nat := 2
  networkDiameterMs : ℚ := 120
  networkDiameterHops : Nat := 4
  networkAwareMinPeriodicSyncTime : Int := 4000
  linkLossPct : ℚ := 0
  hotNodeRatio : ℚ := 0
  enableCoordinatedSync : Bool := true
  enableEventDrivenTimerAlpha : Bool := true
  timerMode : TimerMode := .NetworkAware
  minSendInterval : Int := 0
  localUpdateDelay : Int := 1

namespace Config

/-- `m_linkLossRate`. -/
def linkLossRate (cfg : Config) : ℚ := clamp (cfg.linkLossPct / 100) 0 (95 / 100)

/-- `m_expectedHotspotRatio`. -/
def expectedHotspotRatio (cfg : Config) : ℚ := clamp cfg.hotNodeRatio 0 1

end Config

/-- `m_maxPeriodicSyncTime`, which nothing changes. -/
def maxPeriodicSyncTime : Int := 30000

/-- The mutable members of `SVSyncCore`.  `retxEvent` is the time, in microseconds of
    the steady clock, at which the event held by `m_retxEvent` fires. -/
structure Core where
  vv : VersionVector := .empty
  recordedVv : Option VersionVector := none
  maxSuppressionTime : Int := 500
  minPeriodicSyncTime : Int := 1000
  periodicSyncTime : Int
  stateVectorCursor : Nat := 0
  activityScore : ℚ := 0
  hotspotScore : ℚ := 0
  feedbackDelayMs : ℚ := 0
  feedbackJitterMs : ℚ := 0
  feedbackSamples : Nat := 0
  pendingFeedbackSeqs : List (SeqNo × Int) := []
  adaptiveScoreBurstRemaining : Nat := 0
  lastSelectedNodes : List NodeID := []
  scoreUnselectedRounds : ExtTreeMap NodeID Nat := ∅
  lastTimerAdjustUs : Int := 0
  lastSyncTxUs : Int := 0
  retxEvent : Option Int := none
  nextSyncInterest : Int
  initialized : Bool := false

/-- What one handler invocation reads: the steady clock in microseconds
    (`getCurrentTime`), the system clock, and the random draws it may make. -/
structure Moment where
  currentTime : Int
  now : TimePoint
  /-- `m_intrReplyDist(m_rng)`, given the upper end of the distribution. -/
  intrReply : Int → Int
  intrReply_mem : ∀ hi, 0 ≤ hi → 0 ≤ intrReply hi ∧ intrReply hi ≤ hi
  /-- The draw of `sampleSyncDelay`, given the ends of the distribution. -/
  syncDelay : Int → Int → Int
  syncDelay_mem : ∀ lo hi, lo ≤ hi → lo ≤ syncDelay lo hi ∧ syncDelay lo hi ≤ hi
  /-- `m_rng()` in `buildSyncVector`. -/
  selector : Nat

/-- The moment at which both clocks read `ms` milliseconds and every draw takes the
    lower end of its range. -/
def Moment.atMs (ms : Int) : Moment where
  currentTime := ms * 1000
  now := ms * 1000000
  intrReply _ := 0
  intrReply_mem _ h := ⟨le_rfl, h⟩
  syncDelay lo _ := lo
  syncDelay_mem _ _ h := ⟨le_rfl, h⟩
  selector := 0

/-! ## Arithmetic of the timers -/

/-- The value is one of a 64-bit `long`.  Signed arithmetic that leaves the range is
    undefined, and what `std::llround` then returns is unspecified. -/
def IsLong (x : Int) : Prop := -2 ^ 63 ≤ x ∧ x < 2 ^ 63

instance (x : Int) : Decidable (IsLong x) := inferInstanceAs (Decidable (_ ∧ _))

/-- `std::llround`: to the nearest integer, halves away from zero. -/
def llround (x : ℚ) : Int := if 0 ≤ x then ⌊x + 1 / 2⌋ else -⌊-x + 1 / 2⌋

/-- `static_cast<int>`: truncation toward zero. -/
def truncate (x : ℚ) : Int := if 0 ≤ x then ⌊x⌋ else -⌊-x⌋

/-- `static_cast<unsigned int>`. -/
def toUnsigned (x : Int) : Nat := (x % 2 ^ 32).toNat

/-- `timerHotness`. -/
def timerHotness (hotspotScore activityScore : ℚ) : ℚ :=
  clamp (65 / 100 * hotspotScore + 35 / 100 * activityScore) 0 1

/-- `feedbackPressure`. -/
def feedbackPressure (delayMs jitterMs : ℚ) : ℚ :=
  clamp ((max 0 delayMs + 15 / 10 * max 0 jitterMs) / 900) 0 1

/-- `suppressionCurve`. -/
def suppressionCurve (P : Platform) (constFactor value : Int) : Int :=
  let c : ℚ := constFactor
  let v : ℚ := value
  truncate (c * (1 - P.exp ((v - c) / (c / 10))))

namespace Core

/-- `refreshNetworkAwareTimerState`. -/
def refreshNetworkAwareTimerState (cfg : Config) (clampCurrentPeriod : Bool) (c : Core) : Core :=
  if cfg.timerMode ≠ .NetworkAware then c
  else
    let delayMs := max 40 c.feedbackDelayMs
    let jitterMs := max 15 c.feedbackJitterMs
    let suppressionMs :=
      clamp (llround (delayMs + 14 / 10 * jitterMs + 60 * cfg.linkLossRate)) 40 1200
    let awareMin :=
      clamp (llround (22 / 10 * delayMs + 18 / 10 * jitterMs + 160 + 120 * cfg.linkLossRate))
        cfg.networkAwareMinPeriodicSyncTime 5000
    let c := { c with maxSuppressionTime := suppressionMs, minPeriodicSyncTime := awareMin }
    if clampCurrentPeriod then
      let period :=
        if c.periodicSyncTime < c.minPeriodicSyncTime then c.minPeriodicSyncTime
        else c.periodicSyncTime
      { c with periodicSyncTime :=
          if period > maxPeriodicSyncTime then maxPeriodicSyncTime else period }
    else c

/-- The constructor.  `m_nextSyncInterest` has no initializer, so its first value is
    a parameter. -/
def init (cfg : Config) (uninitialized : Int) : Core :=
  let c : Core := { periodicSyncTime := cfg.fixedIntervalMs, nextSyncInterest := uninitialized }
  let c :=
    if cfg.timerMode = .NetworkAware then
      let delay := clamp (cfg.networkDiameterMs * (13 / 10 + 14 / 10 * cfg.linkLossRate)
        + cfg.networkDiameterHops * 12 + 60) 40 1800
      let jitter := max 20 (delay * (18 / 100 + 25 / 100 * cfg.linkLossRate))
      refreshNetworkAwareTimerState cfg true
        { c with feedbackDelayMs := delay, feedbackJitterMs := jitter }
    else c
  let period :=
    if c.periodicSyncTime < c.minPeriodicSyncTime then c.minPeriodicSyncTime
    else c.periodicSyncTime
  { c with periodicSyncTime := if period > maxPeriodicSyncTime then maxPeriodicSyncTime else period }

/-- The `floorMs` of `updateSyncInterval`. -/
def intervalFloor (cfg : Config) (c : Core) : Int :=
  if cfg.stateVectorStrategy = .Full then max c.minPeriodicSyncTime (1400 + c.vv.size * 18)
  else if c.vv.size > 0 then max c.minPeriodicSyncTime (650 + min (c.vv.size : Int) 64 * 9)
  else c.minPeriodicSyncTime

/-- The `Adaptive` part of `updateSyncInterval`. -/
def adaptInterval (signal : SyncSignal) (floorMs : Int) (c : Core) : Core :=
  let current := c.periodicSyncTime
  let (activityScore, next) : ℚ × Int :=
    match signal with
    | .LocalUpdate =>
      (min 1 (c.activityScore * (85 / 100) + 18 / 100),
        max floorMs (current - max 200 (current.tdiv 8)))
    | .RepairNeeded =>
      (min 1 (c.activityScore * (75 / 100) + 30 / 100),
        max floorMs (current - max 350 (current.tdiv 4)))
    | .RemoteUpdate =>
      (min 1 (c.activityScore * (80 / 100) + 8 / 100),
        min maxPeriodicSyncTime (current + max 100 (current.tdiv 16)))
    | .Idle =>
      (c.activityScore * (65 / 100),
        min maxPeriodicSyncTime (current + max 400 (current.tdiv 5)))
  -- the more active, the higher the floor
  let weightedFloor := floorMs + llround (activityScore * 250)
  let next := max weightedFloor next
  { c with
    activityScore := activityScore
    periodicSyncTime := min maxPeriodicSyncTime (max c.minPeriodicSyncTime next) }

/-- The `alpha` of `updateSyncInterval`. -/
def intervalAlpha (cfg : Config) (signal : SyncSignal) : ℚ :=
  if cfg.enableEventDrivenTimerAlpha then
    match signal with
    | .RepairNeeded => 16 / 100
    | .LocalUpdate => 10 / 100
    | .RemoteUpdate => 7 / 100
    | .Idle => 4 / 100
  else 6 / 100

/-- The `NetworkAware` part of `updateSyncInterval`. -/
def trackFeedback (cfg : Config) (signal : SyncSignal) (floorMs : Int) (c : Core) : Core :=
  let feedbackTarget :=
    clamp (llround (3 * max 40 c.feedbackDelayMs + 22 / 10 * max 15 c.feedbackJitterMs + 320
      + 220 * cfg.linkLossRate)) floorMs maxPeriodicSyncTime
  let alpha := intervalAlpha cfg signal
  let next :=
    clamp (llround ((1 - alpha) * c.periodicSyncTime + alpha * feedbackTarget))
      floorMs maxPeriodicSyncTime
  { c with periodicSyncTime := next }

/-- `updateSyncInterval`. -/
def updateSyncInterval (cfg : Config) (m : Moment) (signal : SyncSignal) (c : Core) : Core :=
  if cfg.timerMode = .Fixed then c
  else
    let current := c.periodicSyncTime
    let floorMs := intervalFloor cfg c
    -- within 220 ms of the last adjustment only a repair moves the period
    if c.lastTimerAdjustUs ≠ 0 ∧ m.currentTime - c.lastTimerAdjustUs < 220000 then
      if signal = .RepairNeeded ∧ current > floorMs then
        { c with periodicSyncTime := floorMs + max 0 ((current - floorMs).tdiv 2) }
      else c
    else
      let c := { c with lastTimerAdjustUs := m.currentTime }
      if cfg.timerMode = .Adaptive then adaptInterval signal floorMs c
      else trackFeedback cfg signal floorMs c

/-- What `sampleSyncDelay` rounds to get the ends of the distribution. -/
def syncDelayEnds (cfg : Config) (c : Core) : Int × Int :=
  let base := max 1 c.periodicSyncTime
  let extraSpread : ℚ :=
    if cfg.timerMode = .NetworkAware then
      5 / 100 * cfg.linkLossRate
        + 8 / 100 * feedbackPressure c.feedbackDelayMs c.feedbackJitterMs
    else 0
  (llround (base * (1 - cfg.periodicSyncJitter)),
    llround (base * (1 + cfg.periodicSyncJitter + extraSpread)))

/-- `sampleSyncDelay`. -/
def sampleSyncDelay (cfg : Config) (m : Moment) (c : Core) : Nat :=
  let ends := syncDelayEnds cfg c
  let low := max 1 ends.1
  let high := max low ends.2
  toUnsigned (m.syncDelay low high)

/-- `recordPropagationFeedbackSend`. -/
def recordPropagationFeedbackSend (cfg : Config) (localSeq : SeqNo) (sendTimeUs : Int) (c : Core) :
    Core :=
  if cfg.timerMode ≠ .NetworkAware ∨ localSeq = 0 then c
  else if c.pendingFeedbackSeqs.getLast?.any (fun p => p.1 ≥ localSeq) then c
  else
    -- the queue keeps the last 32
    let pending := c.pendingFeedbackSeqs ++ [(localSeq, sendTimeUs)]
    { c with pendingFeedbackSeqs := pending.drop (pending.length - 32) }

/-- `observePropagationFeedback`. -/
def observePropagationFeedback (cfg : Config) (m : Moment) (vvOther : VersionVector) (c : Core) :
    Core :=
  if cfg.timerMode ≠ .NetworkAware then c
  else
    let echoedSeq := vvOther.get cfg.id
    if echoedSeq = 0 then c
    else
      let nowUs := m.currentTime
      let echoed := c.pendingFeedbackSeqs.takeWhile (fun p => p.1 ≤ echoedSeq)
      let observedSendUs := (echoed.getLast?.map (·.2)).getD 0
      -- the echoed entries leave the queue also where no sample is taken below
      let c := { c with
        pendingFeedbackSeqs := c.pendingFeedbackSeqs.dropWhile (fun p => p.1 ≤ echoedSeq) }
      if observedSendUs = 0 ∨ nowUs ≤ observedSendUs then c
      else
        let observedDelayMs : ℚ := max 1 ((nowUs - observedSendUs) / 1000)
        let previousDelayMs := max 1 c.feedbackDelayMs
        let c :=
          if c.feedbackSamples = 0 then
            { c with
              feedbackDelayMs := observedDelayMs
              feedbackJitterMs := max 15 (observedDelayMs * (15 / 100))
              feedbackSamples := c.feedbackSamples + 1 }
          else
            { c with
              feedbackDelayMs :=
                (1 - 18 / 100) * c.feedbackDelayMs + 18 / 100 * observedDelayMs
              feedbackJitterMs :=
                max 10 ((1 - 22 / 100) * c.feedbackJitterMs
                  + 22 / 100 * |observedDelayMs - previousDelayMs|)
              feedbackSamples := c.feedbackSamples + 1 }
        refreshNetworkAwareTimerState cfg true c

end Core

end Svs
