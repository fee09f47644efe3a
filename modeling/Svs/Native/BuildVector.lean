import Svs.Native.Core
import Svs.Spec.SubsetCorrect

/-!
# `getStateVectorLimit` and `buildSyncVector`

How many entries a Sync Interest may carry, and which vector `SVSyncCore` sends.
-/

namespace Svs

open Std

/-- `std::ceil(std::sqrt(n))`. -/
def ceilSqrt (n : Nat) : Nat := if n.sqrt * n.sqrt = n then n.sqrt else n.sqrt + 1

namespace Core

/-- `topologyPressure`. -/
def topologyPressure (cfg : Config) : ℚ := min 1 (cfg.networkDiameterMs / 250)

/-- The coordinated-sync adjustment of the limit in `getStateVectorLimit`. -/
def coordinatedLimit (cfg : Config) (c : Core) (totalEntries scaled : Nat) : Nat :=
  let hotness := clamp (6 / 10 * c.hotspotScore + 4 / 10 * cfg.expectedHotspotRatio) 0 1
  let pressure :=
    clamp (55 / 100 * cfg.linkLossRate + 25 / 100 * topologyPressure cfg + 35 / 100 * hotness) 0 1
  let floorEntries := min totalEntries
    (max (sizeAdd cfg.recentStateVectorEntries cfg.hybridMinFairEntries)
      (min cfg.maxStateVectorEntries 8))
  let scaled := max scaled floorEntries
  ⌈(scaled : ℚ) * (1 + 22 / 100 * pressure)⌉₊

/-- `getStateVectorLimit`. -/
def getStateVectorLimit (cfg : Config) (c : Core) (totalEntries : Nat) : Nat :=
  if totalEntries = 0 then 0
  else if cfg.stateVectorStrategy = .Full then totalEntries
  else
    let scaled :=
      if cfg.stateVectorRatio > 0 then ⌈(totalEntries : ℚ) * cfg.stateVectorRatio⌉₊
      else max cfg.recentStateVectorEntries (ceilSqrt (4 * totalEntries))
    let scaled := max 1 scaled
    -- coordinated sync only raises the share, before the hard cap
    let scaled :=
      if cfg.enableCoordinatedSync then coordinatedLimit cfg c totalEntries scaled else scaled
    min totalEntries (min cfg.maxStateVectorEntries scaled)

/-- `repairPressure`. -/
def repairPressure (cfg : Config) (c : Core) (limit : Nat) : ℚ :=
  let totalEntries := c.vv.size
  let coveragePressure : ℚ :=
    if totalEntries > 0 then 1 - min 1 ((limit : ℚ) / totalEntries) else 0
  let recencyStress := 1 - clamp c.hotspotScore 0 1
  clamp (55 / 100 * coveragePressure + 25 / 100 * cfg.linkLossRate + 20 / 100 * recencyStress) 0 1

/-- `effectiveStrategy`, and the score burst that remains after this round. -/
def effectiveStrategy (cfg : Config) (c : Core) (limit : Nat) : SubsetStrategy × Nat :=
  if cfg.stateVectorStrategy = .AdaptiveRecentScore then
    -- a burst that has begun runs to its end
    if c.adaptiveScoreBurstRemaining > 0 then (.Score, c.adaptiveScoreBurstRemaining - 1)
    else if repairPressure cfg c limit ≥ clamp cfg.adaptiveScoreThreshold 0 1 then
      (.Score, if cfg.adaptiveScoreRounds > 0 then cfg.adaptiveScoreRounds - 1 else 0)
    else (.Recent, c.adaptiveScoreBurstRemaining)
  else (cfg.stateVectorStrategy, c.adaptiveScoreBurstRemaining)

/-- The `hotness` of `buildSyncVector`. -/
def hotness (cfg : Config) (c : Core) : ℚ :=
  clamp (6 / 10 * c.hotspotScore + 25 / 100 * c.activityScore
    + 15 / 100 * cfg.expectedHotspotRatio) 0 1

/-- The strategies whose hot ratio and reserve coordinated sync adjusts. -/
def usesHotRatio : SubsetStrategy → Bool
  | .Hybrid | .ClusterHybrid => true
  | _ => false

/-- The strategies whose weights and reserve coordinated sync adjusts. -/
def usesScores : SubsetStrategy → Bool
  | .Score | .ClusterScore | .AgeScore | .DeficitScore => true
  | _ => false

/-- `effectiveFairEntries`. -/
def effectiveFairEntries (cfg : Config) (c : Core) (strategy : SubsetStrategy) (limit : Nat) : Nat :=
  if cfg.enableCoordinatedSync ∧ (usesHotRatio strategy ∨ usesScores strategy) ∧
      hotness cfg c < 35 / 100 then
    min (max 1 (sizeAdd cfg.hybridMinFairEntries 1)) (max 1 (limit / 3))
  else cfg.hybridMinFairEntries

/-- `effectiveHotRatio`. -/
def effectiveHotRatio (cfg : Config) (c : Core) (strategy : SubsetStrategy) : ℚ :=
  if cfg.enableCoordinatedSync ∧ usesHotRatio strategy then
    clamp (cfg.hybridHotRatio + 12 / 100 * hotness cfg c + 8 / 100 * cfg.linkLossRate
      - 3 / 100 * topologyPressure cfg) (55 / 100) (92 / 100)
  else cfg.hybridHotRatio

/-- The budget of the sticky and quota strategies: a share of the limit, at least
    `atLeast`, never the whole limit. -/
def shareOfLimit (limit atLeast : Nat) (ratio : ℚ) : Nat :=
  min (limit - 1) (max (min atLeast (limit - 1)) ⌈(limit : ℚ) * clamp ratio 0 1⌉₊)

/-- The arguments `buildSyncVector` passes to `selectSubset`. -/
def subsetArgs (cfg : Config) (m : Moment) (c : Core) (limit : Nat) : SubsetArgs :=
  let strategy := (effectiveStrategy cfg c limit).1
  let scored := cfg.enableCoordinatedSync && usesScores strategy
  let sticky := cfg.stateVectorStrategy == .StickyRecent && !c.lastSelectedNodes.isEmpty
    && decide (limit > 1)
  let quota := (cfg.stateVectorStrategy == .RecentNoveltyQuota
    || cfg.stateVectorStrategy == .RecentRandomQuota) && decide (limit > 1)
  { maxEntries := limit
    recentEntries := cfg.recentStateVectorEntries
    startIndex := if cfg.stateVectorStrategy = .Random then m.selector else c.stateVectorCursor
    preferredNode := cfg.id
    strategy := strategy
    hotRatio := effectiveHotRatio cfg c strategy
    minFairEntries := effectiveFairEntries cfg c strategy limit
    scoreSeqWeight :=
      if scored then clamp (cfg.scoreSeqWeight + 10 / 100 * hotness cfg c) (10 / 100) (70 / 100)
      else cfg.scoreSeqWeight
    scoreRecentWeight :=
      if scored then
        clamp (cfg.scoreRecentWeight + 8 / 100 * cfg.linkLossRate
          + 5 / 100 * topologyPressure cfg) (15 / 100) (75 / 100)
      else cfg.scoreRecentWeight
    scoreFairWeight :=
      if scored then
        clamp (cfg.scoreFairWeight + if hotness cfg c < 35 / 100 then 10 / 100 else 3 / 100)
          (10 / 100) (50 / 100)
      else cfg.scoreFairWeight
    scorePreferredBoost :=
      if scored then
        clamp (cfg.scorePreferredBoost + 15 / 100 * hotness cfg c) (20 / 100) (120 / 100)
      else cfg.scorePreferredBoost
    stickyEntries := if sticky then c.lastSelectedNodes else []
    stickyBudget := if sticky then shareOfLimit limit cfg.stickyMinHold cfg.stickyHoldRatio else 0
    noveltyBaseEntries := if quota then c.lastSelectedNodes else []
    noveltyBudget :=
      if quota then shareOfLimit limit cfg.recentQuotaMinEntries cfg.recentQuotaRatio else 0
    scoreCompensationRounds :=
      -- counters of nodes that left the vector are erased before the selection
      c.scoreUnselectedRounds.keys.foldl
        (fun rounds nid => if c.vv.has nid then rounds else rounds.erase nid)
        c.scoreUnselectedRounds }

/-- The loop that updates `m_scoreUnselectedRounds` after a selection. -/
def countUnselected (nodes : List NodeID) (selected : VersionVector)
    (rounds : ExtTreeMap NodeID Nat) : ExtTreeMap NodeID Nat :=
  nodes.foldl
    (fun rounds nid => rounds.insert nid
      (if selected.has nid then 0 else rounds[nid]?.getD 0 + 1))
    rounds

/-- `buildSyncVector`. -/
def buildSyncVector (P : Platform) (cfg : Config) (m : Moment) (c : Core) : Core × VersionVector :=
  let totalEntries := c.vv.size
  let limit := getStateVectorLimit cfg c totalEntries
  if limit ≥ totalEntries ∨ cfg.stateVectorStrategy = .Full then
    -- the whole vector: nothing goes unselected, and the cursor stays
    ({ c with
        scoreUnselectedRounds := c.vv.nodes.foldl (fun rounds nid => rounds.insert nid 0) ∅ },
      c.vv)
  else
    -- a partial vector: the cursor moves by the limit, whatever the walk selected
    let (strategy, burst) := effectiveStrategy cfg c limit
    let args := subsetArgs cfg m c limit
    let partialVv := selectSubset P c.vv args
    ({ c with
        adaptiveScoreBurstRemaining := burst
        stateVectorCursor :=
          if totalEntries > 0 ∧ strategy ≠ .Random then
            (c.stateVectorCursor + limit) % totalEntries
          else c.stateVectorCursor
        lastSelectedNodes := sortBy (recentFirst partialVv) partialVv.nodes
        scoreUnselectedRounds :=
          countUnselected c.vv.nodes partialVv args.scoreCompensationRounds },
      partialVv)

end Core

end Svs
