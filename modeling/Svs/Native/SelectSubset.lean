import Svs.Native.VersionVector

/-!
# `VersionVector::selectSubset`

The fourteen subset strategies of `version-vector.cpp`.  Each strategy fills
`selected`, which starts with the preferred node, by walking lists of nodes under
a budget (`addEntries`); the strategies differ in the lists and the budgets.

Scores are exact rationals.  A `size_t` subtraction is `sizeSub`, which is `none`
where the C++ subtraction would wrap below zero, so a selection that evaluates
such a subtraction is `none`.

Code outside the repository is collected in `Platform`: the URI text of a name,
`std::shuffle` with a seeded engine, and the single-precision `std::exp` that the
suppression curve uses.
-/

namespace Svs

open Std

/-- What the code calls outside the repository, with what it relies on. -/
structure Platform where
  /-- `Name::toUri`. -/
  toUri : NodeID → List Char
  /-- `std::shuffle` driven by `std::minstd_rand` with the given seed. -/
  shuffle : UInt32 → List NodeID → List NodeID
  shuffle_perm : ∀ seed l, (shuffle seed l).Perm l
  /-- `std::exp`. -/
  exp : ℚ → ℚ
  exp_zero : exp 0 = 1
  exp_pos : ∀ x, 0 < exp x
  exp_mono : Monotone exp

/-- A platform for evaluating the model: no URI text, no shuffling, and an `exp` that
    is right to three digits at small integers. -/
def Platform.plain : Platform where
  toUri _ := []
  shuffle _ l := l
  shuffle_perm _ _ := .refl _
  exp x := (2718 / 1000 : ℚ) ^ (⌊x⌋ : ℤ)
  exp_zero := by simp
  exp_pos x := by positivity
  exp_mono _ _ h := zpow_le_zpow_right₀ (by norm_num) (Int.floor_mono h)

/-- `VersionVector::SubsetStrategy`. -/
inductive SubsetStrategy
  | Full
  | Hybrid
  | ClusterHybrid
  | StickyRecent
  | RecentNoveltyQuota
  | RecentRandomQuota
  | AdaptiveRecentScore
  | Score
  | ClusterScore
  | AgeScore
  | DeficitScore
  | RoundRobin
  | Recent
  | Random
deriving DecidableEq, Repr

/-- The arguments of `selectSubset`, with the defaults of its declaration. -/
structure SubsetArgs where
  maxEntries : Nat
  recentEntries : Nat := 0
  startIndex : Nat := 0
  preferredNode : NodeID := EMPTY_NODE_ID
  strategy : SubsetStrategy := .Hybrid
  hotRatio : ℚ := 75 / 100
  minFairEntries : Nat := 2
  scoreSeqWeight : ℚ := 35 / 100
  scoreRecentWeight : ℚ := 45 / 100
  scoreFairWeight : ℚ := 20 / 100
  scorePreferredBoost : ℚ := 60 / 100
  stickyEntries : List NodeID := []
  stickyBudget : Nat := 0
  noveltyBaseEntries : List NodeID := []
  noveltyBudget : Nat := 0
  scoreCompensationRounds : ExtTreeMap NodeID Nat := ∅

/-! ## Machine arithmetic and sorting -/

/-- `a - b` on `size_t`, where it does not wrap. -/
def sizeSub (a b : Nat) : Option Nat := if b ≤ a then some (a - b) else none

/-- `a + b` on `size_t`. -/
def sizeAdd (a b : Nat) : Nat := (a + b) % 2 ^ 64

/-- `std::clamp`. -/
def clamp {α : Type*} [LinearOrder α] (v lo hi : α) : α :=
  if v < lo then lo else if hi < v then hi else v

/-- `std::sort` with a comparison that tells any two elements apart. -/
def sortBy {α : Type*} (before : α → α → Bool) (l : List α) : List α :=
  l.insertionSort (fun a b => !before b a)

theorem clamp_mem {α : Type*} [LinearOrder α] (v : α) {lo hi : α} (h : lo ≤ hi) :
    lo ≤ clamp v lo hi ∧ clamp v lo hi ≤ hi := by
  unfold clamp
  split
  · exact ⟨le_rfl, h⟩
  · next hlo =>
    split
    · exact ⟨h, le_rfl⟩
    · next hhi => exact ⟨le_of_not_gt hlo, le_of_not_gt hhi⟩

theorem sizeSub_eq_some {a b : Nat} (h : b ≤ a) : sizeSub a b = some (a - b) := if_pos h

theorem sortBy_perm {α : Type*} (before : α → α → Bool) (l : List α) :
    (sortBy before l).Perm l := List.perm_insertionSort _ l

/-! ## Helpers of the anonymous namespace -/

/-- `extractClusterKey` on the URI text of a name: the last component up to its
    first underscore, else up to its first dash. -/
def extractClusterKey (uri : List Char) : List Char :=
  let tail := uri.rtakeWhile (· ≠ '/')
  let text := if tail.isEmpty then uri else tail
  let underscore := text.takeWhile (· ≠ '_')
  let dash := text.takeWhile (· ≠ '-')
  if '_' ∈ text ∧ underscore ≠ [] then underscore
  else if '-' ∈ text ∧ dash ≠ [] then dash
  else text

/-- `normalizeRankScore`. -/
def normalizeRankScore (rank population : Nat) (descending : Bool := true) : Option ℚ :=
  if population ≤ 1 then some 1
  else do
    let d ← sizeSub population 1
    let normalized : ℚ := 1 - rank / d
    return if descending then normalized else 1 - normalized

/-! ## Orders on nodes and candidates -/

/-- Later update first, then smaller name. -/
def recentFirst (vv : VersionVector) (lhs rhs : NodeID) : Bool :=
  if vv.getLastUpdate lhs = vv.getLastUpdate rhs then decide (lhs < rhs)
  else decide (vv.getLastUpdate lhs > vv.getLastUpdate rhs)

/-- Earlier update first, then smaller name. -/
def oldestFirst (vv : VersionVector) (lhs rhs : NodeID) : Bool :=
  if vv.getLastUpdate lhs = vv.getLastUpdate rhs then decide (lhs < rhs)
  else decide (vv.getLastUpdate lhs < vv.getLastUpdate rhs)

/-- `recentNodes`. -/
def recentNodes (vv : VersionVector) : List NodeID := sortBy (recentFirst vv) vv.nodes

/-- `agedNodes`. -/
def agedNodes (vv : VersionVector) : List NodeID := sortBy (oldestFirst vv) vv.nodes

/-- `struct Candidate`. -/
structure Candidate where
  nid : NodeID
  score : ℚ
  ts : TimePoint
deriving DecidableEq

/-- Higher score first, then later update, then smaller name. -/
def scoreFirst (lhs rhs : Candidate) : Bool :=
  if lhs.score ≠ rhs.score then decide (lhs.score > rhs.score)
  else if lhs.ts ≠ rhs.ts then decide (lhs.ts > rhs.ts)
  else decide (lhs.nid < rhs.nid)

/-- Higher score first, then earlier update, then smaller name. -/
def scoreFirstOldest (lhs rhs : Candidate) : Bool :=
  if lhs.score ≠ rhs.score then decide (lhs.score > rhs.score)
  else if lhs.ts ≠ rhs.ts then decide (lhs.ts < rhs.ts)
  else decide (lhs.nid < rhs.nid)

/-- `maxSeq`. -/
def maxSeq (vv : VersionVector) : Nat := (vv.entries.map (·.2.toNat)).foldl max 0

section

variable (P : Platform) (vv : VersionVector) (a : SubsetArgs)

/-! ## Filling `selected` -/

/-- `addEntry`: copy the entry of `nid` unless it is absent or already selected.
    The second component tells whether it was added. -/
def addEntry (nid : NodeID) (selected : VersionVector) : VersionVector × Bool :=
  match vv.map[nid]? with
  | none => (selected, false)
  | some seqNo =>
    if selected.has nid then (selected, false)
    -- an entry without update time is given `min()`, which is how it read before
    else ({ map := selected.map.insert nid seqNo
            lastUpdate := selected.lastUpdate.insert nid (vv.getLastUpdate nid) }, true)

/-- The loop shared by the `add…Entries` helpers: walk the nodes in order, stop
    when `maxEntries` are selected or the budget is spent. -/
def addEntries : List NodeID → Nat → VersionVector → VersionVector
  | [], _, selected => selected
  | nid :: rest, budget, selected =>
    if selected.size ≥ a.maxEntries || budget == 0 then selected
    else
      -- only an entry that was added costs budget
      match addEntry vv nid selected with
      | (selected, true) => addEntries rest (budget - 1) selected
      | (selected, false) => addEntries rest budget selected

/-- The loop of the `Random` strategy, which has no budget of its own. -/
def addUntilFull : List NodeID → VersionVector → VersionVector
  | [], selected => selected
  | nid :: rest, selected =>
    if selected.size ≥ a.maxEntries then selected
    else addUntilFull rest (addEntry vv nid selected).1

/-- `addStickyEntries`. -/
def addStickyEntries (budget : Nat) (selected : VersionVector) : VersionVector :=
  addEntries vv a a.stickyEntries budget selected

/-- `addRecentEntries`. -/
def addRecentEntries (budget : Nat) (selected : VersionVector) : VersionVector :=
  addEntries vv a (recentNodes vv) budget selected

/-- The nodes in the order `addRoundRobinEntries` visits them:
    `orderedNodes[(offset + i) % n]` for `i = 0, …, n - 1`. -/
def roundRobinNodes : List NodeID := vv.nodes.rotate (a.startIndex % vv.nodes.length)

/-- `addRoundRobinEntries`. -/
def addRoundRobinEntries (budget : Nat) (selected : VersionVector) : VersionVector :=
  addEntries vv a (roundRobinNodes vv a) budget selected

/-- `shuffledNodes`: the seed is `static_cast<uint32_t>(startIndex)`. -/
def shuffledNodes : List NodeID := P.shuffle (UInt32.ofNat a.startIndex) vv.nodes

/-- `addRandomEntries`. -/
def addRandomEntries (budget : Nat) (selected : VersionVector) : VersionVector :=
  addEntries vv a (shuffledNodes P vv a) budget selected

/-- `noveltyNodes`: the nodes outside `noveltyBaseEntries`, most recent first. -/
def noveltyNodes : List NodeID :=
  sortBy (recentFirst vv) (vv.nodes.filter (· ∉ a.noveltyBaseEntries))

/-- `addNoveltyEntries`. -/
def addNoveltyEntries (budget : Nat) (selected : VersionVector) : VersionVector :=
  addEntries vv a (noveltyNodes vv a) budget selected

/-! ## Scores -/

/-- The candidate loop shared by the score helpers: score every node not yet
    selected, given its position in `orderedNodes`. -/
def candidates (score : NodeID → Nat → Option ℚ) (selected : VersionVector) :
    Option (List Candidate) :=
  (vv.nodes.zipIdx.filter fun p => !selected.has p.1).mapM fun p => do
    let s ← score p.1 p.2
    return ⟨p.1, s, vv.getLastUpdate p.1⟩

/-- The body shared by the score helpers: sort the candidates, add them in order. -/
def addScored (score : NodeID → Nat → Option ℚ) (before : Candidate → Candidate → Bool)
    (budget : Nat) (selected : VersionVector) : Option VersionVector :=
  if budget = 0 then some selected
  else do
    let cs ← candidates vv score selected
    return addEntries vv a ((sortBy before cs).map (·.nid)) budget selected

/-- What is added to the score of the preferred node. -/
def preferredBoost (nid : NodeID) : ℚ :=
  if !a.preferredNode.isEmpty && nid == a.preferredNode then max 0 a.scorePreferredBoost else 0

/-- `seqScore`. -/
def seqScore (nid : NodeID) : ℚ :=
  if maxSeq vv > 0 then (vv.get nid).toNat / maxSeq vv else 0

/-- `rrOffset`: how far node number `i` is behind the start index. -/
def rrOffset (i : Nat) : Option Nat := do
  let d ← sizeSub (i + vv.nodes.length) (a.startIndex % vv.nodes.length)
  return d % vv.nodes.length

/-- The weights of `addScoreEntries`: negative weights count as 0, all-zero weights
    fall back to the defaults, and the result sums to 1. -/
def scoreWeights : ℚ × ℚ × ℚ :=
  -- `std::max(0.0, …)`
  let seqWeight := max 0 a.scoreSeqWeight
  let recentWeight := max 0 a.scoreRecentWeight
  let fairWeight := max 0 a.scoreFairWeight
  let weightSum := seqWeight + recentWeight + fairWeight
  if weightSum ≤ 0 then (35 / 100, 45 / 100, 20 / 100)
  else (seqWeight / weightSum, recentWeight / weightSum, fairWeight / weightSum)

/-- `maxCompensationRounds`. -/
def maxCompensationRounds : Nat :=
  (vv.nodes.map fun nid => a.scoreCompensationRounds[nid]?.getD 0).foldl max 0

/-- `compensationScore`. -/
def compensationScore (nid : NodeID) : ℚ :=
  match a.scoreCompensationRounds[nid]? with
  | none => 0
  -- `compensationEpsilon` keeps the divisor positive
  | some rounds => rounds / (maxCompensationRounds vv a + 1 / 10 ^ 9)

/-- `recentScore` of `addScoreEntries`. -/
def recentScoreOf (nid : NodeID) : Option ℚ :=
  if (recentNodes vv).length ≤ 1 then some 1
  else (sizeSub (recentNodes vv).length 1).map fun d => 1 - ((recentNodes vv).idxOf nid : ℚ) / d

/-- The score of a node in `addScoreEntries`. -/
def scoreOf (nid : NodeID) (_ : Nat) : Option ℚ := do
  let recentScore ← recentScoreOf vv nid
  let (seqWeight, recentWeight, fairWeight) := scoreWeights a
  return seqWeight * seqScore vv nid + recentWeight * recentScore
    + fairWeight * compensationScore vv a nid + preferredBoost a nid

/-- `addScoreEntries`. -/
def addScoreEntries (budget : Nat) (selected : VersionVector) : Option VersionVector :=
  addScored vv a (scoreOf vv a) scoreFirst budget selected

/-- The score of node number `i` in `addAgeScoreEntries`. -/
def ageScoreOf (nid : NodeID) (i : Nat) : Option ℚ := do
  let ageScore ← normalizeRankScore ((agedNodes vv).idxOf nid) (agedNodes vv).length
  let offset ← rrOffset vv a i
  let fairScore ← normalizeRankScore offset vv.nodes.length
  return 25 / 100 * seqScore vv nid + 60 / 100 * ageScore + 15 / 100 * fairScore
    + preferredBoost a nid

/-- `addAgeScoreEntries`. -/
def addAgeScoreEntries (budget : Nat) (selected : VersionVector) : Option VersionVector :=
  addScored vv a (ageScoreOf vv a) scoreFirstOldest budget selected

/-- `deficitScore`. -/
def deficitOf (nid : NodeID) : Option ℚ :=
  if maxSeq vv > 0 then
    (sizeSub (maxSeq vv) (vv.get nid).toNat).map fun d => (d : ℚ) / maxSeq vv
  else some 0

/-- The score of node number `i` in `addDeficitScoreEntries`. -/
def deficitScoreOf (nid : NodeID) (i : Nat) : Option ℚ := do
  let deficitScore ← deficitOf vv nid
  let recentScore ← normalizeRankScore ((recentNodes vv).idxOf nid) (recentNodes vv).length
  let offset ← rrOffset vv a i
  let fairScore ← normalizeRankScore offset vv.nodes.length
  return 55 / 100 * deficitScore + 25 / 100 * recentScore + 20 / 100 * fairScore
    + preferredBoost a nid

/-- `addDeficitScoreEntries`. -/
def addDeficitScoreEntries (budget : Nat) (selected : VersionVector) : Option VersionVector :=
  addScored vv a (deficitScoreOf vv a) scoreFirst budget selected

/-! ## Clusters -/

/-- The cluster key of a node. -/
def clusterKey (nid : NodeID) : List Char := extractClusterKey (P.toUri nid)

/-- The loop of `addClusterRecentEntries`: one node for each cluster not yet seen.
    Returns what is left of the budget. -/
def addUnseenClusters : List NodeID → List (List Char) → Nat → VersionVector →
    VersionVector × Nat
  | [], _, budget, selected => (selected, budget)
  | nid :: rest, seenClusters, budget, selected =>
    if selected.size ≥ a.maxEntries || budget == 0 then (selected, budget)
    else if clusterKey P nid ∈ seenClusters then
      addUnseenClusters rest seenClusters budget selected
    else
      -- a cluster is seen only once an entry of it was added
      match addEntry vv nid selected with
      | (selected, true) =>
        addUnseenClusters rest (clusterKey P nid :: seenClusters) (budget - 1) selected
      | (selected, false) => addUnseenClusters rest seenClusters budget selected

/-- `addClusterRecentEntries`. -/
def addClusterRecentEntries (budget : Nat) (selected : VersionVector) : VersionVector :=
  if budget = 0 then selected
  else
    -- first one node for each new cluster, then recent nodes with what is left
    let (selected, budget) :=
      addUnseenClusters P vv a (recentNodes vv) (selected.nodes.map (clusterKey P)) budget selected
    if budget > 0 then addRecentEntries vv a budget selected else selected

/-- The score of node number `i` in `addClusterScoreEntries`; `selectedPerCluster`
    lists the cluster of every selected node. -/
def clusterScoreOf (selectedPerCluster : List (List Char)) (nid : NodeID) (i : Nat) :
    Option ℚ := do
  let recentScore ← normalizeRankScore ((recentNodes vv).idxOf nid) (recentNodes vv).length
  let offset ← rrOffset vv a i
  let fairScore ← normalizeRankScore offset vv.nodes.length
  let clusterCount := selectedPerCluster.count (clusterKey P nid)
  let clusterBonus : ℚ :=
    if clusterCount = 0 then 30 / 100 else max 0 (18 / 100 - 8 / 100 * clusterCount)
  return 28 / 100 * seqScore vv nid + 42 / 100 * recentScore + 18 / 100 * fairScore + clusterBonus
    + preferredBoost a nid

/-- The running maximum of the inner loop of `addClusterScoreEntries`. -/
structure Best where
  added : Bool := false
  bestNid : NodeID := EMPTY_NODE_ID
  bestScore : ℚ := -1
  bestTs : TimePoint := TimePoint.max

/-- One round of the inner loop of `addClusterScoreEntries`. -/
def Best.consider (best : Best) (nid : NodeID) (score : ℚ) (ts : TimePoint) : Best :=
  if score > best.bestScore || (score == best.bestScore && ts > best.bestTs) then
    { added := true, bestNid := nid, bestScore := score, bestTs := ts }
  else best

/-- The inner loop of `addClusterScoreEntries`. -/
def bestCandidate (selectedPerCluster : List (List Char)) (selected : VersionVector) :
    Option Best := do
  let cs ← candidates vv (clusterScoreOf P vv a selectedPerCluster) selected
  return cs.foldl (fun best c => best.consider c.nid c.score c.ts) {}

/-- The outer loop of `addClusterScoreEntries`; each round spends one of the budget. -/
def addBestClusters : Nat → List (List Char) → VersionVector → Option VersionVector
  | 0, _, selected => some selected
  | budget + 1, selectedPerCluster, selected =>
    if selected.size < a.maxEntries then do
      let best ← bestCandidate P vv a selectedPerCluster selected
      -- `break` where no candidate beat the initial score, or the best was not added
      if !best.added then return selected
      else
        match addEntry vv best.bestNid selected with
        | (selected, true) =>
          addBestClusters budget (clusterKey P best.bestNid :: selectedPerCluster) selected
        | (selected, false) => return selected
    else some selected

/-- `addClusterScoreEntries`. -/
def addClusterScoreEntries (budget : Nat) (selected : VersionVector) : Option VersionVector :=
  addBestClusters P vv a budget (selected.nodes.map (clusterKey P)) selected

/-! ## The strategy switch -/

/-- `fairnessReserve`. -/
def fairnessReserve : Option Nat :=
  if a.maxEntries ≥ 4 then do
    let most ← sizeSub a.maxEntries 1
    return min most (max 1 a.minFairEntries)
  else some 0

/-- The budget of a first phase that leaves `reserve` slots if it can. -/
def reservedBudget (reserve : Nat) (selected : VersionVector) : Option Nat := do
  let room ← sizeSub a.maxEntries selected.size
  -- without room for the reserve the first phase gets all of it
  if a.maxEntries > selected.size + reserve then sizeSub room reserve else return room

/-- `if (reserve > 0 && selected.size() < maxEntries) addRoundRobinEntries(min(reserve, …))`. -/
def addFairEntries (reserve : Nat) (selected : VersionVector) : Option VersionVector :=
  if reserve > 0 ∧ selected.size < a.maxEntries then do
    let room ← sizeSub a.maxEntries selected.size
    return addRoundRobinEntries vv a (min reserve room) selected
  else some selected

/-- `if (selected.size() < maxEntries) add(maxEntries - selected.size())`. -/
def addIntoRoom (add : Nat → VersionVector → Option VersionVector) (selected : VersionVector) :
    Option VersionVector :=
  if selected.size < a.maxEntries then do
    let room ← sizeSub a.maxEntries selected.size
    add room selected
  else some selected

/-- `if (budget > 0) add(budget)`. -/
def addIfAny (add : Nat → VersionVector → Option VersionVector) (budget : Nat)
    (selected : VersionVector) : Option VersionVector :=
  if budget > 0 then add budget selected else some selected

/-- The final round-robin fill of most strategies. -/
def fillRoundRobin (selected : VersionVector) : Option VersionVector :=
  addIntoRoom a (fun room s => some (addRoundRobinEntries vv a room s)) selected

/-- `case Recent`. -/
def selectRecent (selected : VersionVector) : Option VersionVector := do
  let room ← sizeSub a.maxEntries selected.size
  return addRecentEntries vv a a.maxEntries
    (addStickyEntries vv a (min a.stickyBudget room) selected)

/-- `case StickyRecent`. -/
def selectStickyRecent (selected : VersionVector) : Option VersionVector := do
  let room ← sizeSub a.maxEntries selected.size
  let selected := addStickyEntries vv a (min a.stickyBudget room) selected
  let room ← sizeSub a.maxEntries selected.size
  let selected := addRecentEntries vv a room selected
  fillRoundRobin vv a selected

/-- `recentBudget` of the quota strategies: what the quota leaves. -/
def recentBudget (quota : Nat) (selected : VersionVector) : Option Nat := do
  let room ← sizeSub a.maxEntries selected.size
  if a.maxEntries > selected.size + quota then sizeSub room quota else some 0

/-- `if (quota > 0) addQuota(min(quota, maxEntries - selected.size()))`. -/
def spendQuota (addQuota : Nat → VersionVector → VersionVector) (quota : Nat)
    (selected : VersionVector) : Option VersionVector :=
  if quota > 0 then do
    let room ← sizeSub a.maxEntries selected.size
    return addQuota (min quota room) selected
  else some selected

/-- `case RecentNoveltyQuota` and `case RecentRandomQuota`, which differ in the
    helper that spends the quota. -/
def selectQuota (addQuota : Nat → VersionVector → VersionVector) (selected : VersionVector) :
    Option VersionVector := do
  let room ← sizeSub a.maxEntries selected.size
  let quota := min a.noveltyBudget room
  -- recent nodes, then the quota, then whatever fills the rest
  let budget ← recentBudget a quota selected
  let selected ← addIfAny (fun budget s => some (addRecentEntries vv a budget s)) budget selected
  let selected ← spendQuota a addQuota quota selected
  let selected ← addIntoRoom a (fun room s => some (addRecentEntries vv a room s)) selected
  fillRoundRobin vv a selected

/-- `case AgeScore`, `case DeficitScore` and `case ClusterScore`, which differ in
    the helper that scores. -/
def selectScoredWithReserve (addScored : Nat → VersionVector → Option VersionVector)
    (selected : VersionVector) : Option VersionVector := do
  let reserve ← fairnessReserve a
  let budget ← reservedBudget a reserve selected
  let selected ← addIfAny addScored budget selected
  let selected ← addFairEntries vv a reserve selected
  let selected ← addIntoRoom a addScored selected
  fillRoundRobin vv a selected

/-- `hotTarget` of `case Hybrid` before the selected entries are counted: the hot
    share of the budget, cut back to leave the reserve. -/
def hotShare (reserve : Nat) : Option Nat :=
  let boundedHotRatio := clamp a.hotRatio (50 / 100) (95 / 100)
  let target := ⌈(a.maxEntries : ℚ) * boundedHotRatio⌉₊
  -- this cut leaves room for the reserve; `hotTarget` may undo it
  if target + reserve > a.maxEntries then sizeSub a.maxEntries reserve else some target

/-- `hotTarget` of `case Hybrid`. -/
def hotTarget (reserve : Nat) (selected : VersionVector) : Option Nat := do
  let target ← hotShare a reserve
  let target := max target selected.size
  -- raised again for the recent entries, with no regard to the reserve
  return max target (min a.maxEntries (sizeAdd selected.size (max 1 a.recentEntries)))

/-- `if (target > selected.size()) addRecentEntries(target - selected.size())`. -/
def addHotEntries (target : Nat) (selected : VersionVector) : Option VersionVector :=
  if target > selected.size then do
    let budget ← sizeSub target selected.size
    return addRecentEntries vv a budget selected
  else some selected

/-- `case Hybrid`. -/
def selectHybrid (selected : VersionVector) : Option VersionVector := do
  let reserve ← fairnessReserve a
  let target ← hotTarget a reserve selected
  let selected ← addHotEntries vv a target selected
  let selected ← addFairEntries vv a reserve selected
  let selected ← addIntoRoom a (fun room s => some (addRecentEntries vv a room s)) selected
  fillRoundRobin vv a selected

/-- `case ClusterHybrid`. -/
def selectClusterHybrid (selected : VersionVector) : Option VersionVector := do
  let reserve ← fairnessReserve a
  let budget ← reservedBudget a reserve selected
  -- as in `hotTarget`, raised for the recent entries after the reserve was subtracted
  let budget := max budget
    (min a.maxEntries (if a.recentEntries > 0 then a.recentEntries else 1))
  let selected ←
    addIfAny (fun budget s => some (addClusterRecentEntries P vv a budget s)) budget selected
  let selected ← addFairEntries vv a reserve selected
  let selected ←
    addIntoRoom a (fun room s => some (addClusterRecentEntries P vv a room s)) selected
  fillRoundRobin vv a selected

/-- `case Score`. -/
def selectScore (selected : VersionVector) : Option VersionVector := do
  let room ← sizeSub a.maxEntries selected.size
  addScoreEntries vv a room selected

/-- The `switch (strategy)`. -/
def selectByStrategy (selected : VersionVector) : Option VersionVector :=
  match a.strategy with
  | .Recent => selectRecent vv a selected
  | .StickyRecent => selectStickyRecent vv a selected
  | .RecentNoveltyQuota => selectQuota vv a (addNoveltyEntries vv a) selected
  | .RecentRandomQuota => selectQuota vv a (addRandomEntries P vv a) selected
  | .AdaptiveRecentScore => some (addRecentEntries vv a a.maxEntries selected)
  | .Random => some (addUntilFull vv a (shuffledNodes P vv a) selected)
  | .RoundRobin => some (addRoundRobinEntries vv a a.maxEntries selected)
  | .Score => selectScore vv a selected
  | .AgeScore => selectScoredWithReserve vv a (addAgeScoreEntries vv a) selected
  | .DeficitScore => selectScoredWithReserve vv a (addDeficitScoreEntries vv a) selected
  | .ClusterScore => selectScoredWithReserve vv a (addClusterScoreEntries P vv a) selected
  | .Hybrid => selectHybrid vv a selected
  | .ClusterHybrid => selectClusterHybrid P vv a selected
  -- `case Full` and `default`; `Full` has returned before the switch
  | .Full => some (addRoundRobinEntries vv a a.maxEntries selected)

/-- `selected` before the switch: the preferred node, if there is one. -/
def selectPreferred : VersionVector :=
  if a.preferredNode.isEmpty then .empty else (addEntry vv a.preferredNode .empty).1

/-- `VersionVector::selectSubset`; `none` would mean a wrapped subtraction. -/
def selectSubset? : Option VersionVector :=
  if a.maxEntries = 0 ∨ vv.size = 0 then some .empty
  else if a.strategy = .Full ∨ vv.size ≤ a.maxEntries then some vv
  else selectByStrategy P vv a (selectPreferred vv a)

end

end Svs
