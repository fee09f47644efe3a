import Svs.ForStd.List
import Svs.Spec.StepCorrect
import Svs.Spec.SubsetCorrect

/-!
# The boost of the preferred node

The boost is added to the score of the preferred node alone, and only nodes that have not
been selected are scored.  The preferred node is selected before them all, or is not in the
vector.

## Key results

- `selectSubset_boost`: the selection does not depend on the boost
- `boost_unused`: nor does any Sync Interest of a run
-/

namespace Svs

open Std VersionVector

/-- The same arguments with another boost. -/
abbrev SubsetArgs.withBoost (a : SubsetArgs) (b : ℚ) : SubsetArgs := { a with scorePreferredBoost := b }

/-- The preferred node is no candidate any more. -/
def Settled (vv : VersionVector) (a : SubsetArgs) (sel : VersionVector) : Prop :=
  a.preferredNode.isEmpty = false → vv.has a.preferredNode = true → sel.has a.preferredNode = true

section

variable {P : Platform} {vv : VersionVector} {a : SubsetArgs} {sel sel' : VersionVector} {b : ℚ}

theorem Settled.mono (h : Settled vv a sel) (hmono : ∀ nid, sel.has nid = true → sel'.has nid = true) :
    Settled vv a sel' :=
  fun hne hhas => hmono _ (h hne hhas)

theorem settled_selectPreferred (vv : VersionVector) (a : SubsetArgs) :
    Settled vv a (selectPreferred vv a) :=
  fun hne hhas => has_selectPreferred hne hhas

/-- A node that is still to be selected is not boosted. -/
theorem Settled.preferredBoost_eq (h : Settled vv a sel) {nid : NodeID} (hn : nid ∈ vv.nodes)
    (hsel : sel.has nid = false) :
    preferredBoost (a.withBoost b) nid = preferredBoost a nid := by
  rw [preferredBoost, preferredBoost]
  cases hne : a.preferredNode.isEmpty with
  | true => rfl
  | false =>
    have hother : (nid == a.preferredNode) = false := by
      rw [beq_eq_false_iff_ne]
      rintro rfl
      rw [h hne ((mem_nodes vv _).mp hn)] at hsel
      exact Bool.noConfusion hsel
    rw [if_neg (by simp [hother]), if_neg (by simp [hother])]

/-! ## The walks -/

@[simp] theorem addEntries_boost :
    addEntries vv (a.withBoost b) = addEntries vv a := by
  funext l
  induction l with
  | nil => rfl
  | cons nid rest ih =>
    funext budget sel
    rw [addEntries, addEntries, ih]

@[simp] theorem addUntilFull_boost :
    addUntilFull vv (a.withBoost b) = addUntilFull vv a := by
  funext l
  induction l with
  | nil => rfl
  | cons nid rest ih =>
    funext sel
    rw [addUntilFull, addUntilFull, ih]

@[simp] theorem addUnseenClusters_boost :
    addUnseenClusters P vv (a.withBoost b) = addUnseenClusters P vv a := by
  funext l
  induction l with
  | nil => rfl
  | cons nid rest ih =>
    funext seenClusters budget sel
    rw [addUnseenClusters, addUnseenClusters, ih]

@[simp] theorem addRecentEntries_boost :
    addRecentEntries vv (a.withBoost b) = addRecentEntries vv a := by
  funext budget sel
  rw [addRecentEntries, addRecentEntries, addEntries_boost]

@[simp] theorem addStickyEntries_boost :
    addStickyEntries vv (a.withBoost b) = addStickyEntries vv a := by
  funext budget sel
  rw [addStickyEntries, addStickyEntries, addEntries_boost]

@[simp] theorem addRoundRobinEntries_boost :
    addRoundRobinEntries vv (a.withBoost b) = addRoundRobinEntries vv a := by
  funext budget sel
  rw [addRoundRobinEntries, addRoundRobinEntries, addEntries_boost]
  rfl

@[simp] theorem addRandomEntries_boost :
    addRandomEntries P vv (a.withBoost b) = addRandomEntries P vv a := by
  funext budget sel
  rw [addRandomEntries, addRandomEntries, addEntries_boost]
  rfl

@[simp] theorem addNoveltyEntries_boost :
    addNoveltyEntries vv (a.withBoost b) = addNoveltyEntries vv a := by
  funext budget sel
  rw [addNoveltyEntries, addNoveltyEntries, addEntries_boost]
  rfl

@[simp] theorem addClusterRecentEntries_boost :
    addClusterRecentEntries P vv (a.withBoost b) = addClusterRecentEntries P vv a := by
  funext budget sel
  rw [addClusterRecentEntries, addClusterRecentEntries, addUnseenClusters_boost, addRecentEntries_boost]

@[simp] theorem fillRoundRobin_boost :
    fillRoundRobin vv (a.withBoost b) = fillRoundRobin vv a := by
  funext sel
  rw [fillRoundRobin, fillRoundRobin, addRoundRobinEntries_boost]
  rfl

@[simp] theorem addFairEntries_boost :
    addFairEntries vv (a.withBoost b) = addFairEntries vv a := by
  funext reserve sel
  rw [addFairEntries, addFairEntries, addRoundRobinEntries_boost]

@[simp] theorem addHotEntries_boost :
    addHotEntries vv (a.withBoost b) = addHotEntries vv a := by
  funext target sel
  rw [addHotEntries, addHotEntries, addRecentEntries_boost]

/-! ## The scores -/

/-- Scores that agree on the nodes that are still to be selected. -/
theorem candidates_congr {score score' : NodeID → Nat → Option ℚ}
    (h : ∀ nid ∈ vv.nodes, sel.has nid = false → ∀ i, score nid i = score' nid i) :
    candidates vv score sel = candidates vv score' sel := by
  apply List.mapM_option_congr
  rintro ⟨nid, i⟩ hmem
  obtain ⟨hzip, hsel⟩ := List.mem_filter.mp hmem
  rw [h nid (List.fst_mem_of_mem_zipIdx hzip) (by simpa using hsel) i]

theorem addScored_congr {score score' : NodeID → Nat → Option ℚ} {before : Candidate → Candidate → Bool}
    (h : ∀ nid ∈ vv.nodes, sel.has nid = false → ∀ i, score nid i = score' nid i) (budget : Nat) :
    addScored vv (a.withBoost b) score before budget sel =
      addScored vv a score' before budget sel := by
  rw [addScored, addScored, candidates_congr h, addEntries_boost]

theorem addScoreEntries_boost (h : Settled vv a sel) (budget : Nat) :
    addScoreEntries vv (a.withBoost b) budget sel = addScoreEntries vv a budget sel := by
  refine addScored_congr (a := a) (fun nid hn hsel i => ?_) budget
  rw [scoreOf, scoreOf, h.preferredBoost_eq hn hsel]
  rfl

theorem addAgeScoreEntries_boost (h : Settled vv a sel) (budget : Nat) :
    addAgeScoreEntries vv (a.withBoost b) budget sel =
      addAgeScoreEntries vv a budget sel := by
  refine addScored_congr (a := a) (fun nid hn hsel i => ?_) budget
  rw [ageScoreOf, ageScoreOf, h.preferredBoost_eq hn hsel]
  rfl

theorem addDeficitScoreEntries_boost (h : Settled vv a sel) (budget : Nat) :
    addDeficitScoreEntries vv (a.withBoost b) budget sel =
      addDeficitScoreEntries vv a budget sel := by
  refine addScored_congr (a := a) (fun nid hn hsel i => ?_) budget
  rw [deficitScoreOf, deficitScoreOf, h.preferredBoost_eq hn hsel]
  rfl

theorem bestCandidate_boost (h : Settled vv a sel) (clusters : List (List Char)) :
    bestCandidate P vv (a.withBoost b) clusters sel =
      bestCandidate P vv a clusters sel := by
  have hcandidates : candidates vv (clusterScoreOf P vv (a.withBoost b) clusters) sel =
      candidates vv (clusterScoreOf P vv a clusters) sel := by
    apply candidates_congr
    intro nid hn hsel i
    rw [clusterScoreOf, clusterScoreOf, h.preferredBoost_eq hn hsel]
    rfl
  rw [bestCandidate, bestCandidate, hcandidates]

/-- Every round of the outer loop scores only what the rounds before it have left. -/
theorem addBestClusters_boost (h : Settled vv a sel) (budget : Nat) (clusters : List (List Char)) :
    addBestClusters P vv (a.withBoost b) budget clusters sel =
      addBestClusters P vv a budget clusters sel := by
  induction budget generalizing sel clusters with
  | zero => rfl
  | succ budget ih =>
    rw [addBestClusters, addBestClusters, bestCandidate_boost h]
    dsimp only
    split
    · refine Option.bind_congr fun best _ => ?_
      split
      · rfl
      · split
        · next sel' hadd =>
          have hsel' : (addEntry vv best.bestNid sel).1 = sel' := by rw [hadd]
          refine ih (h.mono fun nid hhas => ?_) _
          rw [← hsel']
          exact (has_addEntry _ _ _ _).mpr (.inl hhas)
        · rfl
    · rfl

/-! ## The strategies -/

theorem selectQuota_boost {add add' : Nat → VersionVector → VersionVector} (h : add' = add) :
    selectQuota vv (a.withBoost b) add' sel = selectQuota vv a add sel := by
  subst h
  rw [selectQuota, selectQuota, addRecentEntries_boost, fillRoundRobin_boost]
  rfl

theorem selectHybrid_boost :
    selectHybrid vv (a.withBoost b) sel = selectHybrid vv a sel := by
  rw [selectHybrid, selectHybrid, addHotEntries_boost, addRecentEntries_boost, fillRoundRobin_boost,
    addFairEntries_boost]
  rfl

theorem selectClusterHybrid_boost :
    selectClusterHybrid P vv (a.withBoost b) sel = selectClusterHybrid P vv a sel := by
  rw [selectClusterHybrid, selectClusterHybrid, addClusterRecentEntries_boost, fillRoundRobin_boost,
    addFairEntries_boost]
  rfl

/-- The strategies with a reserve score before the reserve is filled, and after. -/
theorem selectScoredWithReserve_boost {add add' : Nat → VersionVector → Option VersionVector}
    (hsub : SubVector vv sel) (hsize : sel.size ≤ a.maxEntries) (h : Settled vv a sel)
    (hadd : ∀ s, Settled vv a s → ∀ budget, add' budget s = add budget s)
    (hselects : ∀ s, SubVector vv s → s.size ≤ a.maxEntries → ∀ budget, Selects vv a s (add budget s)) :
    selectScoredWithReserve vv (a.withBoost b) add' sel =
      selectScoredWithReserve vv a add sel := by
  rw [selectScoredWithReserve, selectScoredWithReserve, addFairEntries_boost, fillRoundRobin_boost]
  refine Option.bind_congr fun reserve _ => Option.bind_congr fun budget _ => ?_
  have hfirst : addIfAny add' budget sel = addIfAny add budget sel := by
    rw [addIfAny, addIfAny, hadd sel h]
  rw [hfirst]
  refine Option.bind_congr fun s hs => Option.bind_congr fun s' hs' => ?_
  -- the preferred node stays selected
  obtain ⟨_, heq, hext⟩ := selects_addIfAny hsub hsize (fun budget => hselects sel hsub hsize budget)
  obtain rfl := Option.some.inj (hs.symm.trans heq)
  obtain ⟨_, heq', hext'⟩ := selects_addFairEntries hext.sub hext.size_le reserve
  obtain rfl := Option.some.inj (hs'.symm.trans heq')
  have hsettled : Settled vv a s' := (h.mono hext.mono).mono hext'.mono
  rw [addIntoRoom, addIntoRoom]
  simp only [hadd s' hsettled]

theorem selectByStrategy_boost (hsub : SubVector vv sel) (hsize : sel.size ≤ a.maxEntries)
    (h : Settled vv a sel) :
    selectByStrategy P vv (a.withBoost b) sel = selectByStrategy P vv a sel := by
  have hstrategy : (a.withBoost b).strategy = a.strategy := rfl
  rw [selectByStrategy, selectByStrategy, hstrategy]
  cases a.strategy with
  | Recent =>
    dsimp only
    rw [selectRecent, selectRecent, addRecentEntries_boost, addStickyEntries_boost]
  | StickyRecent =>
    dsimp only
    rw [selectStickyRecent, selectStickyRecent, addRecentEntries_boost, addStickyEntries_boost,
      fillRoundRobin_boost]
  | RecentNoveltyQuota => exact selectQuota_boost addNoveltyEntries_boost
  | RecentRandomQuota => exact selectQuota_boost addRandomEntries_boost
  | AdaptiveRecentScore =>
    dsimp only
    rw [addRecentEntries_boost]
  | Random =>
    dsimp only
    rw [addUntilFull_boost]
    rfl
  | RoundRobin | Full =>
    dsimp only
    rw [addRoundRobinEntries_boost]
  | Score =>
    dsimp only
    rw [selectScore, selectScore]
    exact Option.bind_congr fun room _ => addScoreEntries_boost h room
  | AgeScore =>
    exact selectScoredWithReserve_boost hsub hsize h (fun _ hs budget => addAgeScoreEntries_boost hs budget)
      fun _ hs hs' _ => selects_addScored hs hs' fun _ hn i => ageScoreOf_isSome hn i
  | DeficitScore =>
    exact selectScoredWithReserve_boost hsub hsize h (fun _ hs budget => addDeficitScoreEntries_boost hs budget)
      fun _ hs hs' _ => selects_addScored hs hs' fun _ hn i => deficitScoreOf_isSome hn i
  | ClusterScore =>
    exact selectScoredWithReserve_boost hsub hsize h (fun _ hs budget => addBestClusters_boost hs budget _)
      fun _ hs hs' _ => selects_addBestClusters hs hs'
  | Hybrid => exact selectHybrid_boost
  | ClusterHybrid => exact selectClusterHybrid_boost

end

/-- The selection is the same for every boost. -/
theorem selectSubset_boost (P : Platform) (vv : VersionVector) (a : SubsetArgs) (b : ℚ) :
    selectSubset P vv (a.withBoost b) = selectSubset P vv a := by
  have hsame : selectSubset? P vv (a.withBoost b) = selectSubset? P vv a := by
    rw [selectSubset?, selectSubset?]
    split
    · rfl
    · next hpos =>
      split
      · rfl
      · have hone : 1 ≤ a.maxEntries := by
          dsimp only at hpos
          omega
        exact selectByStrategy_boost (subVector_selectPreferred vv a)
          ((size_selectPreferred_le vv a).trans hone) (settled_selectPreferred vv a)
  rw [selectSubset?_eq_some, selectSubset?_eq_some] at hsame
  exact Option.some.inj hsame

/-! ## Runs -/

/-- The same configuration with another boost. -/
abbrev Config.withBoost (cfg : Config) (b : ℚ) : Config := { cfg with scorePreferredBoost := b }

namespace Core

variable (P : Platform) (cfg : Config) (m : Moment) (c : Core) (b : ℚ)

/-- The boost of the configuration goes into the boost of the selection. -/
theorem subsetArgs_boost (limit : Nat) :
    ∃ b', subsetArgs (cfg.withBoost b) m c limit = (subsetArgs cfg m c limit).withBoost b' :=
  ⟨(subsetArgs (cfg.withBoost b) m c limit).scorePreferredBoost, rfl⟩

theorem buildSyncVector_boost : buildSyncVector P (cfg.withBoost b) m c = buildSyncVector P cfg m c := by
  obtain ⟨b', hargs⟩ := subsetArgs_boost cfg m c b (getStateVectorLimit cfg c c.vv.size)
  have hlimit : getStateVectorLimit (cfg.withBoost b) c c.vv.size = getStateVectorLimit cfg c c.vv.size := rfl
  rw [buildSyncVector, buildSyncVector]
  dsimp only
  rw [hlimit, hargs, selectSubset_boost]
  rfl

theorem sendSyncInterest_boost : sendSyncInterest P (cfg.withBoost b) m c = sendSyncInterest P cfg m c := by
  rw [sendSyncInterest, sendSyncInterest, buildSyncVector_boost]
  rfl

theorem retxSyncInterest_boost (send : Bool) (delay : Nat) :
    retxSyncInterest P (cfg.withBoost b) m send delay c = retxSyncInterest P cfg m send delay c := by
  have hsend : sendUnlessSuppressed P (cfg.withBoost b) m c = sendUnlessSuppressed P cfg m c := by
    rw [sendUnlessSuppressed, sendUnlessSuppressed]
    simp only [sendSyncInterest_boost]
  rw [retxSyncInterest, retxSyncInterest, hsend]
  rfl

@[simp] theorem scheduleRetx_boost (delay : Nat) :
    scheduleRetx (cfg.withBoost b) m delay c = scheduleRetx cfg m delay c := rfl

@[simp] theorem updateSyncInterval_boost (signal : SyncSignal) :
    updateSyncInterval (cfg.withBoost b) m signal c = updateSyncInterval cfg m signal c := rfl

@[simp] theorem observePropagationFeedback_boost (vvOther : VersionVector) :
    observePropagationFeedback (cfg.withBoost b) m vvOther c = observePropagationFeedback cfg m vvOther c := rfl

theorem receiveResult_boost (vvOther : VersionVector) :
    receiveResult (cfg.withBoost b) m vvOther c = receiveResult cfg m vvOther c := by
  rw [receiveResult, receiveResult, observePropagationFeedback_boost]

theorem received_boost (vvOther : VersionVector) :
    received (cfg.withBoost b) m vvOther c = received cfg m vvOther c := by
  rw [received, received, observePropagationFeedback_boost, receiveResult_boost, updateSyncInterval_boost]

theorem receiveEffects_boost (vvOther : VersionVector) (face : UInt64) :
    receiveEffects (cfg.withBoost b) m vvOther face c = receiveEffects cfg m vvOther face c := by
  rw [receiveEffects, receiveEffects, receiveResult_boost]

@[simp] theorem answerOrReset_boost (vvOther : VersionVector) (myVectorNew : Bool) :
    answerOrReset P (cfg.withBoost b) m vvOther myVectorNew c =
      answerOrReset P cfg m vvOther myVectorNew c := rfl

theorem processVector_boost (vvOther : VersionVector) (incomingFace : UInt64) :
    processVector P (cfg.withBoost b) m vvOther incomingFace c =
      processVector P cfg m vvOther incomingFace c := by
  rw [processVector_eq, processVector_eq]
  dsimp only
  rw [received_boost, receiveResult_boost, receiveEffects_boost, answerOrReset_boost]

theorem updateSeqNo_boost (seq : SeqNo) (nid : NodeID) :
    updateSeqNo (cfg.withBoost b) m seq nid c = updateSeqNo cfg m seq nid c := by
  rw [updateSeqNo, updateSeqNo]
  simp only [announceUpdate, updateSyncInterval_boost, scheduleRetx_boost]
  rfl

/-- No event of a node depends on the boost. -/
theorem step_boost (e : Event) : step P (cfg.withBoost b) m e c = step P cfg m e c := by
  cases e with
  | start => exact retxSyncInterest_boost P cfg m _ b true 0
  | syncInterest vvOther face => exact processVector_boost P cfg m c b vvOther face
  | retx => exact retxSyncInterest_boost P cfg m c b true 0
  | updateSeqNo seq nid => exact congrArg (·, []) (updateSeqNo_boost cfg m c b seq nid)

/-- What each event of a run does outside the core, and the state after it. -/
def trace (P : Platform) (cfg : Config) : List (Moment × Event) → Core → List (Core × List Effect)
  | [], _ => []
  | (m, e) :: events, c => step P cfg m e c :: trace P cfg events (step P cfg m e c).1

theorem trace_boost (events : List (Moment × Event)) :
    trace P (cfg.withBoost b) events c = trace P cfg events c := by
  induction events generalizing c with
  | nil => rfl
  | cons event events ih =>
    obtain ⟨m, e⟩ := event
    rw [trace, trace, step_boost, ih]

/-- Two nodes that differ in the configured boost alone go through the same states and send
    the same Sync Interests, and the selections below them are the same for any two boosts. -/
theorem boost_unused (P : Platform) :
    (∀ (vv : VersionVector) (a : SubsetArgs) (b b' : ℚ),
        selectSubset? P vv { a with scorePreferredBoost := b } =
          selectSubset? P vv { a with scorePreferredBoost := b' }) ∧
      (∀ (cfg : Config) (b b' : ℚ) (m : Moment) (c : Core),
        buildSyncVector P { cfg with scorePreferredBoost := b } m c =
          buildSyncVector P { cfg with scorePreferredBoost := b' } m c) ∧
      ∀ (cfg : Config) (b b' : ℚ) (uninitialized : Int) (events : List (Moment × Event)),
        trace P { cfg with scorePreferredBoost := b } events
            (init { cfg with scorePreferredBoost := b } uninitialized) =
          trace P { cfg with scorePreferredBoost := b' } events
            (init { cfg with scorePreferredBoost := b' } uninitialized) := by
  refine ⟨fun vv a b b' => ?_, fun cfg b b' m c => ?_, fun cfg b b' uninitialized events => ?_⟩
  · rw [selectSubset?_eq_some, selectSubset?_eq_some, selectSubset_boost P vv a b,
      selectSubset_boost P vv a b']
  · rw [buildSyncVector_boost P cfg m c b, buildSyncVector_boost P cfg m c b']
  · have hinit (b : ℚ) : init (cfg.withBoost b) uninitialized = init cfg uninitialized := rfl
    rw [hinit b, hinit b', trace_boost P cfg _ b, trace_boost P cfg _ b']

end Core

end Svs
