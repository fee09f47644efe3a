import Svs.ForStd.Compensation
import Svs.Spec.BuildRuns

/-!
# Coverage under `Score`

`Score` sends the preferred node and the candidates with the best scores.  What an entry
gains by waiting is at most the fair weight, so an entry is sent again and again iff
fewer others than there are slots are ahead of it by the fair weight or more in what
the sequence numbers and the update times count.

## Key results

- `has_score_iff`: which nodes a selection sends
- `scoreRounds`: consecutive calls as rounds of a compensated selection
- `score_covers_iff`: when every entry is sent again and again
-/

namespace Svs

open VersionVector

/-! ## The order of the candidates -/

/-- A sort by a comparison that compares keys leaves the keys in order. -/
theorem sortBy_pairwise {α β : Type*} [LinearOrder β] {before : α → α → Bool} (key : α → β)
    (h : ∀ x y, before x y = true ↔ key x < key y) (l : List α) :
    (sortBy before l).Pairwise fun x y => key x ≤ key y := by
  have hrel : ∀ x y, (!before y x) = true ↔ key x ≤ key y := by
    intro x y
    rw [Bool.not_eq_true', ← Bool.not_eq_true, h, not_lt]
  have htotal : Std.Total fun x y => (!before y x) = true :=
    ⟨fun x y => by simpa only [hrel] using le_total (key x) (key y)⟩
  have htrans : IsTrans α fun x y => (!before y x) = true :=
    ⟨fun x y z hxy hyz => (hrel x z).mpr (((hrel x y).mp hxy).trans ((hrel y z).mp hyz))⟩
  exact (List.pairwise_insertionSort _ l).imp fun hxy => (hrel _ _).mp hxy

/-- What `scoreFirst` compares, most significant part first. -/
def Candidate.key (c : Candidate) : ℚ ×ₗ ℤ ×ₗ Name := toLex (-c.score, toLex (-c.ts, c.nid))

theorem scoreFirst_iff (x y : Candidate) : scoreFirst x y = true ↔ x.key < y.key := by
  simp only [Candidate.key, Prod.Lex.toLex_lt_toLex, neg_lt_neg_iff, neg_inj, scoreFirst, TimePoint]
  rcases lt_trichotomy x.score y.score with hs | hs | hs
  · simp [hs.ne, hs.not_gt]
  · rcases lt_trichotomy x.ts y.ts with ht | ht | ht
    · simp [hs, ht.ne, ht.not_gt]
    · simp [hs, ht]
    · simp [hs, ht.ne', ht]
  · simp [hs.ne', hs]

/-! ## The selection -/

section

variable (vv : VersionVector) (a : SubsetArgs)

/-- The normalised fair weight. -/
def fairWeight : ℚ := (scoreWeights a).2.2

/-- What the sequence number and the update time count for a node. -/
def baseScore (nid : NodeID) : ℚ :=
  (scoreWeights a).1 * seqScore vv nid + (scoreWeights a).2.1 * (recentScoreOf vv nid).getD 0

/-- For how many rounds a node has gone unselected. -/
def roundsWaited (nid : NodeID) : Nat := a.scoreCompensationRounds[nid]?.getD 0

/-- The score of a node that is not preferred. -/
def totalScore (nid : NodeID) : ℚ :=
  baseScore vv a nid + fairWeight a * (roundsWaited a nid / (maxCompensationRounds vv a + 1 / 10 ^ 9))

/-- The nodes that the preferred one leaves. -/
def scoredNodes : List NodeID := vv.nodes.filter (!(selectPreferred vv a).has ·)

/-- The slots that the preferred node leaves. -/
def scoreSlots : Nat := a.maxEntries - (selectPreferred vv a).size

/-- The candidates. -/
def scoreCandidates : List Candidate :=
  (scoredNodes vv a).map fun nid => ⟨nid, totalScore vv a nid, vv.getLastUpdate nid⟩

/-- The nodes in the order of their scores. -/
def scoreOrder : List NodeID := (sortBy scoreFirst (scoreCandidates vv a)).map (·.nid)

variable {vv a}

theorem mem_scoredNodes (nid : NodeID) :
    nid ∈ scoredNodes vv a ↔ vv.has nid = true ∧ (selectPreferred vv a).has nid = false := by
  simp [scoredNodes, mem_nodes]

/-- No count exceeds `maxCompensationRounds`. -/
theorem roundsWaited_le {nid : NodeID} (hn : vv.has nid = true) :
    roundsWaited a nid ≤ maxCompensationRounds vv a := by
  rw [maxCompensationRounds, List.foldl_eq_foldr]
  exact List.le_max_of_le' 0 (List.mem_map.mpr ⟨nid, (mem_nodes vv nid).mpr hn, rfl⟩) le_rfl

/-- The score of a node that the preferred one leaves. -/
theorem scoreOf_eq {nid : NodeID} (h : nid ∈ scoredNodes vv a) (i : Nat) :
    scoreOf vv a nid i = some (totalScore vv a nid) := by
  obtain ⟨hn, hsel⟩ := (mem_scoredNodes nid).mp h
  -- the boost is for the preferred node, which is selected already
  have hboost : preferredBoost a nid = 0 := by
    rw [preferredBoost, if_neg]
    intro hpref
    rw [Bool.and_eq_true, Bool.not_eq_true', beq_iff_eq] at hpref
    have hhas := (has_selectPreferred_iff vv a nid).mpr ⟨hpref.1, hpref.2, hn⟩
    rw [hsel] at hhas
    cases hhas
  have hcomp : compensationScore vv a nid =
      roundsWaited a nid / (maxCompensationRounds vv a + 1 / 10 ^ 9) := by
    unfold compensationScore roundsWaited
    cases a.scoreCompensationRounds[nid]? <;> simp
  obtain ⟨recentScore, hrecent⟩ := Option.isSome_iff_exists.mp (recentScoreOf_isSome vv nid)
  rw [scoreOf, hrecent, totalScore, baseScore, hrecent, hboost, hcomp]
  exact congrArg some (add_zero _)

/-- The candidate loop scores the nodes that the preferred one leaves. -/
theorem candidates_score :
    candidates vv (scoreOf vv a) (selectPreferred vv a) = some (scoreCandidates vv a) := by
  have hnodes : scoredNodes vv a =
      (vv.nodes.zipIdx.filter fun p => !(selectPreferred vv a).has p.1).map Prod.fst := by
    have hfst : vv.nodes = vv.nodes.zipIdx.map Prod.fst := (List.zipIdx_map_fst 0 _).symm
    conv_lhs => rw [scoredNodes, hfst, List.filter_map]
    rfl
  rw [scoreCandidates, hnodes, List.map_map]
  apply List.mapM_eq_some_map
  intro p hp
  have hmem : p.1 ∈ scoredNodes vv a := hnodes ▸ List.mem_map_of_mem hp
  simp [scoreOf_eq hmem]

theorem scoreOrder_perm : (scoreOrder vv a).Perm (scoredNodes vv a) := by
  have hperm := (sortBy_perm scoreFirst (scoreCandidates vv a)).map (·.nid)
  rw [scoreCandidates, List.map_map] at hperm
  exact hperm.trans (.of_eq (List.map_id _))

/-- A node in front of another one has no smaller score. -/
theorem scoreOrder_pairwise :
    (scoreOrder vv a).Pairwise fun x y => totalScore vv a y ≤ totalScore vv a x := by
  rw [scoreOrder, List.pairwise_map]
  apply (sortBy_pairwise Candidate.key scoreFirst_iff (scoreCandidates vv a)).imp_of_mem
  intro x y hx hy hle
  -- the score of a candidate is that of its node
  have hscore : ∀ c ∈ sortBy scoreFirst (scoreCandidates vv a), c.score = totalScore vv a c.nid := by
    intro c hc
    obtain ⟨nid, -, rfl⟩ := List.mem_map.mp ((sortBy_perm _ _).mem_iff.mp hc)
    rfl
  rw [← hscore x hx, ← hscore y hy]
  rw [Candidate.key, Candidate.key, Prod.Lex.toLex_le_toLex] at hle
  rcases hle with hlt | ⟨heq, -⟩
  · exact (neg_lt_neg_iff.mp hlt).le
  · exact (neg_inj.mp heq).ge

variable (P : Platform) (hbig : a.maxEntries < vv.size)
include hbig

/-- There are enough nodes for the slots. -/
theorem scoreSlots_le : scoreSlots vv a ≤ (scoreOrder vv a).length := by
  have hcovers : Covers vv (selectPreferred vv a) vv.nodes := .of_perm_nodes (.refl _)
  have hlength := hcovers.length_unselected (subVector_selectPreferred vv a)
  rw [scoreOrder_perm.length_eq, scoredNodes, hlength, scoreSlots]
  omega

variable (hstrategy : a.strategy = .Score) (hpos : 1 ≤ a.maxEntries)
include hstrategy hpos

/-- The selection of `Score`: the preferred node, then the nodes in the order of their
    scores. -/
theorem selectSubset_score :
    selectSubset P vv a =
      addEntries vv a (scoreOrder vv a) (scoreSlots vv a) (selectPreferred vv a) := by
  have hsome := selectSubset?_eq_some P vv a
  have hpref := size_selectPreferred_le vv a
  rw [selectSubset?, if_neg (by omega), if_neg (by simp [hstrategy]; omega), selectByStrategy,
    hstrategy] at hsome
  simp only [selectScore, sizeSub_eq_some (hpref.trans hpos), addScoreEntries, addScored,
    candidates_score, Option.bind_eq_bind, Option.bind_some] at hsome
  split at hsome
  · next hzero =>
    rw [scoreSlots, addEntries_stop (Or.inr hzero)]
    exact (Option.some.inj hsome).symm
  · exact (Option.some.inj hsome).symm

/-- A node that the preferred one leaves is sent iff it is among the first in that order. -/
theorem has_score_iff {nid : NodeID} (h : nid ∈ scoredNodes vv a) :
    (selectSubset P vv a).has nid = true ↔ nid ∈ (scoreOrder vv a).take (scoreSlots vv a) := by
  have hnodup : (scoreOrder vv a).Nodup :=
    scoreOrder_perm.nodup_iff.mpr (vv.nodes_nodup.filter _)
  have hmem : ∀ n ∈ scoreOrder vv a, vv.has n = true ∧ (selectPreferred vv a).has n = false :=
    fun n hn => (mem_scoredNodes n).mp (scoreOrder_perm.mem_iff.mp hn)
  have hall : (scoreOrder vv a).filter (!(selectPreferred vv a).has ·) = scoreOrder vv a :=
    List.filter_eq_self.mpr fun n hn => by simp [(hmem n hn).2]
  rw [selectSubset_score P hbig hstrategy hpos, has_addEntries hnodup fun n hn => (hmem n hn).1, hall,
    ((mem_scoredNodes nid).mp h).2]
  simp [scoreSlots]

end

/-- How many entries that the preferred one leaves are ahead of an entry by the fair weight
    or more in what the sequence numbers and the update times count. -/
def rivalCount (vv : VersionVector) (a : SubsetArgs) (nid : NodeID) : Nat :=
  (scoredNodes vv a).countP fun n => baseScore vv a nid + fairWeight a ≤ baseScore vv a n

/-- These entries are the rivals of the entry in a selection with compensation. -/
theorem card_rivals (vv : VersionVector) (a : SubsetArgs) (nid : NodeID) :
    (Compensation.rivals (scoredNodes vv a).toFinset (baseScore vv a) (fairWeight a) nid).card =
      rivalCount vv a nid := by
  have hnodup : (scoredNodes vv a).Nodup := vv.nodes_nodup.filter _
  have hset : Compensation.rivals (scoredNodes vv a).toFinset (baseScore vv a) (fairWeight a) nid =
      ((scoredNodes vv a).filter fun n =>
        baseScore vv a nid + fairWeight a ≤ baseScore vv a n).toFinset := by
    ext n
    simp [Compensation.rivals]
  rw [hset, rivalCount, List.countP_eq_length_filter,
    List.toFinset_card_of_nodup (hnodup.filter _)]

/-! ## The counters -/

namespace Core

/-- A selection is told the counters of the nodes of the vector; others are erased. -/
theorem getElem?_scoreCompensationRounds (cfg : Config) (m : Moment) (c : Core) (limit : Nat)
    (nid : NodeID) :
    (subsetArgs cfg m c limit).scoreCompensationRounds[nid]? =
      if c.vv.has nid then c.scoreUnselectedRounds[nid]? else none := by
  have hfold : ∀ (l : List NodeID) (rounds : Std.ExtTreeMap NodeID Nat),
      (l.foldl (fun rounds nid => if c.vv.has nid then rounds else rounds.erase nid) rounds)[nid]? =
        if c.vv.has nid ∨ nid ∉ l then rounds[nid]? else none := by
    intro l
    induction l with
    | nil => simp
    | cons n l ih =>
      intro rounds
      rw [List.foldl_cons, ih]
      rcases eq_or_ne n nid with rfl | hne
      · cases c.vv.has n <;> simp
      · have hcmp : compare n nid ≠ .eq := fun heq => hne (compare_eq_iff_eq.mp heq)
        cases c.vv.has n <;> simp [Std.ExtTreeMap.getElem?_erase, hcmp, Ne.symm hne]
  refine (hfold _ _).trans ?_
  cases c.vv.has nid with
  | true => simp
  | false =>
    -- every counter there is has its turn
    simp only [Bool.false_eq_true, false_or, if_false, Std.ExtTreeMap.mem_keys]
    split
    · next hnot => exact Std.ExtTreeMap.getElem?_eq_none hnot
    · rfl

theorem roundsWaited_subsetArgs {cfg : Config} {m : Moment} {c : Core} {limit : Nat} {nid : NodeID}
    (hn : c.vv.has nid = true) :
    roundsWaited (subsetArgs cfg m c limit) nid = c.scoreUnselectedRounds[nid]?.getD 0 := by
  rw [roundsWaited, getElem?_scoreCompensationRounds, if_pos hn]

/-- The loop leaves other counters alone. -/
theorem getElem?_countUnselected_of_notMem {nodes : List NodeID} {nid : NodeID} (hnot : nid ∉ nodes)
    (selected : VersionVector) (rounds : Std.ExtTreeMap NodeID Nat) :
    (countUnselected nodes selected rounds)[nid]? = rounds[nid]? := by
  induction nodes generalizing rounds with
  | nil => rfl
  | cons n nodes ih =>
    rw [List.mem_cons, not_or] at hnot
    rw [countUnselected, List.foldl_cons]
    apply (ih hnot.2 _).trans
    rw [Std.ExtTreeMap.getElem?_insert', if_neg (Ne.symm hnot.1)]

/-- The counter of a node after a selection: the loop writes it once. -/
theorem getElem?_countUnselected {nodes : List NodeID} (hnodup : nodes.Nodup) {nid : NodeID}
    (hmem : nid ∈ nodes) (selected : VersionVector) (rounds : Std.ExtTreeMap NodeID Nat) :
    (countUnselected nodes selected rounds)[nid]? =
      some (if selected.has nid then 0 else rounds[nid]?.getD 0 + 1) := by
  induction nodes generalizing rounds with
  | nil => cases hmem
  | cons n nodes ih =>
    rw [List.nodup_cons] at hnodup
    rw [countUnselected, List.foldl_cons]
    rcases List.mem_cons.mp hmem with rfl | hmem
    · apply (getElem?_countUnselected_of_notMem hnodup.1 selected _).trans
      rw [Std.ExtTreeMap.getElem?_insert', if_pos rfl]
    · apply (ih hnodup.2 hmem _).trans
      have hne : n ≠ nid := fun heq => hnodup.1 (heq ▸ hmem)
      rw [Std.ExtTreeMap.getElem?_insert', if_neg hne]

section

variable (P : Platform) {cfg : Config} (m : ℕ → Moment) {c : Core}
  (hlimit : syncLimit cfg c < c.vv.size)
include hlimit

/-- A proper selection resets the counters of what it sends and raises the others. -/
theorem scoreUnselectedRounds_buildSyncVector (m : Moment) {nid : NodeID} (hn : c.vv.has nid = true) :
    (buildSyncVector P cfg m c).1.scoreUnselectedRounds[nid]? =
      some (if (buildSyncVector P cfg m c).2.has nid then 0
        else c.scoreUnselectedRounds[nid]?.getD 0 + 1) := by
  rw [buildSyncVector_selected P m hlimit]
  dsimp only
  rw [getElem?_countUnselected c.vv.nodes_nodup ((mem_nodes c.vv nid).mpr hn),
    getElem?_scoreCompensationRounds, if_pos hn]

/-- The arguments of call number `k`. -/
def argsOf (P : Platform) (cfg : Config) (m : ℕ → Moment) (c : Core) (k : ℕ) : SubsetArgs :=
  subsetArgs cfg (m k) (afterBuilds P cfg m c k) (syncLimit cfg c)

/-- A call resets the count of what it sends and raises the others. -/
theorem roundsWaited_succ {nid : NodeID} (hn : c.vv.has nid = true) (k : ℕ) :
    roundsWaited (argsOf P cfg m c (k + 1)) nid =
      if (builtVector P cfg m c k).has nid then 0 else roundsWaited (argsOf P cfg m c k) nid + 1 := by
  have hvv := (afterBuilds_frame P cfg m c k).1
  have hvv' := (afterBuilds_frame P cfg m c (k + 1)).1
  have hlim := syncLimit_afterBuilds P cfg m c k
  have hn₁ : (afterBuilds P cfg m c k).vv.has nid = true := by rw [hvv]; exact hn
  have hn₂ : (afterBuilds P cfg m c (k + 1)).vv.has nid = true := by rw [hvv']; exact hn
  rw [argsOf, argsOf, roundsWaited_subsetArgs hn₁, roundsWaited_subsetArgs hn₂, afterBuilds,
    scoreUnselectedRounds_buildSyncVector P (by rw [hlim, hvv]; exact hlimit) _ hn₁, Option.getD_some]
  rfl

/-- A call raises `maxCompensationRounds` by one at most. -/
theorem maxCompensationRounds_succ_le (k : ℕ) :
    maxCompensationRounds c.vv (argsOf P cfg m c (k + 1)) ≤
      maxCompensationRounds c.vv (argsOf P cfg m c k) + 1 := by
  rw [maxCompensationRounds, List.foldl_eq_foldr]
  apply List.max_le_of_forall_le
  intro x hx
  obtain ⟨nid, hmem, rfl⟩ := List.mem_map.mp hx
  have hn := (mem_nodes c.vv nid).mp hmem
  have hsucc := roundsWaited_succ P m hlimit hn k
  have hle : _ ≤ maxCompensationRounds c.vv (argsOf P cfg m c k) := roundsWaited_le hn
  rw [roundsWaited] at hsucc
  rw [hsucc]
  split <;> omega

variable (hscore : cfg.stateVectorStrategy = .Score)
include hscore

omit hlimit in
/-- The weights are the same in every call. -/
theorem scoreWeights_argsOf (k : ℕ) :
    scoreWeights (argsOf P cfg m c k) = scoreWeights (argsOf P cfg m c 0) := by
  obtain ⟨-, hhot, hact⟩ := afterBuilds_frame P cfg m c k
  have hotness_eq : hotness cfg (afterBuilds P cfg m c k) = hotness cfg c := by
    rw [hotness, hotness, hhot, hact]
  have hseq : (argsOf P cfg m c k).scoreSeqWeight = (argsOf P cfg m c 0).scoreSeqWeight := by
    simp [argsOf, subsetArgs, effectiveStrategy, hscore, hotness_eq, afterBuilds]
  have hrecent : (argsOf P cfg m c k).scoreRecentWeight = (argsOf P cfg m c 0).scoreRecentWeight := by
    simp [argsOf, subsetArgs, effectiveStrategy, hscore, afterBuilds]
  have hfair : (argsOf P cfg m c k).scoreFairWeight = (argsOf P cfg m c 0).scoreFairWeight := by
    have hstrategy : ∀ c' : Core, (effectiveStrategy cfg c' (syncLimit cfg c)).1 = .Score := by
      simp [effectiveStrategy, hscore]
    simp only [argsOf, subsetArgs, hstrategy, afterBuilds]
    rw [hotness_eq]
    rfl
  rw [scoreWeights, scoreWeights, hseq, hrecent, hfair]

omit hlimit in
theorem strategy_argsOf (k : ℕ) : (argsOf P cfg m c k).strategy = .Score := by
  simp [argsOf, subsetArgs, effectiveStrategy, hscore]

omit hlimit in
/-- In every call waiting is added to the same base. -/
theorem totalScore_argsOf (k : ℕ) (nid : NodeID) :
    totalScore c.vv (argsOf P cfg m c k) nid =
      baseScore c.vv (argsOf P cfg m c 0) nid + fairWeight (argsOf P cfg m c 0) *
        (roundsWaited (argsOf P cfg m c k) nid /
          (maxCompensationRounds c.vv (argsOf P cfg m c k) + 1 / 10 ^ 9)) := by
  rw [totalScore, baseScore, fairWeight, scoreWeights_argsOf P m hscore k]
  rfl

variable (hpos : 1 ≤ syncLimit cfg c)
include hpos

/-- What call number `k` sends of the nodes that the preferred one leaves. -/
theorem has_builtVector_score {nid : NodeID} (h : nid ∈ scoredNodes c.vv (argsOf P cfg m c 0)) (k : ℕ) :
    (builtVector P cfg m c k).has nid = true ↔
      nid ∈ (scoreOrder c.vv (argsOf P cfg m c k)).take (scoreSlots c.vv (argsOf P cfg m c 0)) := by
  rw [builtVector_eq P m hlimit]
  exact has_score_iff P hlimit (strategy_argsOf P m hscore k) hpos h

/-- Consecutive calls are the rounds of a selection with compensation. -/
def scoreRounds : Compensation.Rounds (scoredNodes c.vv (argsOf P cfg m c 0)).toFinset
    (scoreSlots c.vv (argsOf P cfg m c 0)) (baseScore c.vv (argsOf P cfg m c 0))
    (fairWeight (argsOf P cfg m c 0)) (1 / 10 ^ 9) where
  selected k := (scoredNodes c.vv (argsOf P cfg m c 0)).toFinset.filter fun nid =>
    (builtVector P cfg m c k).has nid
  waited k := roundsWaited (argsOf P cfg m c k)
  most k := maxCompensationRounds c.vv (argsOf P cfg m c k)
  selected_subset k := Finset.filter_subset _ _
  card_selected k := by
    have hfirst : ((scoredNodes c.vv (argsOf P cfg m c 0)).toFinset.filter fun nid =>
        (builtVector P cfg m c k).has nid) = ((scoreOrder c.vv (argsOf P cfg m c k)).take
          (scoreSlots c.vv (argsOf P cfg m c 0))).toFinset := by
      ext nid
      rw [Finset.mem_filter, List.mem_toFinset, List.mem_toFinset]
      constructor
      · intro h
        exact (has_builtVector_score P m hlimit hscore hpos h.1 k).mp h.2
      · intro h
        have hmem := scoreOrder_perm.mem_iff.mp (List.mem_of_mem_take h)
        exact ⟨hmem, (has_builtVector_score P m hlimit hscore hpos hmem k).mpr h⟩
    have hnodup : (scoreOrder c.vv (argsOf P cfg m c k)).Nodup :=
      scoreOrder_perm.nodup_iff.mpr (c.vv.nodes_nodup.filter _)
    rw [hfirst, List.toFinset_card_of_nodup (hnodup.sublist (List.take_sublist _ _)), List.length_take]
    have hle : scoreSlots c.vv (argsOf P cfg m c k) ≤ _ := scoreSlots_le hlimit
    exact min_eq_left hle
  best k i hi j hj hnot := by
    obtain ⟨hi, hsent⟩ := Finset.mem_filter.mp hi
    rw [List.mem_toFinset] at hi hj
    have hfirst := (has_builtVector_score P m hlimit hscore hpos hi k).mp hsent
    have hrest : j ∈ (scoreOrder c.vv (argsOf P cfg m c k)).drop
        (scoreSlots c.vv (argsOf P cfg m c 0)) := by
      have hmem : j ∈ scoreOrder c.vv (argsOf P cfg m c k) := scoreOrder_perm.mem_iff.mpr hj
      rw [← List.take_append_drop (scoreSlots c.vv (argsOf P cfg m c 0)) (scoreOrder _ _)] at hmem
      refine (List.mem_append.mp hmem).resolve_left fun htake => hnot ?_
      exact Finset.mem_filter.mpr ⟨List.mem_toFinset.mpr hj,
        (has_builtVector_score P m hlimit hscore hpos hj k).mpr htake⟩
    -- what is sent stands in front of what is not
    have hpairwise : (scoreOrder c.vv (argsOf P cfg m c k)).Pairwise _ := scoreOrder_pairwise
    rw [← List.take_append_drop (scoreSlots c.vv (argsOf P cfg m c 0)) (scoreOrder _ _),
      List.pairwise_append] at hpairwise
    have hle := hpairwise.2.2 i hfirst j hrest
    rwa [totalScore_argsOf P m hscore, totalScore_argsOf P m hscore] at hle
  waited_selected k nid h := by
    obtain ⟨hmem, hhas⟩ := Finset.mem_filter.mp h
    have hn := ((mem_scoredNodes nid).mp (List.mem_toFinset.mp hmem)).1
    rw [roundsWaited_succ P m hlimit hn, if_pos hhas]
  waited_unselected k nid hmem h := by
    have hn := ((mem_scoredNodes nid).mp (List.mem_toFinset.mp hmem)).1
    rw [roundsWaited_succ P m hlimit hn, if_neg fun hhas => h (Finset.mem_filter.mpr ⟨hmem, hhas⟩)]
  waited_le k nid hmem :=
    roundsWaited_le ((mem_scoredNodes nid).mp (List.mem_toFinset.mp hmem)).1
  most_le k := by
    induction k with
    | zero => exact le_rfl
    | succ k ih =>
      have hsucc := maxCompensationRounds_succ_le P m hlimit k
      omega

omit hlimit hpos hscore in
/-- A positive fair weight stays positive under coordinated sync and normalisation. -/
theorem fairWeight_pos (hfair : 0 < cfg.scoreFairWeight) (k : ℕ) :
    0 < fairWeight (argsOf P cfg m c k) := by
  have hpos : 0 < (argsOf P cfg m c k).scoreFairWeight := by
    simp only [argsOf, subsetArgs]
    split
    · exact lt_of_lt_of_le (by norm_num) (clamp_mem _ (by norm_num)).1
    · exact hfair
  have hmax : max 0 (argsOf P cfg m c k).scoreFairWeight = (argsOf P cfg m c k).scoreFairWeight :=
    max_eq_right hpos.le
  have hsum : 0 < max 0 (argsOf P cfg m c k).scoreSeqWeight +
      max 0 (argsOf P cfg m c k).scoreRecentWeight + (argsOf P cfg m c k).scoreFairWeight := by
    have hseq := le_max_left 0 (argsOf P cfg m c k).scoreSeqWeight
    have hrecent := le_max_left 0 (argsOf P cfg m c k).scoreRecentWeight
    linarith
  simp only [fairWeight, scoreWeights, hmax, if_neg (not_le.mpr hsum)]
  exact div_pos hpos hsum

/-- An entry that the preferred one leaves is sent again and again iff fewer entries than
    there are slots are ahead of it by the fair weight or more. -/
theorem sent_again_iff (hfair : 0 < cfg.scoreFairWeight) {nid : NodeID}
    (hmem : nid ∈ scoredNodes c.vv (argsOf P cfg m c 0)) :
    (∀ k₀, ∃ k, k₀ ≤ k ∧ (builtVector P cfg m c k).has nid = true) ↔
      rivalCount c.vv (argsOf P cfg m c 0) nid < scoreSlots c.vv (argsOf P cfg m c 0) := by
  have hround := (scoreRounds P m hlimit hscore hpos).selected_again_iff
    (fairWeight_pos P m hfair 0) (by norm_num) (List.mem_toFinset.mpr hmem)
  rw [card_rivals] at hround
  rw [← hround]
  simp only [scoreRounds, Finset.mem_filter, List.mem_toFinset, hmem, true_and]

/-- An unbounded run of calls sends every entry again and again iff each entry that the
    preferred one leaves has fewer entries ahead of it, by the fair weight or more, than
    there are slots. -/
theorem score_covers_iff (hfair : 0 < cfg.scoreFairWeight) :
    (∀ nid, c.vv.has nid = true → ∀ k₀, ∃ k, k₀ ≤ k ∧ (builtVector P cfg m c k).has nid = true) ↔
      ∀ nid ∈ scoredNodes c.vv (argsOf P cfg m c 0),
        rivalCount c.vv (argsOf P cfg m c 0) nid < scoreSlots c.vv (argsOf P cfg m c 0) := by
  constructor
  · intro h nid hmem
    exact (sent_again_iff P m hlimit hscore hpos hfair hmem).mp
      (h nid ((mem_scoredNodes nid).mp hmem).1)
  · intro h nid hn
    cases hsel : (selectPreferred c.vv (argsOf P cfg m c 0)).has nid with
    | false =>
      have hmem := (mem_scoredNodes nid).mpr ⟨hn, hsel⟩
      exact (sent_again_iff P m hlimit hscore hpos hfair hmem).mpr (h nid hmem)
    | true =>
      -- the preferred node is in every vector
      intro k₀
      have hext := (selectSubset_extends P (a := argsOf P cfg m c k₀) hpos hlimit
        (by simp [strategy_argsOf P m hscore])).1
      exact ⟨k₀, le_rfl, builtVector_eq P m hlimit k₀ ▸ hext.mono nid hsel⟩

end

/-- Node `a`, which sends two entries by score. -/
def scoringPair : Config where
  id := .ofBytes [[97]]
  stateVectorStrategy := .Score
  maxStateVectorEntries := 2
  enableCoordinatedSync := false

/-- Node `a` knows one number of itself and of `c`, and nine numbers of `b`, which it heard
    of last. -/
def knowingRival : Core :=
  { init scoringPair 0 with
    vv := ((VersionVector.empty.set (.ofBytes [[97]]) 1 0).set (.ofBytes [[99]]) 1 1).set
      (.ofBytes [[98]]) 9 2 }

/-- With the default weights `c` is never sent: `b` is ahead of it by more than the fair
    weight. -/
theorem not_score_covers :
    ¬∀ (P : Platform) (cfg : Config) (m : ℕ → Moment) (c : Core),
      cfg.stateVectorStrategy = .Score → 0 < cfg.scoreFairWeight →
      2 ≤ syncLimit cfg c → syncLimit cfg c < c.vv.size →
      ∀ nid, c.vv.has nid = true → ∀ k₀, ∃ k, k₀ ≤ k ∧ (builtVector P cfg m c k).has nid = true := by
  intro h
  have hagain := h .plain scoringPair (fun _ => .atMs 0) knowingRival rfl (by decide +kernel)
    (by decide +kernel) (by decide +kernel) (.ofBytes [[99]]) (by decide +kernel)
  rw [sent_again_iff .plain (fun _ => .atMs 0) (by decide +kernel) rfl (by decide +kernel)
    (by decide +kernel) (by decide +kernel)] at hagain
  exact absurd hagain (by decide +kernel)

/-- With a fair weight of 2 every entry is. -/
theorem score_covers_iff_heavy :
    syncLimit { scoringPair with scoreFairWeight := 2 } knowingRival < knowingRival.vv.size ∧
      ∀ nid, knowingRival.vv.has nid = true → ∀ k₀, ∃ k, k₀ ≤ k ∧
        (builtVector .plain { scoringPair with scoreFairWeight := 2 } (fun _ => .atMs 0) knowingRival
          k).has nid = true := by
  refine ⟨by decide +kernel, ?_⟩
  exact (score_covers_iff .plain (fun _ => .atMs 0) (by decide +kernel) rfl (by decide +kernel)
    (by decide +kernel)).mpr (by decide +kernel)

end Core

end Svs
