import Svs.ForStd.Ranking
import Svs.Spec.UpdateCarried

/-!
# `Score` is monotone

To raise one number of a node moves what all numbers of that kind are divided by, and a
later update moves the other nodes back in the order of recency.  Either way the node's own
score does not get worse and no other score gets better, so the node keeps its slot.

## Key results

- `has_score_iff_ahead`: a node is sent iff few enough candidates are ahead of it
- `Improved.selected`: a node that only gets better keeps its slot
- `score_monotone`: the three ways to get better
-/

namespace Svs

open Std VersionVector

/-- The arguments with another count of rounds for one node. -/
def SubsetArgs.compensate (a : SubsetArgs) (nid : NodeID) (rounds : Nat) : SubsetArgs :=
  { a with scoreCompensationRounds := a.scoreCompensationRounds.insert nid rounds }

namespace VersionVector

/-- The vector with another sequence number for one node. -/
def withSeqNo (vv : VersionVector) (nid : NodeID) (seqNo : SeqNo) : VersionVector :=
  { vv with map := vv.map.insert nid seqNo }

/-- The vector with another update time for one node. -/
def withLastUpdate (vv : VersionVector) (nid : NodeID) (ts : TimePoint) : VersionVector :=
  { vv with lastUpdate := vv.lastUpdate.insert nid ts }

end VersionVector

/-! ## Positions -/

/-- What `recentFirst` compares. -/
def recentKey (vv : VersionVector) (nid : NodeID) : ℤ ×ₗ Name := toLex (-vv.getLastUpdate nid, nid)

/-- What `scoreFirst` compares for a node that is not preferred. -/
def scoreKey (vv : VersionVector) (a : SubsetArgs) (nid : NodeID) : ℚ ×ₗ ℤ ×ₗ Name :=
  toLex (-totalScore vv a nid, recentKey vv nid)

theorem recentKey_injective (vv : VersionVector) : Function.Injective (recentKey vv) :=
  fun _ _ h => (Prod.mk.inj (toLex.injective h)).2

theorem scoreKey_injective (vv : VersionVector) (a : SubsetArgs) :
    Function.Injective (scoreKey vv a) :=
  fun _ _ h => recentKey_injective vv (Prod.mk.inj (toLex.injective h)).2

section

variable {P : Platform} {vv vv' : VersionVector} {a a' : SubsetArgs} {nid : NodeID}

/-- The position of a node in the order of recency. -/
theorem idxOf_recentNodes (hn : vv.has nid = true) :
    (recentNodes vv).idxOf nid = Ranking.ahead vv.nodes (recentKey vv) nid := by
  have hperm := recentNodes_perm vv
  have hsorted := Ranking.pairwise_lt_of_le (hperm.nodup_iff.mpr vv.nodes_nodup)
    (recentKey_injective vv) (sortBy_pairwise (recentKey vv) (recentFirst_iff vv) vv.nodes)
  rw [Ranking.idxOf_eq_ahead hsorted (hperm.mem_iff.mpr ((mem_nodes vv nid).mpr hn)),
    Ranking.ahead_perm hperm]

theorem scoreOrder_pairwise_key :
    (scoreOrder vv a).Pairwise fun x y => scoreKey vv a x ≤ scoreKey vv a y := by
  rw [scoreOrder, List.pairwise_map]
  apply (sortBy_pairwise Candidate.key scoreFirst_iff (scoreCandidates vv a)).imp_of_mem
  intro x y hx hy hle
  -- the key of a candidate is that of its node
  have hkey : ∀ c ∈ sortBy scoreFirst (scoreCandidates vv a), c.key = scoreKey vv a c.nid := by
    intro c hc
    obtain ⟨nid, -, rfl⟩ := List.mem_map.mp ((sortBy_perm _ _).mem_iff.mp hc)
    rfl
  rwa [hkey x hx, hkey y hy] at hle

/-- The position of a node in the order of the scores. -/
theorem idxOf_scoreOrder (hn : nid ∈ scoredNodes vv a) :
    (scoreOrder vv a).idxOf nid = Ranking.ahead (scoredNodes vv a) (scoreKey vv a) nid := by
  have hnodup : (scoreOrder vv a).Nodup := scoreOrder_perm.nodup_iff.mpr (vv.nodes_nodup.filter _)
  have hsorted := Ranking.pairwise_lt_of_le hnodup (scoreKey_injective vv a) scoreOrder_pairwise_key
  rw [Ranking.idxOf_eq_ahead hsorted (scoreOrder_perm.mem_iff.mpr hn),
    Ranking.ahead_perm scoreOrder_perm]

/-- A node that the preferred one leaves is sent iff fewer candidates than there are slots
    are ahead of it. -/
theorem has_score_iff_ahead (P : Platform) (hbig : a.maxEntries < vv.size)
    (hstrategy : a.strategy = .Score) (hpos : 1 ≤ a.maxEntries) (hn : nid ∈ scoredNodes vv a) :
    (selectSubset P vv a).has nid = true ↔
      Ranking.ahead (scoredNodes vv a) (scoreKey vv a) nid < scoreSlots vv a := by
  rw [has_score_iff P hbig hstrategy hpos hn,
    List.mem_take_iff_idxOf_lt (scoreOrder_perm.mem_iff.mpr hn), idxOf_scoreOrder hn]

/-! ## A node that gets better -/

/-- In a selection with the same nodes, budget and preferred node, one node has no smaller
    score and no earlier update, and the others have no greater score and no later update. -/
structure Improved (vv : VersionVector) (a : SubsetArgs) (vv' : VersionVector) (a' : SubsetArgs)
    (nid : NodeID) : Prop where
  has : ∀ n, vv'.has n = vv.has n
  maxEntries : a'.maxEntries = a.maxEntries
  preferredNode : a'.preferredNode = a.preferredNode
  score_self : totalScore vv a nid ≤ totalScore vv' a' nid
  score_others : ∀ n, vv.has n = true → n ≠ nid → totalScore vv' a' n ≤ totalScore vv a n
  update_self : vv.getLastUpdate nid ≤ vv'.getLastUpdate nid
  update_others : ∀ n, n ≠ nid → vv'.getLastUpdate n ≤ vv.getLastUpdate n

namespace Improved

variable (h : Improved vv a vv' a' nid)
include h

theorem nodes_perm : vv'.nodes.Perm vv.nodes := by
  apply (List.perm_ext_iff_of_nodup vv'.nodes_nodup vv.nodes_nodup).mpr
  intro n
  rw [mem_nodes, mem_nodes, h.has]

theorem size_eq : vv'.size = vv.size := by
  rw [← length_nodes, ← length_nodes, h.nodes_perm.length_eq]

theorem has_selectPreferred (n : NodeID) :
    (selectPreferred vv' a').has n = (selectPreferred vv a).has n := by
  rw [Bool.eq_iff_iff, has_selectPreferred_iff, has_selectPreferred_iff, h.preferredNode, h.has]

theorem scoredNodes_perm : (scoredNodes vv' a').Perm (scoredNodes vv a) := by
  have hfilter : scoredNodes vv' a' = vv'.nodes.filter (!(selectPreferred vv a).has ·) :=
    List.filter_congr fun n _ => by rw [h.has_selectPreferred]
  rw [hfilter]
  exact h.nodes_perm.filter _

theorem scoreSlots_eq : scoreSlots vv' a' = scoreSlots vv a := by
  have hpreferred : (selectPreferred vv' a').size = (selectPreferred vv a).size := by
    rw [← length_nodes, ← length_nodes]
    apply List.Perm.length_eq
    apply (List.perm_ext_iff_of_nodup (nodes_nodup _) (nodes_nodup _)).mpr
    intro n
    rw [mem_nodes, mem_nodes, h.has_selectPreferred]
  rw [scoreSlots, scoreSlots, h.maxEntries, hpreferred]

/-- No others come in front of the node. -/
theorem ahead_le :
    Ranking.ahead (scoredNodes vv' a') (scoreKey vv' a') nid ≤
      Ranking.ahead (scoredNodes vv a) (scoreKey vv a) nid := by
  rw [Ranking.ahead_perm h.scoredNodes_perm]
  apply Ranking.ahead_le
  · apply Prod.Lex.toLex_mono
    refine ⟨neg_le_neg h.score_self, Prod.Lex.toLex_mono ⟨neg_le_neg h.update_self, le_rfl⟩⟩
  · intro n hn hne
    have hhas := ((mem_scoredNodes n).mp hn).1
    apply Prod.Lex.toLex_mono
    exact ⟨neg_le_neg (h.score_others n hhas hne),
      Prod.Lex.toLex_mono ⟨neg_le_neg (h.update_others n hne), le_rfl⟩⟩

/-- A node that only gets better keeps its slot. -/
theorem selected (P : Platform) (hstrategy : a.strategy = .Score) (hstrategy' : a'.strategy = .Score)
    (hsent : (selectSubset P vv a).has nid = true) : (selectSubset P vv' a').has nid = true := by
  have hhas : vv.has nid = true := (subVector_selectSubset P vv a).has hsent
  have hhas' : vv'.has nid = true := (h.has nid).trans hhas
  have hmax := h.maxEntries
  have hsize := h.size_eq
  by_cases hpos : a.maxEntries = 0
  · -- nothing is sent
    rw [selectSubset_eq_empty P (Or.inl hpos), has_empty] at hsent
    cases hsent
  · have hsize₀ : vv.size ≠ 0 := by
      rw [← length_nodes]
      exact (List.length_pos_of_mem ((mem_nodes vv nid).mpr hhas)).ne'
    by_cases hwhole : vv.size ≤ a.maxEntries
    · rw [selectSubset_eq_self P (by omega) (Or.inr (by omega))]
      exact hhas'
    · cases hpref : (selectPreferred vv a).has nid with
      | true =>
        have hpref' := (h.has_selectPreferred nid).trans hpref
        exact (selectSubset_extends P (by omega) (by omega) (by rw [hstrategy']; decide)).1.mono nid hpref'
      | false =>
        have hmem := (mem_scoredNodes nid).mpr ⟨hhas, hpref⟩
        have hmem' := h.scoredNodes_perm.mem_iff.mpr hmem
        rw [has_score_iff_ahead P (by omega) hstrategy (by omega) hmem] at hsent
        rw [has_score_iff_ahead P (by omega) hstrategy' (by omega) hmem', h.scoreSlots_eq]
        exact h.ahead_le.trans_lt hsent

end Improved

/-! ## Parts of the score -/

theorem scoreWeights_nonneg (a : SubsetArgs) :
    0 ≤ (scoreWeights a).1 ∧ 0 ≤ (scoreWeights a).2.1 ∧ 0 ≤ (scoreWeights a).2.2 := by
  unfold scoreWeights
  dsimp only
  split
  · norm_num
  · refine ⟨?_, ?_, ?_⟩ <;> positivity

/-- The recency score falls with the position. -/
theorem recentScoreOf_le {m n : NodeID} (hsize : vv'.size = vv.size)
    (hle : (recentNodes vv').idxOf n ≤ (recentNodes vv).idxOf m) :
    (recentScoreOf vv m).getD 0 ≤ (recentScoreOf vv' n).getD 0 := by
  have hlen : (recentNodes vv).length = vv.size :=
    (recentNodes_perm vv).length_eq.trans (length_nodes vv)
  have hlen' : (recentNodes vv').length = vv.size :=
    ((recentNodes_perm vv').length_eq.trans (length_nodes vv')).trans hsize
  rw [recentScoreOf, recentScoreOf, hlen, hlen']
  split
  · exact le_rfl
  · rw [sizeSub_eq_some (by omega)]
    show (1 : ℚ) - (recentNodes vv).idxOf m / (vv.size - 1 : Nat) ≤
      1 - (recentNodes vv').idxOf n / (vv.size - 1 : Nat)
    gcongr

theorem maxSeq_le {most : Nat} (h : ∀ n, (vv.get n).toNat ≤ most) : maxSeq vv ≤ most := by
  rw [maxSeq, List.foldl_eq_foldr]
  apply List.max_le_of_forall_le
  intro s hs
  obtain ⟨entry, hentry, rfl⟩ := List.mem_map.mp hs
  rw [← get_of_getElem? ((mem_entries vv entry.1 entry.2).mp hentry)]
  exact h entry.1

theorem maxCompensationRounds_le {most : Nat} (h : ∀ n, vv.has n = true → roundsWaited a n ≤ most) :
    maxCompensationRounds vv a ≤ most := by
  rw [maxCompensationRounds, List.foldl_eq_foldr]
  apply List.max_le_of_forall_le
  intro k hk
  obtain ⟨n, hn, rfl⟩ := List.mem_map.mp hk
  exact h n ((mem_nodes vv n).mp hn)

/-! ## The three ways -/

/-- A score with parts that are no greater is no greater. -/
theorem totalScore_le {m n : NodeID} (hweights : scoreWeights a' = scoreWeights a)
    (hseq : seqScore vv m ≤ seqScore vv' n)
    (hrecent : (recentScoreOf vv m).getD 0 ≤ (recentScoreOf vv' n).getD 0)
    (hcomp : (roundsWaited a m : ℚ) / (maxCompensationRounds vv a + 1 / 10 ^ 9) ≤
      roundsWaited a' n / (maxCompensationRounds vv' a' + 1 / 10 ^ 9)) :
    totalScore vv a m ≤ totalScore vv' a' n := by
  obtain ⟨hseqWeight, hrecentWeight, hfairWeight⟩ := scoreWeights_nonneg a
  rw [totalScore, totalScore, baseScore, baseScore, fairWeight, fairWeight, hweights]
  gcongr

/-! ### Compensation -/

theorem roundsWaited_compensate (a : SubsetArgs) (nid : NodeID) (rounds : Nat) (n : NodeID) :
    roundsWaited (a.compensate nid rounds) n = if nid = n then rounds else roundsWaited a n := by
  rw [roundsWaited, SubsetArgs.compensate, ExtTreeMap.getElem?_insert']
  split <;> rfl

theorem improved_compensate (hn : vv.has nid = true) {rounds : Nat}
    (hle : roundsWaited a nid ≤ rounds) : Improved vv a vv (a.compensate nid rounds) nid := by
  have hwaited := roundsWaited_compensate a nid rounds
  have hself : roundsWaited (a.compensate nid rounds) nid = rounds := by rw [hwaited, if_pos rfl]
  -- the greatest count grows, and to the new one at most
  have hmost : maxCompensationRounds vv (a.compensate nid rounds) ≤
      max (maxCompensationRounds vv a) rounds := by
    apply maxCompensationRounds_le
    intro n hn
    rw [hwaited]
    split
    · exact le_max_right _ _
    · exact (roundsWaited_le hn).trans (le_max_left _ _)
  have hgrows : maxCompensationRounds vv a ≤ maxCompensationRounds vv (a.compensate nid rounds) := by
    apply maxCompensationRounds_le
    intro n hn
    have hle' : roundsWaited a n ≤ roundsWaited (a.compensate nid rounds) n := by
      rw [hwaited]
      split
      · next heq => exact heq ▸ hle
      · exact le_rfl
    exact hle'.trans (roundsWaited_le hn)
  refine ⟨fun _ => rfl, rfl, rfl, ?_, ?_, le_rfl, fun _ _ => le_rfl⟩
  · refine totalScore_le rfl le_rfl le_rfl ?_
    have hmost : (maxCompensationRounds vv (a.compensate nid rounds) : ℚ) ≤
        max (maxCompensationRounds vv a : ℚ) rounds := by exact_mod_cast hmost
    have hwas : (roundsWaited a nid : ℚ) ≤ maxCompensationRounds vv a := by
      exact_mod_cast roundsWaited_le hn
    have hmore : (roundsWaited a nid : ℚ) ≤ rounds := by exact_mod_cast hle
    rw [hself]
    exact Ranking.div_le_div_of_le_max (Nat.cast_nonneg _) hwas hmore hmost (by norm_num)
      (by positivity) (by positivity)
  · intro n hn hne
    refine totalScore_le rfl le_rfl le_rfl ?_
    rw [hwaited, if_neg (Ne.symm hne)]
    gcongr

/-! ### Sequence numbers -/

theorem get_withSeqNo (vv : VersionVector) (nid : NodeID) (seqNo : SeqNo) (n : NodeID) :
    (vv.withSeqNo nid seqNo).get n = if nid = n then seqNo else vv.get n := by
  simp only [VersionVector.get, withSeqNo, ExtTreeMap.getElem?_insert']
  split <;> rfl

theorem has_withSeqNo (hn : vv.has nid = true) (seqNo : SeqNo) (n : NodeID) :
    (vv.withSeqNo nid seqNo).has n = vv.has n := by
  rw [Bool.eq_iff_iff, has_iff_mem, has_iff_mem, withSeqNo, ExtTreeMap.mem_insert']
  constructor
  · intro h
    rcases h with rfl | h
    · exact (has_iff_mem vv nid).mp hn
    · exact h
  · exact Or.inr

/-- Without the guard: a division by 0 is 0. -/
theorem seqScore_eq (vv : VersionVector) (n : NodeID) :
    seqScore vv n = (vv.get n).toNat / maxSeq vv := by
  rw [seqScore]
  split
  · rfl
  · next hzero =>
    rw [Nat.eq_zero_of_not_pos hzero]
    simp

section

variable {seqNo : SeqNo} (hle : (vv.get nid).toNat ≤ seqNo.toNat)
include hle

/-- The greatest number grows, and to the new one at most. -/
theorem maxSeq_withSeqNo :
    maxSeq vv ≤ maxSeq (vv.withSeqNo nid seqNo) ∧
      maxSeq (vv.withSeqNo nid seqNo) ≤ max (maxSeq vv) seqNo.toNat := by
  have hget := get_withSeqNo vv nid seqNo
  constructor
  · apply maxSeq_le
    intro n
    have hle' : (vv.get n).toNat ≤ ((vv.withSeqNo nid seqNo).get n).toNat := by
      rw [hget]
      split
      · next heq => exact heq ▸ hle
      · exact le_rfl
    exact hle'.trans (get_le_maxSeq _ n)
  · apply maxSeq_le
    intro n
    rw [hget]
    split
    · exact le_max_right _ _
    · exact (get_le_maxSeq vv n).trans (le_max_left _ _)

theorem seqScore_le_withSeqNo : seqScore vv nid ≤ seqScore (vv.withSeqNo nid seqNo) nid := by
  obtain ⟨hgrows, hmost⟩ := maxSeq_withSeqNo hle
  rw [seqScore_eq, seqScore_eq, get_withSeqNo, if_pos rfl]
  rcases Nat.eq_zero_or_pos (maxSeq vv) with hzero | hpos
  · rw [hzero, Nat.cast_zero, div_zero]
    positivity
  · have hmost : (maxSeq (vv.withSeqNo nid seqNo) : ℚ) ≤ max (maxSeq vv : ℚ) seqNo.toNat := by
      exact_mod_cast hmost
    have hwas : ((vv.get nid).toNat : ℚ) ≤ maxSeq vv := by exact_mod_cast get_le_maxSeq vv nid
    have hmore : ((vv.get nid).toNat : ℚ) ≤ seqNo.toNat := by exact_mod_cast hle
    have hpos' : 0 < maxSeq (vv.withSeqNo nid seqNo) := by omega
    have hdiv := Ranking.div_le_div_of_le_max (Nat.cast_nonneg _) hwas hmore hmost le_rfl
      (by positivity) (by positivity)
    rwa [add_zero, add_zero] at hdiv

theorem seqScore_withSeqNo_le {n : NodeID} (hne : n ≠ nid) :
    seqScore (vv.withSeqNo nid seqNo) n ≤ seqScore vv n := by
  have hgrows := (maxSeq_withSeqNo hle).1
  rw [seqScore_eq, seqScore_eq, get_withSeqNo, if_neg (Ne.symm hne)]
  rcases Nat.eq_zero_or_pos (maxSeq vv) with hzero | hpos
  · -- all numbers are 0
    have hnone : (vv.get n).toNat = 0 := Nat.le_zero.mp (hzero ▸ get_le_maxSeq vv n)
    simp [hnone]
  · gcongr

end

theorem improved_withSeqNo (hn : vv.has nid = true) {seqNo : SeqNo} (hle : vv.get nid ≤ seqNo) :
    Improved vv a (vv.withSeqNo nid seqNo) a nid := by
  have hhas := has_withSeqNo hn seqNo
  rw [UInt64.le_iff_toNat_le] at hle
  have hnodes : (vv.withSeqNo nid seqNo).nodes.Perm vv.nodes := by
    apply (List.perm_ext_iff_of_nodup (nodes_nodup _) vv.nodes_nodup).mpr
    intro n
    rw [mem_nodes, mem_nodes, hhas]
  have hsize : (vv.withSeqNo nid seqNo).size = vv.size := by
    rw [← length_nodes, ← length_nodes, hnodes.length_eq]
  -- the order of recency and the compensation stay
  have hidx : ∀ n, vv.has n = true →
      (recentNodes (vv.withSeqNo nid seqNo)).idxOf n = (recentNodes vv).idxOf n := by
    intro n hn
    rw [idxOf_recentNodes hn, idxOf_recentNodes ((hhas n).trans hn), Ranking.ahead_perm hnodes]
    rfl
  have hrounds : maxCompensationRounds (vv.withSeqNo nid seqNo) a = maxCompensationRounds vv a := by
    apply Nat.le_antisymm <;> apply maxCompensationRounds_le <;> intro n hn
    · exact roundsWaited_le ((hhas n).symm.trans hn)
    · exact roundsWaited_le ((hhas n).trans hn)
  refine ⟨hhas, rfl, rfl, ?_, ?_, le_rfl, fun _ _ => le_rfl⟩
  · exact totalScore_le rfl (seqScore_le_withSeqNo hle) (recentScoreOf_le hsize (hidx nid hn).le)
      (by rw [hrounds])
  · intro n hn hne
    exact totalScore_le rfl (seqScore_withSeqNo_le hle hne)
      (recentScoreOf_le hsize.symm (hidx n hn).ge) (by rw [hrounds])

/-! ### Update times -/

theorem getLastUpdate_withLastUpdate (vv : VersionVector) (nid : NodeID) (ts : TimePoint) (n : NodeID) :
    (vv.withLastUpdate nid ts).getLastUpdate n = if nid = n then ts else vv.getLastUpdate n := by
  simp only [getLastUpdate, withLastUpdate, ExtTreeMap.getElem?_insert']
  split <;> rfl

theorem improved_withLastUpdate (hn : vv.has nid = true) {ts : TimePoint}
    (hle : vv.getLastUpdate nid ≤ ts) : Improved vv a (vv.withLastUpdate nid ts) a nid := by
  have hupdate := getLastUpdate_withLastUpdate vv nid ts
  have hself : recentKey (vv.withLastUpdate nid ts) nid ≤ recentKey vv nid := by
    rw [recentKey, recentKey, hupdate, if_pos rfl]
    exact Prod.Lex.toLex_mono ⟨neg_le_neg hle, le_rfl⟩
  have hothers : ∀ n, n ≠ nid → recentKey (vv.withLastUpdate nid ts) n = recentKey vv n := by
    intro n hne
    rw [recentKey, recentKey, hupdate, if_neg (Ne.symm hne)]
  have hall : ∀ n, recentKey (vv.withLastUpdate nid ts) n ≤ recentKey vv n := by
    intro n
    rcases eq_or_ne n nid with rfl | hne
    · exact hself
    · exact (hothers n hne).le
  have hhas : ∀ n, vv.has n = true → (vv.withLastUpdate nid ts).has n = true := fun _ hn => hn
  refine ⟨fun _ => rfl, rfl, rfl, ?_, ?_, ?_, ?_⟩
  · -- the node comes forward in the order of recency
    refine totalScore_le rfl le_rfl (recentScoreOf_le rfl ?_) le_rfl
    rw [idxOf_recentNodes hn, idxOf_recentNodes (hhas _ hn)]
    exact Ranking.ahead_le hself fun n _ hne => (hothers n hne).ge
  · -- the others stay where they are or go back
    intro n hn hne
    refine totalScore_le rfl le_rfl (recentScoreOf_le rfl ?_) le_rfl
    rw [idxOf_recentNodes hn, idxOf_recentNodes (hhas _ hn)]
    exact Ranking.le_ahead (hothers n hne) fun n' _ => hall n'
  · rw [hupdate, if_pos rfl]
    exact hle
  · intro n hne
    rw [hupdate, if_neg (Ne.symm hne)]

/-- A node that `Score` selects is still selected with more rounds of compensation, a greater
    sequence number or a later update. -/
theorem score_monotone (P : Platform) (vv : VersionVector) (a : SubsetArgs)
    (hstrategy : a.strategy = .Score) (nid : NodeID) (h : (selectSubset P vv a).has nid = true) :
    (∀ rounds, roundsWaited a nid ≤ rounds →
      (selectSubset P vv (a.compensate nid rounds)).has nid = true) ∧
    (∀ seqNo, vv.get nid ≤ seqNo →
      (selectSubset P (vv.withSeqNo nid seqNo) a).has nid = true) ∧
    ∀ ts, vv.getLastUpdate nid ≤ ts →
      (selectSubset P (vv.withLastUpdate nid ts) a).has nid = true := by
  have hn := (subVector_selectSubset P vv a).has h
  exact ⟨fun _ hle => (improved_compensate hn hle).selected P hstrategy hstrategy h,
    fun _ hle => (improved_withSeqNo hn hle).selected P hstrategy hstrategy h,
    fun _ hle => (improved_withLastUpdate hn hle).selected P hstrategy hstrategy h⟩

end

/-- Of three nodes `b` is sent next to the preferred node, also after it has waited two rounds,
    with sequence number 9, or updated at time 7. -/
theorem score_monotone_three :
    let vv : VersionVector := ((VersionVector.empty.set (.ofBytes [[97]]) 1 0).set
      (.ofBytes [[98]]) 5 2).set (.ofBytes [[99]]) 3 1
    let a : SubsetArgs := { maxEntries := 2, preferredNode := .ofBytes [[97]], strategy := .Score }
    (selectSubset .plain vv (a.compensate (.ofBytes [[98]]) 2)).has (.ofBytes [[98]]) = true ∧
      (selectSubset .plain (vv.withSeqNo (.ofBytes [[98]]) 9) a).has (.ofBytes [[98]]) = true ∧
      (selectSubset .plain (vv.withLastUpdate (.ofBytes [[98]]) 7) a).has (.ofBytes [[98]]) = true := by
  intro vv a
  obtain ⟨hrounds, hseq, hupdate⟩ := score_monotone .plain vv a rfl (.ofBytes [[98]]) (by decide +kernel)
  exact ⟨hrounds 2 (by decide), hseq 9 (by decide), hupdate 7 (by decide)⟩

end Svs
