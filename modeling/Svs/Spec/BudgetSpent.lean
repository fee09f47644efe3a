import Svs.Spec.SubsetCorrect

/-!
# Phases that spend their budget

In a vector with more entries than `maxEntries` there is always another entry to add,
so every helper adds as many as its budget and the free slots allow (`Spends`).  The
cluster helpers need an argument of their own: what the walk over new clusters leaves
of the budget the recent entries take, and a round of the score loop always finds a
candidate, since no score is negative.

## Key results

- `spends_addEntries`, `spends_addScored`: walks over lists
- `spends_addClusterRecentEntries`, `spends_addBestClusters`: the cluster helpers
-/

namespace Svs

open VersionVector

/-- The phase succeeds, extends `selected`, and takes as many slots as the budget and the
    free slots allow. -/
def Spends (vv : VersionVector) (a : SubsetArgs) (budget : Nat) (sel : VersionVector)
    (r : Option VersionVector) : Prop :=
  ∃ sel', r = some sel' ∧ Extends vv a sel sel' ∧ sel'.size = min a.maxEntries (sel.size + budget)

section

variable {P : Platform} {vv : VersionVector} {a : SubsetArgs} {sel : VersionVector}
  {l : List NodeID} {budget : Nat}

/-- A phase that may take all free slots fills the selection. -/
theorem Spends.fills {r : Option VersionVector} (h : Spends vv a budget sel r)
    (hbudget : a.maxEntries ≤ sel.size + budget) : Fills vv a sel r := by
  obtain ⟨sel', hr, hext, hsize⟩ := h
  exact ⟨sel', hr, hext, by omega⟩

theorem Spends.addIfAny {add : Nat → VersionVector → Option VersionVector}
    (hsub : SubVector vv sel) (hsize : sel.size ≤ a.maxEntries)
    (hadd : Spends vv a budget sel (add budget sel)) :
    Spends vv a budget sel (addIfAny add budget sel) := by
  unfold Svs.addIfAny
  split
  · exact hadd
  · exact ⟨sel, rfl, .refl hsub hsize, by omega⟩

/-! ## Scores are not negative -/

theorem normalizeRankScore_nonneg {rank population : Nat} (h : rank < population) {s : ℚ}
    (hs : normalizeRankScore rank population = some s) : 0 ≤ s := by
  unfold normalizeRankScore at hs
  split at hs
  · rw [← Option.some.inj hs]
    exact zero_le_one
  · next hpop =>
    rw [sizeSub_eq_some (by omega)] at hs
    rw [← Option.some.inj hs]
    -- the rank is at most the divisor
    have hle : (rank : ℚ) / (population - 1 : Nat) ≤ 1 := by
      apply div_le_one_of_le₀ _ (Nat.cast_nonneg _)
      exact Nat.cast_le.mpr (by omega)
    simpa using hle

theorem seqScore_nonneg (vv : VersionVector) (nid : NodeID) : 0 ≤ seqScore vv nid := by
  unfold seqScore
  split
  · positivity
  · exact le_rfl

theorem preferredBoost_nonneg (a : SubsetArgs) (nid : NodeID) : 0 ≤ preferredBoost a nid := by
  unfold preferredBoost
  split
  · exact le_max_left _ _
  · exact le_rfl

theorem clusterScoreOf_nonneg {clusters : List (List Char)} {nid : NodeID} (hn : nid ∈ vv.nodes)
    {i : Nat} {s : ℚ} (hs : clusterScoreOf P vv a clusters nid i = some s) : 0 ≤ s := by
  obtain ⟨recent, hrecent, hs⟩ := Option.bind_eq_some_iff.mp hs
  obtain ⟨offset, hoffset, hs⟩ := Option.bind_eq_some_iff.mp hs
  obtain ⟨fair, hfair, hs⟩ := Option.bind_eq_some_iff.mp hs
  have hrank : (recentNodes vv).idxOf nid < (recentNodes vv).length :=
    List.idxOf_lt_length_of_mem ((recentNodes_perm vv).mem_iff.mpr hn)
  have hback : offset < vv.nodes.length := by
    obtain ⟨d, -, hd⟩ := Option.bind_eq_some_iff.mp hoffset
    rw [← Option.some.inj hd]
    exact Nat.mod_lt _ (List.length_pos_of_mem hn)
  have hrecent := normalizeRankScore_nonneg hrank hrecent
  have hfair := normalizeRankScore_nonneg hback hfair
  have hseq := seqScore_nonneg vv nid
  have hboost := preferredBoost_nonneg a nid
  have hbonus : (0 : ℚ) ≤ if clusters.count (clusterKey P nid) = 0 then 30 / 100
      else max 0 (18 / 100 - 8 / 100 * (clusters.count (clusterKey P nid) : ℚ)) := by
    split
    · norm_num
    · exact le_max_left _ _
  rw [← Option.some.inj hs]
  positivity

/-! ## The best candidate -/

/-- The running maximum is one of the candidates once it has left its start. -/
theorem foldl_consider_mem (cs : List Candidate) (best : Best) :
    cs.foldl (fun best c => best.consider c.nid c.score c.ts) best = best ∨
      (cs.foldl (fun best c => best.consider c.nid c.score c.ts) best).added = true ∧
        ∃ c ∈ cs, c.nid = (cs.foldl (fun best c => best.consider c.nid c.score c.ts) best).bestNid := by
  induction cs generalizing best with
  | nil => exact Or.inl rfl
  | cons c cs ih =>
    rw [List.foldl_cons]
    rcases ih (best.consider c.nid c.score c.ts) with heq | ⟨hadded, c', hc', hnid⟩
    · rw [heq]
      unfold Best.consider
      split
      · exact Or.inr ⟨rfl, c, List.mem_cons_self, rfl⟩
      · exact Or.inl rfl
    · exact Or.inr ⟨hadded, c', List.mem_cons_of_mem c hc', hnid⟩

theorem bestScore_le_consider (best : Best) (nid : NodeID) (score : ℚ) (ts : TimePoint) :
    best.bestScore ≤ (best.consider nid score ts).bestScore ∧
      score ≤ (best.consider nid score ts).bestScore := by
  unfold Best.consider
  split
  · next hbetter =>
    refine ⟨?_, le_rfl⟩
    simp only [Bool.or_eq_true, decide_eq_true_eq, Bool.and_eq_true, beq_iff_eq] at hbetter
    rcases hbetter with hlt | ⟨heq, -⟩
    · exact hlt.le
    · exact heq.ge
  · next hworse =>
    refine ⟨le_rfl, ?_⟩
    simp only [Bool.or_eq_true, decide_eq_true_eq, not_or] at hworse
    exact not_lt.mp hworse.1

/-- No candidate beats the running maximum. -/
theorem le_bestScore (cs : List Candidate) (best : Best) :
    best.bestScore ≤ (cs.foldl (fun best c => best.consider c.nid c.score c.ts) best).bestScore ∧
      ∀ c ∈ cs, c.score ≤
        (cs.foldl (fun best c => best.consider c.nid c.score c.ts) best).bestScore := by
  induction cs generalizing best with
  | nil => exact ⟨le_rfl, fun c hc => by cases hc⟩
  | cons c cs ih =>
    obtain ⟨hbest, hscore⟩ := bestScore_le_consider best c.nid c.score c.ts
    obtain ⟨hstart, hall⟩ := ih (best.consider c.nid c.score c.ts)
    rw [List.foldl_cons]
    refine ⟨hbest.trans hstart, ?_⟩
    intro c' hc'
    rcases List.mem_cons.mp hc' with rfl | hc'
    · exact hscore.trans hstart
    · exact hall c' hc'

variable (P a) in
/-- While a node is unselected, a round of the score loop finds one. -/
theorem bestCandidate_of_unselected (clusters : List (List Char)) {nid : NodeID}
    (hn : vv.has nid = true) (hsel : sel.has nid = false) :
    ∃ best, bestCandidate P vv a clusters sel = some best ∧ best.added = true ∧
      vv.has best.bestNid = true ∧ sel.has best.bestNid = false := by
  have hscore : ∀ n ∈ vv.nodes, ∀ i, (clusterScoreOf P vv a clusters n i).isSome :=
    fun n hn i => clusterScoreOf_isSome hn i
  obtain ⟨cs, hcs, hnids⟩ := candidates_eq_some sel hscore
  have hnonneg : ∀ c ∈ cs, 0 ≤ c.score := by
    intro c hc
    obtain ⟨p, hp, hscored⟩ := List.exists_of_mem_mapM hcs hc
    obtain ⟨s, hs, hc⟩ := Option.bind_eq_some_iff.mp hscored
    rw [← Option.some.inj hc]
    obtain ⟨n, i⟩ := p
    exact clusterScoreOf_nonneg (List.fst_mem_of_mem_zipIdx (List.mem_of_mem_filter hp)) hs
  have hmem : ∀ n, n ∈ cs.map (·.nid) ↔ vv.has n = true ∧ sel.has n = false := by
    intro n
    rw [hnids, List.mem_filter, mem_nodes, Bool.not_eq_true']
  rw [bestCandidate, hcs]
  refine ⟨_, rfl, ?_⟩
  rcases foldl_consider_mem cs {} with hstart | ⟨hadded, c, hc, hnid⟩
  · -- the node scores more than the initial value
    exfalso
    obtain ⟨c, hc, -⟩ := List.mem_map.mp ((hmem nid).mpr ⟨hn, hsel⟩)
    have hle := (le_bestScore cs {}).2 c hc
    have h0 := hnonneg c hc
    rw [hstart] at hle
    dsimp only at hle
    linarith
  · refine ⟨hadded, ?_⟩
    rw [← hmem, ← hnid]
    exact List.mem_map_of_mem hc

/-! ## Phases -/

variable (budget) (hbig : a.maxEntries < vv.size) (hsub : SubVector vv sel) (hsize : sel.size ≤ a.maxEntries)
include hbig hsub hsize

theorem spends_addEntries (hl : Covers vv sel l) :
    Spends vv a budget sel (some (addEntries vv a l budget sel)) :=
  ⟨_, rfl, .addEntries _ _ hsub hsize, hl.size_addEntries hsub hbig hsize⟩

theorem spends_addRecentEntries : Spends vv a budget sel (some (addRecentEntries vv a budget sel)) :=
  spends_addEntries budget hbig hsub hsize (.of_perm_nodes (recentNodes_perm vv))

theorem spends_addRoundRobinEntries :
    Spends vv a budget sel (some (addRoundRobinEntries vv a budget sel)) :=
  spends_addEntries budget hbig hsub hsize (.of_perm_nodes (roundRobinNodes_perm vv a))

theorem spends_addScored {score : NodeID → Nat → Option ℚ} {before : Candidate → Candidate → Bool}
    (h : ∀ nid ∈ vv.nodes, ∀ i, (score nid i).isSome) :
    Spends vv a budget sel (addScored vv a score before budget sel) := by
  unfold addScored
  split
  · next hzero => exact ⟨sel, rfl, .refl hsub hsize, by omega⟩
  · obtain ⟨cs, hcs, hnodes⟩ := candidates_eq_some sel h
    rw [hcs]
    refine spends_addEntries budget hbig hsub hsize (.of_perm_unselected ?_)
    rw [← hnodes]
    exact (sortBy_perm _ _).map _

variable (P vv a) in
omit hbig hsub hsize in
/-- What the walk over new clusters leaves of the budget is what it did not add. -/
theorem size_addUnseenClusters (l : List NodeID) (clusters : List (List Char)) (budget : Nat)
    (sel : VersionVector) :
    (addUnseenClusters P vv a l clusters budget sel).1.size +
      (addUnseenClusters P vv a l clusters budget sel).2 = sel.size + budget := by
  induction l generalizing clusters budget sel with
  | nil => rfl
  | cons nid rest ih =>
    rw [addUnseenClusters]
    split
    · rfl
    · next hgo =>
      simp only [Bool.or_eq_true, decide_eq_true_eq, beq_iff_eq, not_or] at hgo
      split
      · exact ih _ _ _
      · have hadd := addEntry_snd vv nid sel
        have hgrow : (addEntry vv nid sel).1.size =
            sel.size + if vv.has nid && !sel.has nid then 1 else 0 := size_addEntry
        split
        · next heq =>
          rw [heq] at hadd hgrow
          rw [← hadd, if_pos rfl] at hgrow
          rw [ih, hgrow]
          omega
        · next heq =>
          rw [heq] at hadd hgrow
          rw [← hadd, if_neg Bool.false_ne_true] at hgrow
          rw [ih, hgrow]
          rfl

variable (P) in
theorem spends_addClusterRecentEntries :
    Spends vv a budget sel (some (addClusterRecentEntries P vv a budget sel)) := by
  obtain ⟨sel', hsome, hext⟩ : Selects vv a sel (some (addClusterRecentEntries P vv a budget sel)) :=
    selects_addClusterRecentEntries hsub hsize
  refine ⟨_, rfl, Option.some.inj hsome ▸ hext, ?_⟩
  rw [addClusterRecentEntries]
  split
  · next hzero => omega
  · have hunseen := extends_addUnseenClusters P (recentNodes vv) hsub hsize
      (sel.nodes.map (clusterKey P)) budget
    have hleft := size_addUnseenClusters P vv a (recentNodes vv) (sel.nodes.map (clusterKey P))
      budget sel
    split
    next s b hs =>
    rw [hs] at hunseen hleft
    dsimp only at hunseen hleft
    have hle := hunseen.size_le
    split
    · obtain ⟨_, hrecent, -, hspent⟩ :=
        spends_addRecentEntries b hbig hunseen.sub hunseen.size_le
      rw [Option.some.inj hrecent, hspent, hleft]
    · omega

variable (P) in
theorem spends_addBestClusters (clusters : List (List Char)) :
    Spends vv a budget sel (addBestClusters P vv a budget clusters sel) := by
  induction budget generalizing sel clusters with
  | zero => exact ⟨sel, rfl, .refl hsub hsize, by omega⟩
  | succ budget ih =>
    rw [addBestClusters]
    split
    · next hroom =>
      -- there is a candidate, and it is added
      have hlt : sel.size < vv.size := by omega
      obtain ⟨nid, hn, hnot⟩ := exists_omitted hlt
      obtain ⟨best, hbest, hadded, hhas, hnew⟩ := bestCandidate_of_unselected P a clusters hn hnot
      have hstep := Extends.addEntry best.bestNid hsub hroom
      have hgrow : (addEntry vv best.bestNid sel).1.size =
          sel.size + if vv.has best.bestNid && !sel.has best.bestNid then 1 else 0 := size_addEntry
      rw [hhas, hnew, Bool.not_false, Bool.and_self, if_pos rfl] at hgrow
      simp only [hbest, hadded, Option.bind_eq_bind, Option.bind_some, Bool.not_true,
        Bool.false_eq_true, if_false]
      rw [addEntry_of_new hhas hnew] at hstep hgrow ⊢
      obtain ⟨sel', hsel', hext, hspent⟩ :=
        ih hstep.sub hstep.size_le (clusterKey P best.bestNid :: clusters)
      exact ⟨sel', hsel', hstep.trans hext, by omega⟩
    · exact ⟨sel, rfl, .refl hsub hsize, by omega⟩

end

end Svs
