import Svs.Spec.SubsetFill

/-!
# Every strategy returns an exact sub-vector

Each phase of a strategy is shown to succeed (no subtraction wraps) and to extend
`selected` within the budget (`Selects`); the last phase of every strategy fills
it completely (`Fills`).  `selectSubset_exact` assembles the fourteen cases.
-/

namespace Svs

open Std VersionVector

/-! ## Walks that reach every node -/

/-- `l` lists distinct nodes of `vv`, among them all that are not selected. -/
structure Covers (vv sel : VersionVector) (l : List NodeID) : Prop where
  nodup : l.Nodup
  has : ∀ nid ∈ l, vv.has nid = true
  cover : ∀ nid, vv.has nid = true → sel.has nid = true ∨ nid ∈ l

section

variable {P : Platform} {vv : VersionVector} {a : SubsetArgs} {sel : VersionVector}
  {l : List NodeID} {budget : Nat}

theorem Covers.of_perm_nodes (h : l.Perm vv.nodes) : Covers vv sel l where
  nodup := h.nodup_iff.mpr vv.nodes_nodup
  has nid hn := (mem_nodes vv nid).mp (h.mem_iff.mp hn)
  cover nid hn := Or.inr (h.mem_iff.mpr ((mem_nodes vv nid).mpr hn))

theorem Covers.of_perm_unselected (h : l.Perm (vv.nodes.filter (!sel.has ·))) :
    Covers vv sel l where
  nodup := h.nodup_iff.mpr (vv.nodes_nodup.filter _)
  has nid hn := (mem_nodes vv nid).mp (List.mem_of_mem_filter (h.mem_iff.mp hn))
  cover nid hn := by
    cases hs : sel.has nid with
    | true => exact Or.inl rfl
    | false =>
      refine Or.inr (h.mem_iff.mpr (List.mem_filter.mpr ⟨(mem_nodes vv nid).mpr hn, ?_⟩))
      simp [hs]

/-- The unselected nodes of a covering walk are those the sub-vector lacks. -/
theorem Covers.length_unselected (hl : Covers vv sel l) (hsub : SubVector vv sel) :
    (l.filter (!sel.has ·)).length = vv.size - sel.size := by
  -- the selected nodes and the unselected ones of the walk are all nodes, each once
  have hnodup : (sel.nodes ++ l.filter (!sel.has ·)).Nodup := by
    rw [List.nodup_append]
    refine ⟨sel.nodes_nodup, hl.nodup.filter _, ?_⟩
    intro nid hs nid' hn heq
    subst heq
    simp [(mem_nodes sel nid).mp hs] at hn
  have hmem : ∀ nid, nid ∈ sel.nodes ++ l.filter (!sel.has ·) ↔ nid ∈ vv.nodes := by
    intro nid
    simp only [List.mem_append, mem_nodes, List.mem_filter, Bool.not_eq_true']
    constructor
    · intro h
      rcases h with hs | ⟨hn, -⟩
      · exact hsub.has hs
      · exact hl.has nid hn
    · intro hv
      cases hs : sel.has nid with
      | true => exact Or.inl rfl
      | false => exact Or.inr ⟨(hl.cover nid hv).resolve_left (by simp [hs]), rfl⟩
  have hperm := (List.perm_ext_iff_of_nodup hnodup vv.nodes_nodup).mpr hmem
  have hlen := hperm.length_eq
  rw [List.length_append, length_nodes, length_nodes] at hlen
  omega

/-- A covering walk over a vector larger than the budget spends its whole budget. -/
theorem Covers.size_addEntries (hl : Covers vv sel l) (hsub : SubVector vv sel)
    (hbig : a.maxEntries < vv.size) (hsize : sel.size ≤ a.maxEntries) :
    (addEntries vv a l budget sel).size = min a.maxEntries (sel.size + budget) := by
  rw [Svs.size_addEntries hl.nodup hl.has, hl.length_unselected hsub]
  omega

theorem recentNodes_perm (vv : VersionVector) : (recentNodes vv).Perm vv.nodes :=
  sortBy_perm _ _

theorem roundRobinNodes_perm (vv : VersionVector) (a : SubsetArgs) :
    (roundRobinNodes vv a).Perm vv.nodes :=
  List.rotate_perm _ _

theorem shuffledNodes_perm (P : Platform) (vv : VersionVector) (a : SubsetArgs) :
    (shuffledNodes P vv a).Perm vv.nodes :=
  P.shuffle_perm _ _

/-! ## Scores are defined -/

variable (sel) in
/-- The candidates exist and list the unselected nodes when every score exists. -/
theorem candidates_eq_some {score : NodeID → Nat → Option ℚ}
    (h : ∀ nid ∈ vv.nodes, ∀ i, (score nid i).isSome) :
    ∃ cs, candidates vv score sel = some cs ∧
      cs.map (·.nid) = vv.nodes.filter (!sel.has ·) := by
  refine ⟨(vv.nodes.zipIdx.filter fun p => !sel.has p.1).map fun p =>
    ⟨p.1, (score p.1 p.2).getD 0, vv.getLastUpdate p.1⟩, ?_, ?_⟩
  · apply List.mapM_eq_some_map
    intro p hp
    have hmem : p.1 ∈ vv.nodes := by
      obtain ⟨n, i⟩ := p
      exact List.fst_mem_of_mem_zipIdx (List.mem_of_mem_filter hp)
    obtain ⟨s, hs⟩ := Option.isSome_iff_exists.mp (h p.1 hmem p.2)
    simp [hs]
  · -- forgetting the positions gives back the nodes
    rw [List.map_map]
    have hfst : vv.nodes = vv.nodes.zipIdx.map Prod.fst := (List.zipIdx_map_fst 0 _).symm
    conv_rhs => rw [hfst, List.filter_map]
    rfl

theorem normalizeRankScore_isSome (rank population : Nat) (descending : Bool) :
    (normalizeRankScore rank population descending).isSome := by
  unfold normalizeRankScore
  split
  · rfl
  · rw [sizeSub_eq_some (by omega)]
    rfl

theorem rrOffset_isSome (a : SubsetArgs) {nid : NodeID} (hn : nid ∈ vv.nodes) (i : Nat) :
    (rrOffset vv a i).isSome := by
  have hpos : 0 < vv.nodes.length := List.length_pos_of_mem hn
  -- the start index is reduced below the number of nodes before it is subtracted
  have hlt : a.startIndex % vv.nodes.length < vv.nodes.length := Nat.mod_lt _ hpos
  rw [rrOffset, sizeSub_eq_some (by omega)]
  rfl

/-- The fair score of the scored strategies, which ranks by the distance from the cursor. -/
theorem exists_fairScore (a : SubsetArgs) {nid : NodeID} (hn : nid ∈ vv.nodes) (i : Nat) :
    ∃ offset fair, rrOffset vv a i = some offset ∧
      normalizeRankScore offset vv.size true = some fair := by
  obtain ⟨offset, hoffset⟩ := Option.isSome_iff_exists.mp (rrOffset_isSome a hn i)
  obtain ⟨fair, hfair⟩ := Option.isSome_iff_exists.mp
    (normalizeRankScore_isSome offset vv.size true)
  exact ⟨offset, fair, hoffset, hfair⟩

/-- No entry exceeds `maxSeq`. -/
theorem get_le_maxSeq (vv : VersionVector) (nid : NodeID) :
    (vv.get nid).toNat ≤ maxSeq vv := by
  cases hm : vv.map[nid]? with
  | none => simp [VersionVector.get, hm]
  | some s =>
    rw [get_of_getElem? hm, maxSeq, List.foldl_eq_foldr]
    refine List.le_max_of_le' 0 (List.mem_map.mpr ⟨(nid, s), ?_, rfl⟩) le_rfl
    exact (mem_entries vv nid s).mpr hm

theorem recentScoreOf_isSome (vv : VersionVector) (nid : NodeID) : (recentScoreOf vv nid).isSome := by
  unfold recentScoreOf
  split
  · rfl
  · rw [sizeSub_eq_some (by omega)]
    rfl

theorem deficitOf_isSome (vv : VersionVector) (nid : NodeID) : (deficitOf vv nid).isSome := by
  rw [deficitOf, sizeSub_eq_some (get_le_maxSeq vv nid)]
  split <;> rfl

theorem scoreOf_isSome (nid : NodeID) (i : Nat) : (scoreOf vv a nid i).isSome := by
  obtain ⟨recent, hrecent⟩ := Option.isSome_iff_exists.mp (recentScoreOf_isSome vv nid)
  simp [scoreOf, hrecent]

theorem ageScoreOf_isSome {nid : NodeID} (hn : nid ∈ vv.nodes) (i : Nat) :
    (ageScoreOf vv a nid i).isSome := by
  obtain ⟨age, hage⟩ := Option.isSome_iff_exists.mp
    (normalizeRankScore_isSome ((agedNodes vv).idxOf nid) (agedNodes vv).length true)
  obtain ⟨offset, fair, hoffset, hfair⟩ := exists_fairScore a hn i
  simp [ageScoreOf, hage, hoffset, hfair]

theorem deficitScoreOf_isSome {nid : NodeID} (hn : nid ∈ vv.nodes) (i : Nat) :
    (deficitScoreOf vv a nid i).isSome := by
  obtain ⟨recent, hrecent⟩ := Option.isSome_iff_exists.mp
    (normalizeRankScore_isSome ((recentNodes vv).idxOf nid) (recentNodes vv).length true)
  obtain ⟨offset, fair, hoffset, hfair⟩ := exists_fairScore a hn i
  obtain ⟨deficit, hdeficit⟩ := Option.isSome_iff_exists.mp (deficitOf_isSome vv nid)
  simp [deficitScoreOf, hdeficit, hrecent, hoffset, hfair]

theorem clusterScoreOf_isSome {clusters : List (List Char)} {nid : NodeID} (hn : nid ∈ vv.nodes)
    (i : Nat) : (clusterScoreOf P vv a clusters nid i).isSome := by
  obtain ⟨recent, hrecent⟩ := Option.isSome_iff_exists.mp
    (normalizeRankScore_isSome ((recentNodes vv).idxOf nid) (recentNodes vv).length true)
  obtain ⟨offset, fair, hoffset, hfair⟩ := exists_fairScore a hn i
  simp [clusterScoreOf, hrecent, hoffset, hfair]

end

/-! ## Phases -/

/-- The phase succeeds and extends `selected`. -/
def Selects (vv : VersionVector) (a : SubsetArgs) (sel : VersionVector)
    (r : Option VersionVector) : Prop :=
  ∃ sel', r = some sel' ∧ Extends vv a sel sel'

/-- The phase succeeds, extends `selected` and fills the budget. -/
def Fills (vv : VersionVector) (a : SubsetArgs) (sel : VersionVector)
    (r : Option VersionVector) : Prop :=
  ∃ sel', r = some sel' ∧ Extends vv a sel sel' ∧ sel'.size = a.maxEntries

section

variable {P : Platform} {vv : VersionVector} {a : SubsetArgs} {sel : VersionVector}
  {l : List NodeID} {budget : Nat}

theorem Selects.bind {r : Option VersionVector} {f : VersionVector → Option VersionVector}
    (hr : Selects vv a sel r)
    (hf : ∀ s, SubVector vv s → s.size ≤ a.maxEntries → Selects vv a s (f s)) :
    Selects vv a sel (r >>= f) := by
  obtain ⟨s, rfl, hs⟩ := hr
  obtain ⟨s', hs', hext⟩ := hf s hs.sub hs.size_le
  exact ⟨s', hs', hs.trans hext⟩

theorem Selects.bind_fills {r : Option VersionVector} {f : VersionVector → Option VersionVector}
    (hr : Selects vv a sel r)
    (hf : ∀ s, SubVector vv s → s.size ≤ a.maxEntries → Fills vv a s (f s)) :
    Fills vv a sel (r >>= f) := by
  obtain ⟨s, rfl, hs⟩ := hr
  obtain ⟨s', hs', hext, hfull⟩ := hf s hs.sub hs.size_le
  exact ⟨s', hs', hs.trans hext, hfull⟩

/-- The `Random` loop is a walk whose budget never runs out. -/
theorem addUntilFull_eq : addUntilFull vv a l sel = addEntries vv a l l.length sel := by
  have key : ∀ budget, l.length ≤ budget → addUntilFull vv a l sel = addEntries vv a l budget sel := by
    induction l generalizing sel with
    | nil => intro _ _; rfl
    | cons nid rest ih =>
      intro budget hb
      rw [List.length_cons] at hb
      rw [addUntilFull, addEntries_cons]
      have hne : (budget == 0) = false := by simp; omega
      simp only [hne, Bool.or_false, decide_eq_true_eq]
      split
      · rfl
      · split
        · exact ih _ (by omega)
        · exact ih _ (by omega)
  exact key _ le_rfl

theorem Extends.fills {s : VersionVector} {r : Option VersionVector} (h : Extends vv a sel s)
    (hr : Fills vv a s r) : Fills vv a sel r := by
  obtain ⟨s', hs', hext, hfull⟩ := hr
  exact ⟨s', hs', h.trans hext, hfull⟩

variable (hsub : SubVector vv sel) (hsize : sel.size ≤ a.maxEntries)
include hsub hsize

theorem selects_addEntries : Selects vv a sel (some (addEntries vv a l budget sel)) :=
  ⟨_, rfl, .addEntries _ _ hsub hsize⟩

theorem fills_addEntries (hl : Covers vv sel l) (hbig : a.maxEntries < vv.size)
    (hbudget : a.maxEntries ≤ sel.size + budget) :
    Fills vv a sel (some (addEntries vv a l budget sel)) := by
  refine ⟨_, rfl, .addEntries _ _ hsub hsize, ?_⟩
  rw [hl.size_addEntries hsub hbig hsize]
  omega

theorem selects_addScored {score : NodeID → Nat → Option ℚ}
    {before : Candidate → Candidate → Bool}
    (h : ∀ nid ∈ vv.nodes, ∀ i, (score nid i).isSome) :
    Selects vv a sel (addScored vv a score before budget sel) := by
  unfold addScored
  split
  · exact ⟨sel, rfl, .refl hsub hsize⟩
  · obtain ⟨cs, hcs, -⟩ := candidates_eq_some sel h
    rw [hcs]
    exact selects_addEntries hsub hsize

theorem fills_addScored {score : NodeID → Nat → Option ℚ}
    {before : Candidate → Candidate → Bool}
    (h : ∀ nid ∈ vv.nodes, ∀ i, (score nid i).isSome) (hbig : a.maxEntries < vv.size)
    (hbudget : a.maxEntries ≤ sel.size + budget) :
    Fills vv a sel (addScored vv a score before budget sel) := by
  unfold addScored
  split
  · exact ⟨sel, rfl, .refl hsub hsize, by omega⟩
  · obtain ⟨cs, hcs, hnodes⟩ := candidates_eq_some sel h
    rw [hcs]
    refine fills_addEntries hsub hsize (.of_perm_unselected ?_) hbig hbudget
    rw [← hnodes]
    exact (sortBy_perm _ _).map _

variable (P l) in
theorem extends_addUnseenClusters (clusters : List (List Char)) (budget : Nat) :
    Extends vv a sel (addUnseenClusters P vv a l clusters budget sel).1 := by
  induction l generalizing sel clusters budget with
  | nil => exact .refl hsub hsize
  | cons nid rest ih =>
    rw [addUnseenClusters]
    split
    · exact .refl hsub hsize
    · next hgo =>
      have hlt : sel.size < a.maxEntries := by
        simp only [Bool.or_eq_true, decide_eq_true_eq, not_or] at hgo
        omega
      split
      · exact ih hsub hsize clusters budget
      · -- added or not, the walk goes on from a vector that extends `sel`
        have hstep := Extends.addEntry nid hsub hlt
        split <;> next hadd =>
          rw [hadd] at hstep
          exact hstep.trans (ih hstep.sub hstep.size_le _ _)

theorem selects_addClusterRecentEntries :
    Selects vv a sel (some (addClusterRecentEntries P vv a budget sel)) := by
  refine ⟨_, rfl, ?_⟩
  rw [addClusterRecentEntries]
  split
  · exact .refl hsub hsize
  · have hunseen := extends_addUnseenClusters P (recentNodes vv) hsub hsize
      (sel.nodes.map (clusterKey P)) budget
    split
    next s b hs =>
    rw [hs] at hunseen
    split
    · exact hunseen.trans (.addEntries _ _ hunseen.sub hunseen.size_le)
    · exact hunseen

theorem selects_addBestClusters {clusters : List (List Char)} :
    Selects vv a sel (addBestClusters P vv a budget clusters sel) := by
  induction budget generalizing sel clusters with
  | zero => exact ⟨sel, rfl, .refl hsub hsize⟩
  | succ budget ih =>
    rw [addBestClusters]
    split
    · next hlt =>
      have hscore : ∀ nid ∈ vv.nodes, ∀ i, (clusterScoreOf P vv a clusters nid i).isSome :=
        fun nid hn i => clusterScoreOf_isSome hn i
      obtain ⟨cs, hcs, -⟩ := candidates_eq_some sel hscore
      rw [bestCandidate, hcs]
      simp only [Option.pure_def, Option.bind_eq_bind, Option.bind_some]
      split
      · exact ⟨sel, rfl, .refl hsub hsize⟩
      · have hstep := Extends.addEntry (cs.foldl (fun best c =>
          best.consider c.nid c.score c.ts) ({} : Best)).bestNid hsub hlt
        split
        · next hadd =>
          rw [hadd] at hstep
          obtain ⟨s, hs, hext⟩ := ih hstep.sub hstep.size_le
          exact ⟨s, hs, hstep.trans hext⟩
        · next hadd =>
          -- `break`
          rw [hadd] at hstep
          exact ⟨_, rfl, hstep⟩
    · exact ⟨sel, rfl, .refl hsub hsize⟩

/-! ## Phases of several strategies -/

omit hsub hsize in
theorem fairnessReserve_eq_some (a : SubsetArgs) :
    ∃ reserve, fairnessReserve a = some reserve ∧ reserve ≤ a.maxEntries - 1 := by
  unfold fairnessReserve
  split
  · rw [sizeSub_eq_some (by omega)]
    exact ⟨_, rfl, min_le_left _ _⟩
  · exact ⟨0, rfl, by omega⟩

omit hsub in
theorem reservedBudget_isSome (reserve : Nat) : (reservedBudget a reserve sel).isSome := by
  rw [reservedBudget, sizeSub_eq_some hsize]
  simp only [Option.pure_def, Option.bind_eq_bind, Option.bind_some]
  split
  · rw [sizeSub_eq_some (by omega)]
    rfl
  · rfl

theorem selects_addFairEntries (reserve : Nat) :
    Selects vv a sel (addFairEntries vv a reserve sel) := by
  unfold addFairEntries
  split
  · rw [sizeSub_eq_some hsize]
    exact selects_addEntries hsub hsize
  · exact ⟨sel, rfl, .refl hsub hsize⟩

theorem selects_addIntoRoom {add : Nat → VersionVector → Option VersionVector}
    (hadd : ∀ room, Selects vv a sel (add room sel)) :
    Selects vv a sel (addIntoRoom a add sel) := by
  unfold addIntoRoom
  split
  · rw [sizeSub_eq_some hsize]
    exact hadd _
  · exact ⟨sel, rfl, .refl hsub hsize⟩

/-- The last fill of most strategies leaves no slot free. -/
theorem fills_fillRoundRobin (hbig : a.maxEntries < vv.size) :
    Fills vv a sel (fillRoundRobin vv a sel) := by
  unfold fillRoundRobin addIntoRoom
  split
  · rw [sizeSub_eq_some hsize]
    exact fills_addEntries hsub hsize (.of_perm_nodes (roundRobinNodes_perm vv a)) hbig (by omega)
  · exact ⟨sel, rfl, .refl hsub hsize, by omega⟩

theorem selects_addIfAny {add : Nat → VersionVector → Option VersionVector}
    (hadd : ∀ budget, Selects vv a sel (add budget sel)) :
    Selects vv a sel (addIfAny add budget sel) := by
  unfold addIfAny
  split
  · exact hadd _
  · exact ⟨sel, rfl, .refl hsub hsize⟩

omit hsub in
theorem recentBudget_isSome (quota : Nat) : (recentBudget a quota sel).isSome := by
  rw [recentBudget, sizeSub_eq_some hsize, Option.bind_eq_bind, Option.bind_some]
  split
  · rw [sizeSub_eq_some (by omega)]
    rfl
  · rfl

theorem selects_spendQuota {addQuota : Nat → VersionVector → VersionVector}
    (hadd : ∀ budget, Selects vv a sel (some (addQuota budget sel))) (quota : Nat) :
    Selects vv a sel (spendQuota a addQuota quota sel) := by
  unfold spendQuota
  split
  · rw [sizeSub_eq_some hsize]
    exact hadd _
  · exact ⟨sel, rfl, .refl hsub hsize⟩

omit hsub hsize in
theorem hotShare_isSome {reserve : Nat} (h : reserve ≤ a.maxEntries - 1) :
    (hotShare a reserve).isSome := by
  unfold hotShare
  dsimp only
  split
  · rw [sizeSub_eq_some (by omega)]
    rfl
  · rfl

theorem selects_addHotEntries (target : Nat) :
    Selects vv a sel (addHotEntries vv a target sel) := by
  unfold addHotEntries
  split
  · rw [sizeSub_eq_some (by omega)]
    exact selects_addEntries hsub hsize
  · exact ⟨sel, rfl, .refl hsub hsize⟩

/-- The phases after the quota or the reserve: `add` into what room is left, then fill. -/
theorem fills_lastPhases {add : Nat → VersionVector → Option VersionVector}
    (hadd : ∀ room, Selects vv a sel (add room sel)) (hbig : a.maxEntries < vv.size) :
    Fills vv a sel (addIntoRoom a add sel >>= fillRoundRobin vv a) := by
  apply (selects_addIntoRoom hsub hsize hadd).bind_fills
  intro s hs hs'
  exact fills_fillRoundRobin hs hs' hbig

/-- The phases after the budgeted one in the strategies that keep a reserve. -/
theorem fills_reservePhases (reserve : Nat) {add : Nat → VersionVector → Option VersionVector}
    (hadd : ∀ room s, SubVector vv s → s.size ≤ a.maxEntries → Selects vv a s (add room s))
    (hbig : a.maxEntries < vv.size) :
    Fills vv a sel (addFairEntries vv a reserve sel >>= fun s =>
      addIntoRoom a add s >>= fillRoundRobin vv a) := by
  apply (selects_addFairEntries hsub hsize reserve).bind_fills
  intro s hs hs'
  exact fills_lastPhases hs hs' (fun room => hadd room s hs hs') hbig

/-! ## The strategies -/

variable (hbig : a.maxEntries < vv.size)
include hbig

theorem fills_selectRecent : Fills vv a sel (selectRecent vv a sel) := by
  rw [selectRecent, sizeSub_eq_some hsize]
  have hsticky : Extends vv a sel (addStickyEntries vv a
      (min a.stickyBudget (a.maxEntries - sel.size)) sel) := .addEntries _ _ hsub hsize
  exact hsticky.fills (fills_addEntries hsticky.sub hsticky.size_le
    (.of_perm_nodes (recentNodes_perm vv)) hbig (by omega))

theorem fills_selectStickyRecent : Fills vv a sel (selectStickyRecent vv a sel) := by
  rw [selectStickyRecent, sizeSub_eq_some hsize, Option.bind_eq_bind, Option.bind_some]
  have hsticky : Extends vv a sel (addStickyEntries vv a
      (min a.stickyBudget (a.maxEntries - sel.size)) sel) := .addEntries _ _ hsub hsize
  apply hsticky.fills
  dsimp only
  rw [sizeSub_eq_some hsticky.size_le, Option.bind_some]
  have hrecent := Extends.addEntries (recentNodes vv) (a.maxEntries - (addStickyEntries vv a
    (min a.stickyBudget (a.maxEntries - sel.size)) sel).size) hsticky.sub hsticky.size_le
  exact hrecent.fills (fills_fillRoundRobin hrecent.sub hrecent.size_le hbig)

theorem fills_selectQuota {addQuota : Nat → VersionVector → VersionVector}
    (hadd : ∀ budget s, SubVector vv s → s.size ≤ a.maxEntries →
      Selects vv a s (some (addQuota budget s))) :
    Fills vv a sel (selectQuota vv a addQuota sel) := by
  obtain ⟨budget, hbudget⟩ := Option.isSome_iff_exists.mp
    (recentBudget_isSome hsize (min a.noveltyBudget (a.maxEntries - sel.size)))
  rw [selectQuota, sizeSub_eq_some hsize, Option.bind_eq_bind, Option.bind_some]
  dsimp only
  rw [hbudget, Option.bind_some]
  apply (selects_addIfAny hsub hsize fun _ => selects_addEntries hsub hsize).bind_fills
  intro s hs hs'
  apply (selects_spendQuota hs hs' (fun _ => hadd _ s hs hs') _).bind_fills
  intro s hs hs'
  exact fills_lastPhases hs hs' (fun _ => selects_addEntries hs hs') hbig

theorem fills_selectScoredWithReserve {add : Nat → VersionVector → Option VersionVector}
    (hadd : ∀ budget s, SubVector vv s → s.size ≤ a.maxEntries → Selects vv a s (add budget s)) :
    Fills vv a sel (selectScoredWithReserve vv a add sel) := by
  obtain ⟨reserve, hreserve, -⟩ := fairnessReserve_eq_some a
  obtain ⟨budget, hbudget⟩ :=
    Option.isSome_iff_exists.mp (reservedBudget_isSome hsize reserve)
  rw [selectScoredWithReserve, hreserve, Option.bind_eq_bind, Option.bind_some, hbudget,
    Option.bind_some]
  apply (selects_addIfAny hsub hsize fun _ => hadd _ sel hsub hsize).bind_fills
  intro s hs hs'
  exact fills_reservePhases hs hs' reserve hadd hbig

theorem fills_selectHybrid : Fills vv a sel (selectHybrid vv a sel) := by
  obtain ⟨reserve, hreserve, hle⟩ := fairnessReserve_eq_some a
  obtain ⟨share, hshare⟩ := Option.isSome_iff_exists.mp (hotShare_isSome hle)
  rw [selectHybrid, hreserve, Option.bind_eq_bind, Option.bind_some, hotTarget, hshare,
    Option.bind_eq_bind, Option.bind_some]
  apply (selects_addHotEntries hsub hsize _).bind_fills
  intro s hs hs'
  exact fills_reservePhases hs hs' reserve (fun _ _ hs hs' => selects_addEntries hs hs') hbig

theorem fills_selectClusterHybrid : Fills vv a sel (selectClusterHybrid P vv a sel) := by
  obtain ⟨reserve, hreserve, -⟩ := fairnessReserve_eq_some a
  obtain ⟨budget, hbudget⟩ :=
    Option.isSome_iff_exists.mp (reservedBudget_isSome hsize reserve)
  rw [selectClusterHybrid, hreserve, Option.bind_eq_bind, Option.bind_some, hbudget,
    Option.bind_some]
  apply (selects_addIfAny hsub hsize fun _ =>
    selects_addClusterRecentEntries hsub hsize).bind_fills
  intro s hs hs'
  exact fills_reservePhases hs hs' reserve
    (fun _ _ hs hs' => selects_addClusterRecentEntries hs hs') hbig

/-- Every strategy succeeds and fills its budget, whatever was selected before. -/
theorem fills_selectByStrategy : Fills vv a sel (selectByStrategy P vv a sel) := by
  unfold selectByStrategy
  cases a.strategy with
  | Recent => exact fills_selectRecent hsub hsize hbig
  | StickyRecent => exact fills_selectStickyRecent hsub hsize hbig
  | RecentNoveltyQuota =>
    exact fills_selectQuota hsub hsize hbig fun _ _ hs hs' => selects_addEntries hs hs'
  | RecentRandomQuota =>
    exact fills_selectQuota hsub hsize hbig fun _ _ hs hs' => selects_addEntries hs hs'
  | AdaptiveRecentScore =>
    exact fills_addEntries hsub hsize (.of_perm_nodes (recentNodes_perm vv)) hbig (by omega)
  | Random =>
    dsimp only
    rw [addUntilFull_eq]
    have hlen := (shuffledNodes_perm P vv a).length_eq
    rw [length_nodes] at hlen
    exact fills_addEntries hsub hsize (.of_perm_nodes (shuffledNodes_perm P vv a)) hbig (by omega)
  | RoundRobin =>
    exact fills_addEntries hsub hsize (.of_perm_nodes (roundRobinNodes_perm vv a)) hbig (by omega)
  | Score =>
    dsimp only
    rw [selectScore, sizeSub_eq_some hsize]
    exact fills_addScored hsub hsize (fun nid _ i => scoreOf_isSome nid i) hbig (by omega)
  | AgeScore =>
    exact fills_selectScoredWithReserve hsub hsize hbig fun _ _ hs hs' =>
      selects_addScored hs hs' fun _ hn i => ageScoreOf_isSome hn i
  | DeficitScore =>
    exact fills_selectScoredWithReserve hsub hsize hbig fun _ _ hs hs' =>
      selects_addScored hs hs' fun _ hn i => deficitScoreOf_isSome hn i
  | ClusterScore =>
    exact fills_selectScoredWithReserve hsub hsize hbig fun _ _ hs hs' =>
      selects_addBestClusters hs hs'
  | Hybrid => exact fills_selectHybrid hsub hsize hbig
  | ClusterHybrid => exact fills_selectClusterHybrid hsub hsize hbig
  | Full =>
    exact fills_addEntries hsub hsize (.of_perm_nodes (roundRobinNodes_perm vv a)) hbig (by omega)

end

/-! ## The whole selection -/

section

variable (P : Platform) (vv : VersionVector) (a : SubsetArgs)

theorem subVector_selectPreferred : SubVector vv (selectPreferred vv a) := by
  unfold selectPreferred
  split
  · exact .empty vv
  · exact (SubVector.empty vv).addEntry

theorem size_selectPreferred_le : (selectPreferred vv a).size ≤ 1 := by
  unfold selectPreferred
  split
  · simp
  · rw [size_addEntry, size_empty]
    split <;> omega

variable {vv a} in
theorem has_selectPreferred (hne : a.preferredNode.isEmpty = false)
    (hv : vv.has a.preferredNode = true) : (selectPreferred vv a).has a.preferredNode = true := by
  rw [selectPreferred, hne]
  exact (has_addEntry _ _ _ _).mpr (Or.inr ⟨rfl, hv⟩)

variable {vv a} in
/-- A proper selection fills its budget, starting from the preferred node. -/
theorem fills_selectSubset (hpos : 1 ≤ a.maxEntries) (hbig : a.maxEntries < vv.size)
    (hstrategy : a.strategy ≠ .Full) :
    Fills vv a (selectPreferred vv a) (selectSubset? P vv a) := by
  rw [selectSubset?, if_neg (by omega), if_neg (by simp [hstrategy]; omega)]
  exact fills_selectByStrategy (subVector_selectPreferred vv a)
    ((size_selectPreferred_le vv a).trans hpos) hbig

/-- No subtraction of `selectSubset` wraps. -/
theorem selectSubset?_isSome : (selectSubset? P vv a).isSome := by
  by_cases h₁ : a.maxEntries = 0 ∨ vv.size = 0
  · rw [selectSubset?, if_pos h₁]
    rfl
  · by_cases h₂ : a.strategy = .Full ∨ vv.size ≤ a.maxEntries
    · rw [selectSubset?, if_neg h₁, if_pos h₂]
      rfl
    · have hbig : a.maxEntries < vv.size := by omega
      obtain ⟨s, hs, -⟩ := fills_selectSubset P (by omega) hbig fun h => h₂ (Or.inl h)
      rw [hs]
      rfl

/-- `VersionVector::selectSubset`. -/
def selectSubset : VersionVector := (selectSubset? P vv a).get (selectSubset?_isSome P vv a)

theorem selectSubset?_eq_some : selectSubset? P vv a = some (selectSubset P vv a) :=
  (Option.some_get _).symm

variable {vv a} in
theorem selectSubset_eq_empty (h : a.maxEntries = 0 ∨ vv.size = 0) :
    selectSubset P vv a = .empty := by
  have hsome := selectSubset?_eq_some P vv a
  rw [selectSubset?, if_pos h] at hsome
  exact (Option.some.inj hsome).symm

variable {vv a} in
theorem selectSubset_eq_self (h : ¬(a.maxEntries = 0 ∨ vv.size = 0))
    (hall : a.strategy = .Full ∨ vv.size ≤ a.maxEntries) : selectSubset P vv a = vv := by
  have hsome := selectSubset?_eq_some P vv a
  rw [selectSubset?, if_neg h, if_pos hall] at hsome
  exact (Option.some.inj hsome).symm

variable {vv a} in
/-- A proper selection extends the preferred node to a full budget. -/
theorem selectSubset_extends (hpos : 1 ≤ a.maxEntries) (hbig : a.maxEntries < vv.size)
    (hstrategy : a.strategy ≠ .Full) :
    Extends vv a (selectPreferred vv a) (selectSubset P vv a) ∧
      (selectSubset P vv a).size = a.maxEntries := by
  obtain ⟨s, hs, hext, hfull⟩ := fills_selectSubset P hpos hbig hstrategy
  rw [selectSubset?_eq_some, Option.some.injEq] at hs
  rw [hs]
  exact ⟨hext, hfull⟩

/-- The selection is a sub-vector. -/
theorem subVector_selectSubset : SubVector vv (selectSubset P vv a) := by
  by_cases h₁ : a.maxEntries = 0 ∨ vv.size = 0
  · rw [selectSubset_eq_empty P h₁]
    exact .empty vv
  · by_cases h₂ : a.strategy = .Full ∨ vv.size ≤ a.maxEntries
    · rw [selectSubset_eq_self P h₁ h₂]
      exact .refl vv
    · exact (selectSubset_extends P (by omega) (by omega) fun h => h₂ (Or.inl h)).1.sub

variable {a} in
/-- The selection has as many entries as the budget and the vector allow. -/
theorem size_selectSubset (hstrategy : a.strategy ≠ .Full) :
    (selectSubset P vv a).size = min a.maxEntries vv.size := by
  by_cases h₁ : a.maxEntries = 0 ∨ vv.size = 0
  · rw [selectSubset_eq_empty P h₁, size_empty]
    omega
  · by_cases h₂ : vv.size ≤ a.maxEntries
    · rw [selectSubset_eq_self P h₁ (Or.inr h₂)]
      omega
    · rw [(selectSubset_extends P (by omega) (by omega) hstrategy).2]
      omega

variable {vv a} in
/-- The selection contains the preferred node. -/
theorem has_selectSubset_preferred (hpos : 1 ≤ a.maxEntries)
    (hne : a.preferredNode.isEmpty = false) (hv : vv.has a.preferredNode = true) :
    (selectSubset P vv a).has a.preferredNode = true := by
  have hsize : vv.size ≠ 0 := by
    have hmem := (mem_nodes vv a.preferredNode).mpr hv
    have hlen := List.length_pos_of_mem hmem
    rw [length_nodes] at hlen
    omega
  by_cases h₂ : a.strategy = .Full ∨ vv.size ≤ a.maxEntries
  · rw [selectSubset_eq_self P (by omega) h₂]
    exact hv
  · have hbig : a.maxEntries < vv.size := by omega
    have hext := (selectSubset_extends P hpos hbig fun h => h₂ (Or.inl h)).1
    exact hext.mono _ (has_selectPreferred hne hv)

variable {a} in
/-- Every strategy other than `Full` evaluates no wrapping subtraction and returns
    exactly `min maxEntries |vv|` entries of `vv`, with their sequence numbers and
    update times, among them the preferred node. -/
theorem selectSubset_exact (hstrategy : a.strategy ≠ .Full) :
    ∃ r, selectSubset? P vv a = some r ∧
      r.size = min a.maxEntries vv.size ∧
      (∀ (nid : NodeID) (s : SeqNo), r.map[nid]? = some s →
        vv.map[nid]? = some s ∧ r.getLastUpdate nid = vv.getLastUpdate nid) ∧
      (1 ≤ a.maxEntries → a.preferredNode.isEmpty = false → vv.has a.preferredNode = true →
        r.has a.preferredNode = true) := by
  refine ⟨selectSubset P vv a, selectSubset?_eq_some P vv a, size_selectSubset P vv hstrategy,
    ?_, has_selectSubset_preferred P⟩
  intro nid s hs
  have hsub := subVector_selectSubset P vv a
  exact ⟨hsub.entry nid s hs, hsub.lastUpdate nid ((has_iff _ nid).mpr ⟨s, hs⟩)⟩

end

/-- `selectSubset_exact` on a vector of three nodes with a budget of two. -/
theorem selectSubset_exact_deficitScore :
    ∃ r, selectSubset? .plain
        (((VersionVector.empty.set (.ofBytes [[97]]) 1 10).set (.ofBytes [[98]]) 5 20).set
          (.ofBytes [[99]]) 3 30)
        { maxEntries := 2, strategy := .DeficitScore, preferredNode := .ofBytes [[98]] } = some r ∧
      r.size = min 2 3 ∧ r.has (.ofBytes [[98]]) = true := by
  obtain ⟨r, hr, hsize, -, hpref⟩ := selectSubset_exact .plain
    (((VersionVector.empty.set (.ofBytes [[97]]) 1 10).set (.ofBytes [[98]]) 5 20).set
      (.ofBytes [[99]]) 3 30)
    (a := { maxEntries := 2, strategy := .DeficitScore, preferredNode := .ofBytes [[98]] })
    (by decide)
  exact ⟨r, hr, hsize, hpref (by decide) (by decide) (by decide)⟩

end Svs
