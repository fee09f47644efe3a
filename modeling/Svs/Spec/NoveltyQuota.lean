import Svs.Spec.BudgetSpent
import Svs.Spec.RecentSelection

/-!
# The novelty quota

`RecentNoveltyQuota` first gives the recent entries all slots but the quota, then the
quota to entries that were not in the partial vector before.  The recent entries cannot
eat into the quota, and novel entries among them count all the same.

## Key results

- `countP_addEntries`: how much of a list a walk over it selects
- `novelty_quota`: how many entries of a partial vector were not in the one before
-/

namespace Svs

open VersionVector

section

variable {P : Platform} {vv : VersionVector} {a : SubsetArgs} {sel : VersionVector}
  {l : List NodeID} {budget : Nat}

/-- After a walk over a list as much of it is selected as the budget and the free slots
    allow, if not all. -/
theorem countP_addEntries (hl : l.Nodup) (hmem : ∀ nid ∈ l, vv.has nid = true) :
    min (min budget (a.maxEntries - sel.size)) l.length ≤
      l.countP ((addEntries vv a l budget sel).has ·) := by
  have hadds : ∀ n, (addEntries vv a l budget sel).has n = true ↔ _ := fun n =>
    has_addEntries hl hmem n
  have hold : (l.filter (sel.has ·)).countP ((addEntries vv a l budget sel).has ·) =
      (l.filter (sel.has ·)).length := by
    rw [List.countP_eq_length]
    intro n hn
    exact (hadds n).mpr (Or.inl (List.mem_filter.mp hn).2)
  have hnew : min (min budget (a.maxEntries - sel.size)) (l.filter (!sel.has ·)).length ≤
      (l.filter (!sel.has ·)).countP ((addEntries vv a l budget sel).has ·) := by
    have htake : ((l.filter (!sel.has ·)).take (min budget (a.maxEntries - sel.size))).countP
        ((addEntries vv a l budget sel).has ·) = _ :=
      List.countP_eq_length.mpr fun n hn => (hadds n).mpr (Or.inr hn)
    rw [← List.length_take, ← htake]
    exact (List.take_sublist _ _).countP_le
  -- what was selected before needs no budget
  rw [List.countP_eq_countP_filter_add l _ (sel.has ·),
    List.length_eq_length_filter_add (sel.has ·)]
  omega

theorem recentBudget_eq (quota : Nat) (hsize : sel.size ≤ a.maxEntries) :
    recentBudget a quota sel = some (a.maxEntries - sel.size - quota) := by
  rw [recentBudget, sizeSub_eq_some hsize, Option.bind_eq_bind, Option.bind_some]
  split
  · exact sizeSub_eq_some (by omega)
  · rw [show a.maxEntries - sel.size - quota = 0 by omega]

theorem nodup_noveltyNodes (vv : VersionVector) (a : SubsetArgs) : (noveltyNodes vv a).Nodup :=
  (sortBy_perm _ _).nodup_iff.mpr (vv.nodes_nodup.filter _)

theorem mem_noveltyNodes (nid : NodeID) :
    nid ∈ noveltyNodes vv a ↔ vv.has nid = true ∧ nid ∉ a.noveltyBaseEntries := by
  rw [noveltyNodes, (sortBy_perm _ _).mem_iff, List.mem_filter, mem_nodes, decide_eq_true_eq]

/-- A quota that fits next to the preferred node is spent on novel entries, unless the
    selection has all of them. -/
theorem quota_selectSubset (P : Platform) (hstrategy : a.strategy = .RecentNoveltyQuota)
    (hpos : 1 ≤ a.maxEntries) (hbig : a.maxEntries < vv.size)
    (hquota : (selectPreferred vv a).size + a.noveltyBudget ≤ a.maxEntries) :
    min a.noveltyBudget (noveltyNodes vv a).length ≤
      (noveltyNodes vv a).countP ((selectSubset P vv a).has ·) := by
  have hpref : (selectPreferred vv a).size ≤ a.maxEntries := by omega
  have hsome := selectSubset?_eq_some P vv a
  rw [selectSubset?, if_neg (by omega), if_neg (by simp [hstrategy]; omega), selectByStrategy,
    hstrategy] at hsome
  have hfits : min a.noveltyBudget (a.maxEntries - (selectPreferred vv a).size) = a.noveltyBudget := by
    omega
  simp only [selectQuota, sizeSub_eq_some hpref, Option.bind_eq_bind, Option.bind_some, hfits,
    recentBudget_eq _ hpref] at hsome
  -- the recent entries leave the quota
  have hrecent : Spends vv a (a.maxEntries - (selectPreferred vv a).size - a.noveltyBudget)
      (selectPreferred vv a) (addIfAny (fun budget s => some (addRecentEntries vv a budget s))
        (a.maxEntries - (selectPreferred vv a).size - a.noveltyBudget) (selectPreferred vv a)) :=
    .addIfAny (subVector_selectPreferred vv a) hpref
      (spends_addRecentEntries _ hbig (subVector_selectPreferred vv a) hpref)
  obtain ⟨s₁, hs₁, hext₁, hsize₁⟩ := hrecent
  rw [hs₁, Option.bind_some] at hsome
  by_cases hnone : a.noveltyBudget = 0
  · rw [hnone, Nat.zero_min]
    exact Nat.zero_le _
  · have hroom : min a.noveltyBudget (a.maxEntries - s₁.size) = a.noveltyBudget := by omega
    rw [spendQuota, if_pos (Nat.pos_of_ne_zero hnone), sizeSub_eq_some hext₁.size_le] at hsome
    simp only [Option.bind_eq_bind, Option.bind_some, hroom, Option.pure_def] at hsome
    -- what the quota adds stays
    have hext₂ : Extends vv a s₁ (addNoveltyEntries vv a a.noveltyBudget s₁) :=
      .addEntries _ _ hext₁.sub hext₁.size_le
    have hlast : Fills vv a (addNoveltyEntries vv a a.noveltyBudget s₁)
        (addIntoRoom a (fun room s => some (addRecentEntries vv a room s))
          (addNoveltyEntries vv a a.noveltyBudget s₁) >>= fillRoundRobin vv a) :=
      fills_lastPhases hext₂.sub hext₂.size_le (fun _ => selects_addEntries hext₂.sub hext₂.size_le)
        hbig
    obtain ⟨s₃, hs₃, hext₃, -⟩ := hlast
    rw [Option.bind_eq_bind] at hs₃
    obtain rfl : s₃ = selectSubset P vv a := Option.some.inj (hs₃.symm.trans hsome)
    have hcount : _ ≤ (noveltyNodes vv a).countP
        ((addEntries vv a (noveltyNodes vv a) a.noveltyBudget s₁).has ·) :=
      countP_addEntries (nodup_noveltyNodes vv a) fun n hn => ((mem_noveltyNodes n).mp hn).1
    rw [hroom] at hcount
    exact hcount.trans (List.countP_mono_left fun n _ hn => hext₃.mono n hn)

end

namespace Core

variable {P : Platform} {cfg : Config} {c : Core} {builds : List Build}

/-- With a quota the base are the nodes of the partial vector before, and the quota leaves a
    slot. -/
theorem quota_subsetArgs (m : Moment) (limit : Nat)
    (hbudget : (subsetArgs cfg m c limit).noveltyBudget ≠ 0) :
    (subsetArgs cfg m c limit).noveltyBaseEntries = c.lastSelectedNodes ∧
      (subsetArgs cfg m c limit).noveltyBudget ≤ limit - 1 := by
  have hquota : ((cfg.stateVectorStrategy == .RecentNoveltyQuota
      || cfg.stateVectorStrategy == .RecentRandomQuota) && decide (limit > 1)) = true := by
    by_contra hnot
    exact hbudget (if_neg hnot)
  have hbase : (subsetArgs cfg m c limit).noveltyBaseEntries = _ := if_pos hquota
  have hshare : (subsetArgs cfg m c limit).noveltyBudget = _ := if_pos hquota
  rw [hbase, hshare]
  exact ⟨rfl, shareOfLimit_le _ _ _⟩

/-- Every partial vector of `RecentNoveltyQuota` has entries that the one before had not: as
    many as there are, up to the quota. -/
theorem novelty_quota (h : BuildRun P cfg c builds) (m : Moment)
    (hstrategy : cfg.stateVectorStrategy = .RecentNoveltyQuota)
    (hpart : syncLimit cfg c < c.vv.size) :
    min (subsetArgs cfg m c (syncLimit cfg c)).noveltyBudget
        (c.vv.size - (previousNodes builds).length) ≤
      (buildSyncVector P cfg m c).2.nodes.countP fun nid => decide (nid ∉ previousNodes builds) := by
  by_cases hbudget : (subsetArgs cfg m c (syncLimit cfg c)).noveltyBudget = 0
  · rw [hbudget, Nat.zero_min]
    exact Nat.zero_le _
  · obtain ⟨hbase, hle⟩ := quota_subsetArgs m (syncLimit cfg c) hbudget
    have hselected := h.bookkept.selected
    have hmax : (subsetArgs cfg m c (syncLimit cfg c)).maxEntries = syncLimit cfg c := rfl
    have hpref := size_selectPreferred_le c.vv (subsetArgs cfg m c (syncLimit cfg c))
    have hnovel : ∀ nid, nid ∈ noveltyNodes c.vv (subsetArgs cfg m c (syncLimit cfg c)) ↔
        c.vv.has nid = true ∧ nid ∉ previousNodes builds := by
      intro nid
      rw [mem_noveltyNodes, hbase, hselected.mem_iff]
    have hstrategy' : (subsetArgs cfg m c (syncLimit cfg c)).strategy = .RecentNoveltyQuota := by
      simp [subsetArgs, effectiveStrategy, hstrategy]
    have hspent := quota_selectSubset P hstrategy' (by omega) hpart (by omega)
    -- there are enough novel entries
    have hmany : c.vv.size - (previousNodes builds).length ≤
        (noveltyNodes c.vv (subsetArgs cfg m c (syncLimit cfg c))).length := by
      have hsub : c.vv.nodes ⊆ previousNodes builds ++
          noveltyNodes c.vv (subsetArgs cfg m c (syncLimit cfg c)) := by
        intro nid hn
        rw [List.mem_append, hnovel, ← mem_nodes]
        tauto
      have hlen := (c.vv.nodes_nodup.subperm hsub).length_le
      rw [length_nodes, List.length_append] at hlen
      omega
    -- and those selected are entries of the vector sent
    have hsent : (noveltyNodes c.vv (subsetArgs cfg m c (syncLimit cfg c))).countP
        ((buildSyncVector P cfg m c).2.has ·) ≤
          (buildSyncVector P cfg m c).2.nodes.countP fun nid => decide (nid ∉ previousNodes builds) := by
      rw [List.countP_eq_length_filter, List.countP_eq_length_filter]
      apply (((nodup_noveltyNodes _ _).filter _).subperm _).length_le
      intro nid hn
      rw [List.mem_filter, hnovel] at hn
      rw [List.mem_filter, mem_nodes, decide_eq_true_eq]
      exact ⟨hn.2, hn.1.2⟩
    rw [buildSyncVector_snd, if_neg hpart.ne] at hsent ⊢
    exact (min_le_min_left _ hmany).trans (hspent.trans hsent)

/-- Node `a` with a budget of three and a quota of two: the second vector has two entries that
    the first had not. -/
theorem novelty_quota_five :
    let cfg : Config :=
      { id := .ofBytes [[97]], maxStateVectorEntries := 3, stateVectorStrategy := .RecentNoveltyQuota }
    let known : VersionVector := ((((VersionVector.empty.set (.ofBytes [[97]]) 1 0).set
      (.ofBytes [[98]]) 1 0).set (.ofBytes [[99]]) 1 0).set (.ofBytes [[100]]) 1 0).set
        (.ofBytes [[101]]) 1 0
    let c₀ : Core := { init cfg 0 with vv := known }
    let c₁ := (buildSyncVector .plain cfg (.atMs 1) c₀).1
    let previous := previousNodes [buildOf .plain cfg (.atMs 1) c₀]
    min (subsetArgs cfg (.atMs 2) c₁ (syncLimit cfg c₁)).noveltyBudget
        (c₁.vv.size - previous.length) = 2 ∧
      min (subsetArgs cfg (.atMs 2) c₁ (syncLimit cfg c₁)).noveltyBudget
          (c₁.vv.size - previous.length) ≤
        (buildSyncVector .plain cfg (.atMs 2) c₁).2.nodes.countP fun nid => decide (nid ∉ previous) := by
  intro cfg known c₀ c₁ previous
  have hknown : Grows (init cfg 0) c₀ := grows_init cfg 0 known
  have hrun : BuildRun .plain cfg c₁ [buildOf .plain cfg (.atMs 1) c₀] :=
    .build (.atMs 1) (.grow (.init 0) hknown)
  exact ⟨by decide +kernel, novelty_quota hrun (.atMs 2) rfl (by decide +kernel)⟩

end Core

end Svs
