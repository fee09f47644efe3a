import Svs.Spec.BuildHistory
import Svs.Spec.UpdateCarried

/-!
# What the recency strategies keep

`Recent`, `AdaptiveRecentScore` and `StickyRecent` send the preferred node, some of the
sticky nodes and, in the slots that are left, the newest entries.  What `buildSyncVector`
passes as sticky nodes is the partial vector before, so a part of it stays.

## Key results

- `has_addEntries_freshNodes`: which nodes a walk over any list adds
- `keepsNewest_selectSubset`: the three strategies
- `recent_keeps_newest`: these, and what `StickyRecent` keeps from call to call
-/

namespace Svs

open VersionVector

section

variable {P : Platform} {vv : VersionVector} {a : SubsetArgs} {sel : VersionVector}
  {l : List NodeID} {budget : Nat}

/-! ## Walks over any list -/

/-- The nodes of a list that a walk can add, in the order it meets them. -/
def freshNodes (vv sel : VersionVector) (l : List NodeID) : List NodeID :=
  (l.filter fun nid => vv.has nid && !sel.has nid).eraseDups

theorem freshNodes_cons (vv sel : VersionVector) (nid : NodeID) (l : List NodeID) :
    freshNodes vv sel (nid :: l) =
      if vv.has nid && !sel.has nid then nid :: freshNodes vv (addEntry vv nid sel).1 l
      else freshNodes vv sel l := by
  rw [freshNodes, List.filter_cons]
  split
  · next hnew =>
    -- the node is no longer new behind itself
    rw [List.eraseDups_cons, List.filter_filter, freshNodes]
    congr 2
    apply List.filter_congr
    intro n _
    rw [Bool.and_eq_true, Bool.not_eq_true'] at hnew
    have hadd : (addEntry vv nid sel).1.has n = (sel.has n || n == nid) := by
      rw [Bool.eq_iff_iff, has_addEntry, Bool.or_eq_true, beq_iff_eq]
      simp [hnew.1]
    rw [hadd]
    cases vv.has n <;> cases sel.has n <;> cases n == nid <;> rfl
  · rfl

/-- A walk selects the first new nodes, as many as the budget and the free slots allow. -/
theorem has_addEntries_freshNodes (m : NodeID) :
    (addEntries vv a l budget sel).has m = true ↔
      sel.has m = true ∨ m ∈ (freshNodes vv sel l).take (min budget (a.maxEntries - sel.size)) := by
  induction l generalizing budget sel with
  | nil => simp [addEntries, freshNodes]
  | cons nid rest ih =>
    rw [addEntries_cons]
    split
    · next hstop =>
      simp only [Bool.or_eq_true, decide_eq_true_eq, beq_iff_eq] at hstop
      rw [show min budget (a.maxEntries - sel.size) = 0 by omega]
      simp
    · next hgo =>
      simp only [Bool.or_eq_true, decide_eq_true_eq, beq_iff_eq, not_or] at hgo
      rw [ih, freshNodes_cons]
      split
      · next hnew =>
        -- the node takes one slot and one of the budget
        rw [Bool.and_eq_true] at hnew
        rw [has_addEntry, size_addEntry, if_pos (by simp [hnew]),
          show min budget (a.maxEntries - sel.size) =
            min (budget - 1) (a.maxEntries - (sel.size + 1)) + 1 by omega, List.take_succ_cons,
          List.mem_cons]
        simp only [hnew.1]
        tauto
      · next hold =>
        rw [Bool.not_eq_true] at hold
        rw [addEntry_of_not hold]

/-! ## The slots of the recent entries -/

/-- What a walk by recency adds comes before what it leaves out. -/
theorem recentFirst_addRecentEntries {x y : NodeID} (hx : (addRecentEntries vv a budget sel).has x = true)
    (hnew : sel.has x = false) (hy : vv.has y = true)
    (hout : (addRecentEntries vv a budget sel).has y = false) : recentFirst vv y x = false := by
  have hperm := recentNodes_perm vv
  have hnodup : (recentNodes vv).Nodup := hperm.nodup_iff.mpr vv.nodes_nodup
  have hmem : ∀ n ∈ recentNodes vv, vv.has n = true := fun n h => (mem_nodes vv n).mp (hperm.mem_iff.mp h)
  have hadds : ∀ n, (addEntries vv a (recentNodes vv) budget sel).has n = true ↔ _ := fun n =>
    has_addEntries hnodup hmem n
  rw [addRecentEntries, hadds, hnew] at hx
  rw [addRecentEntries, ← Bool.not_eq_true, hadds, not_or] at hout
  have htake := hx.resolve_left Bool.false_ne_true
  have hdrop : y ∈ ((recentNodes vv).filter (!sel.has ·)).drop (min budget (a.maxEntries - sel.size)) := by
    have hy : y ∈ (recentNodes vv).filter (!sel.has ·) :=
      List.mem_filter.mpr ⟨hperm.mem_iff.mpr ((mem_nodes vv y).mpr hy), by simp [hout.1]⟩
    rw [← List.take_append_drop (min budget (a.maxEntries - sel.size)) (List.filter _ _),
      List.mem_append] at hy
    exact hy.resolve_left hout.2
  have hsorted := sortBy_pairwise (fun n => (toLex (-vv.getLastUpdate n, n) : ℤ ×ₗ Name))
    (recentFirst_iff vv) vv.nodes
  have hle := (hsorted.filter (!sel.has ·)).rel_of_mem_take_of_mem_drop htake hdrop
  rw [← Bool.not_eq_true, recentFirst_iff]
  exact not_lt.mpr hle

/-- With all free slots the recent entries leave no room for the last phase. -/
theorem fillRoundRobin_addRecentEntries (hsub : SubVector vv sel) (hsize : sel.size ≤ a.maxEntries)
    (hbig : a.maxEntries < vv.size) :
    fillRoundRobin vv a (addRecentEntries vv a (a.maxEntries - sel.size) sel) =
      some (addRecentEntries vv a (a.maxEntries - sel.size) sel) := by
  have hfull : (addRecentEntries vv a (a.maxEntries - sel.size) sel).size = _ :=
    (Covers.of_perm_nodes (recentNodes_perm vv)).size_addEntries hsub hbig hsize
  rw [fillRoundRobin, addIntoRoom, if_neg (by omega)]

/-! ## The selection -/

/-- The preferred node; the empty name stands for none. -/
def isPreferred (a : SubsetArgs) (nid : NodeID) : Bool :=
  !a.preferredNode.isEmpty && nid == a.preferredNode

theorem has_selectPreferred_eq {nid : NodeID} (hn : vv.has nid = true) :
    (selectPreferred vv a).has nid = isPreferred a nid := by
  rw [Bool.eq_iff_iff, has_selectPreferred_iff, isPreferred, Bool.and_eq_true, Bool.not_eq_true',
    beq_iff_eq, hn]
  simp

/-- The sticky nodes that get a slot: the first distinct ones in the vector, other than the
    preferred node, as many as the budget and the free slots allow. -/
def stickyTaken (vv : VersionVector) (a : SubsetArgs) : List NodeID :=
  if a.strategy = .AdaptiveRecentScore then []
  else ((a.stickyEntries.filter fun nid => vv.has nid && !isPreferred a nid).eraseDups).take
    (min a.stickyBudget (a.maxEntries - (selectPreferred vv a).size))

/-- A full selection has the preferred node, the sticky nodes that get a slot, and else
    nothing that an unselected entry comes before. -/
structure KeepsNewest (vv : VersionVector) (a : SubsetArgs) (r : VersionVector) : Prop where
  sub : SubVector vv r
  size : r.size = a.maxEntries
  preferred : ∀ nid, isPreferred a nid = true → vv.has nid = true → r.has nid = true
  sticky : ∀ nid ∈ stickyTaken vv a, r.has nid = true
  newest : ∀ x y, r.has x = true → isPreferred a x = false → x ∉ stickyTaken vv a →
    vv.has y = true → r.has y = false → recentFirst vv y x = false

theorem freshNodes_selectPreferred :
    freshNodes vv (selectPreferred vv a) l =
      (l.filter fun nid => vv.has nid && !isPreferred a nid).eraseDups := by
  rw [freshNodes]
  congr 1
  apply List.filter_congr
  intro n _
  cases hn : vv.has n with
  | true => rw [has_selectPreferred_eq hn]
  | false => rfl

/-- The nodes selected before the recent entries. -/
theorem has_addStickyEntries (hstrategy : a.strategy ≠ .AdaptiveRecentScore) (nid : NodeID) :
    (addStickyEntries vv a (min a.stickyBudget (a.maxEntries - (selectPreferred vv a).size))
        (selectPreferred vv a)).has nid = true ↔
      (selectPreferred vv a).has nid = true ∨ nid ∈ stickyTaken vv a := by
  rw [addStickyEntries, has_addEntries_freshNodes, freshNodes_selectPreferred, stickyTaken,
    if_neg hstrategy, min_eq_left (min_le_right _ _)]

variable (P) (hpos : 1 ≤ a.maxEntries) (hbig : a.maxEntries < vv.size)
include hpos hbig

/-- The three strategies end with the recent entries. -/
theorem selectSubset_recent (hstrategy : a.strategy = .Recent ∨ a.strategy = .AdaptiveRecentScore ∨
      a.strategy = .StickyRecent) :
    ∃ s budget, selectSubset P vv a = addRecentEntries vv a budget s ∧
      ∀ nid, s.has nid = true ↔ (selectPreferred vv a).has nid = true ∨ nid ∈ stickyTaken vv a := by
  have hsome := selectSubset?_eq_some P vv a
  have hpref : (selectPreferred vv a).size ≤ a.maxEntries :=
    (size_selectPreferred_le vv a).trans hpos
  have hnotFull : ¬(a.strategy = .Full ∨ vv.size ≤ a.maxEntries) := by
    rw [not_or, not_le]
    refine ⟨?_, hbig⟩
    rcases hstrategy with h | h | h <;> rw [h] <;> decide
  rw [selectSubset?, if_neg (by omega), if_neg hnotFull, selectByStrategy] at hsome
  rcases hstrategy with h | h | h
  · rw [h] at hsome
    simp only [selectRecent, sizeSub_eq_some hpref, Option.bind_eq_bind, Option.bind_some] at hsome
    exact ⟨_, _, (Option.some.inj hsome).symm, has_addStickyEntries (by rw [h]; decide)⟩
  · rw [h] at hsome
    refine ⟨_, _, (Option.some.inj hsome).symm, ?_⟩
    intro nid
    rw [stickyTaken, if_pos h]
    simp
  · rw [h] at hsome
    have hsticky : Extends vv a (selectPreferred vv a) (addStickyEntries vv a
        (min a.stickyBudget (a.maxEntries - (selectPreferred vv a).size)) (selectPreferred vv a)) :=
      .addEntries _ _ (subVector_selectPreferred vv a) hpref
    simp only [selectStickyRecent, sizeSub_eq_some hpref, sizeSub_eq_some hsticky.size_le,
      Option.bind_eq_bind, Option.bind_some] at hsome
    rw [fillRoundRobin_addRecentEntries hsticky.sub hsticky.size_le hbig] at hsome
    exact ⟨_, _, (Option.some.inj hsome).symm, has_addStickyEntries (by rw [h]; decide)⟩

theorem keepsNewest_selectSubset (hstrategy : a.strategy = .Recent ∨
      a.strategy = .AdaptiveRecentScore ∨ a.strategy = .StickyRecent) :
    KeepsNewest vv a (selectSubset P vv a) := by
  have hnotFull : a.strategy ≠ .Full := by
    rcases hstrategy with h | h | h <;> rw [h] <;> decide
  obtain ⟨s, budget, heq, hs⟩ := selectSubset_recent P hpos hbig hstrategy
  obtain ⟨hext, hfull⟩ := selectSubset_extends P hpos hbig hnotFull
  have hsub := hext.sub
  have hmono : ∀ nid, s.has nid = true → (addRecentEntries vv a budget s).has nid = true :=
    fun nid hn => has_addEntries_of_has (recentNodes_perm vv) hn
  rw [heq] at hsub hfull ⊢
  constructor
  · exact hsub
  · exact hfull
  · intro nid hpref hn
    exact hmono nid ((hs nid).mpr (Or.inl ((has_selectPreferred_eq hn).trans hpref)))
  · exact fun nid hn => hmono nid ((hs nid).mpr (Or.inr hn))
  · intro x y hx hpref hnot hy hout
    apply recentFirst_addRecentEntries hx _ hy hout
    rw [← Bool.not_eq_true, hs, not_or, has_selectPreferred_eq (hsub.has hx), hpref]
    exact ⟨Bool.false_ne_true, hnot⟩

end

namespace Core

variable {P : Platform} {cfg : Config} {m : Moment} {c : Core} {builds : List Build}

/-! ## What stays from call to call -/

theorem shareOfLimit_le (limit atLeast : Nat) (ratio : ℚ) : shareOfLimit limit atLeast ratio ≤ limit - 1 :=
  min_le_left _ _

theorem nodup_previousNodes (builds : List Build) : (previousNodes builds).Nodup := by
  unfold previousNodes
  split
  · exact List.nodup_nil
  · exact nodes_nodup _

/-- With a sticky budget the sticky nodes are those of the partial vector before, and the
    budget leaves a slot. -/
theorem sticky_subsetArgs (limit : Nat) (hbudget : (subsetArgs cfg m c limit).stickyBudget ≠ 0) :
    (subsetArgs cfg m c limit).stickyEntries = c.lastSelectedNodes ∧
      (subsetArgs cfg m c limit).stickyBudget ≤ limit - 1 := by
  have hsticky : (cfg.stateVectorStrategy == .StickyRecent && !c.lastSelectedNodes.isEmpty
      && decide (limit > 1)) = true := by
    by_contra hnot
    exact hbudget (if_neg hnot)
  have hentries : (subsetArgs cfg m c limit).stickyEntries = _ := if_pos hsticky
  have hshare : (subsetArgs cfg m c limit).stickyBudget = _ := if_pos hsticky
  rw [hentries, hshare]
  exact ⟨rfl, shareOfLimit_le _ _ _⟩

/-- A partial vector of `StickyRecent` keeps nodes of the one before, other than the
    preferred node: as many as there are, up to the sticky budget. -/
theorem sticky_retained (h : BuildRun P cfg c builds) (m : Moment)
    (hstrategy : cfg.stateVectorStrategy = .StickyRecent) (hpart : syncLimit cfg c < c.vv.size) :
    min (subsetArgs cfg m c (syncLimit cfg c)).stickyBudget
        ((previousNodes builds).countP (!isPreferred (subsetArgs cfg m c (syncLimit cfg c)) ·)) ≤
      (previousNodes builds).countP fun nid =>
        !isPreferred (subsetArgs cfg m c (syncLimit cfg c)) nid &&
          (buildSyncVector P cfg m c).2.has nid := by
  by_cases hbudget : (subsetArgs cfg m c (syncLimit cfg c)).stickyBudget = 0
  · rw [hbudget, Nat.zero_min]
    exact Nat.zero_le _
  · obtain ⟨hentries, hle⟩ := sticky_subsetArgs (syncLimit cfg c) hbudget
    have hbook := h.bookkept
    have hstrategy' : (subsetArgs cfg m c (syncLimit cfg c)).strategy = .StickyRecent := by
      simp [subsetArgs, effectiveStrategy, hstrategy]
    have hkeeps : KeepsNewest c.vv (subsetArgs cfg m c (syncLimit cfg c))
        (buildSyncVector P cfg m c).2 := by
      rw [buildSyncVector_snd, if_neg hpart.ne]
      apply keepsNewest_selectSubset P _ hpart (Or.inr (Or.inr hstrategy'))
      have hmax : (subsetArgs cfg m c (syncLimit cfg c)).maxEntries = syncLimit cfg c := rfl
      omega
    -- all of the last selection is still there, each node once
    have hall : c.lastSelectedNodes.filter (fun nid =>
        c.vv.has nid && !isPreferred (subsetArgs cfg m c (syncLimit cfg c)) nid) =
          c.lastSelectedNodes.filter (!isPreferred (subsetArgs cfg m c (syncLimit cfg c)) ·) := by
      apply List.filter_congr
      intro nid hn
      rw [hbook.known nid (hbook.selected.mem_iff.mp hn), Bool.true_and]
    have hnodup : c.lastSelectedNodes.Nodup :=
      hbook.selected.nodup_iff.mpr (nodup_previousNodes builds)
    have hpref := size_selectPreferred_le c.vv (subsetArgs cfg m c (syncLimit cfg c))
    have htaken : stickyTaken c.vv (subsetArgs cfg m c (syncLimit cfg c)) =
        (c.lastSelectedNodes.filter (!isPreferred (subsetArgs cfg m c (syncLimit cfg c)) ·)).take
          (subsetArgs cfg m c (syncLimit cfg c)).stickyBudget := by
      rw [stickyTaken, hstrategy', if_neg (by decide), hentries, hall,
        (hnodup.filter _).eraseDups_eq, min_eq_left]
      have hmax : (subsetArgs cfg m c (syncLimit cfg c)).maxEntries = syncLimit cfg c := rfl
      omega
    -- those that get a slot are counted on the right
    rw [← hbook.selected.countP_eq, ← hbook.selected.countP_eq]
    have hcount : (stickyTaken c.vv (subsetArgs cfg m c (syncLimit cfg c))).length ≤
        (c.lastSelectedNodes.filter (!isPreferred (subsetArgs cfg m c (syncLimit cfg c)) ·)).countP
          ((buildSyncVector P cfg m c).2.has ·) := by
      have hsent := List.countP_eq_length.mpr hkeeps.sticky
      rw [← hsent, htaken]
      exact (List.take_sublist _ _).countP_le
    rw [htaken, List.length_take, ← List.countP_eq_length_filter, List.countP_filter] at hcount
    simpa only [Bool.and_comm] using hcount

/-- The strategies that go by recency keep the newest entries in the slots that the
    preferred node and the sticky nodes leave, and under `StickyRecent` nodes of the
    partial vector before stay, up to the sticky budget. -/
theorem recent_keeps_newest (P : Platform) :
    (∀ (vv : VersionVector) (a : SubsetArgs), a.strategy = .Recent ∨
        a.strategy = .AdaptiveRecentScore ∨ a.strategy = .StickyRecent →
      1 ≤ a.maxEntries → a.maxEntries < vv.size → KeepsNewest vv a (selectSubset P vv a)) ∧
    ∀ (cfg : Config) (c : Core) (builds : List Build) (m : Moment), BuildRun P cfg c builds →
      cfg.stateVectorStrategy = .StickyRecent → syncLimit cfg c < c.vv.size →
      min (subsetArgs cfg m c (syncLimit cfg c)).stickyBudget
          ((previousNodes builds).countP (!isPreferred (subsetArgs cfg m c (syncLimit cfg c)) ·)) ≤
        (previousNodes builds).countP fun nid =>
          !isPreferred (subsetArgs cfg m c (syncLimit cfg c)) nid &&
            (buildSyncVector P cfg m c).2.has nid :=
  ⟨fun _ _ hstrategy hpos hbig => keepsNewest_selectSubset P hpos hbig hstrategy,
    fun _ _ _ m h hstrategy hpart => sticky_retained h m hstrategy hpart⟩

/-- Node `a` with a budget of three; `b` and `c` keep their slots when `d` and `e`, which are
    newer, join. -/
theorem recent_keeps_newest_five :
    let cfg : Config :=
      { id := .ofBytes [[97]], maxStateVectorEntries := 3, stateVectorStrategy := .StickyRecent }
    let known : VersionVector := (((VersionVector.empty.set (.ofBytes [[97]]) 1 0).set
      (.ofBytes [[98]]) 1 0).set (.ofBytes [[99]]) 1 0).set (.ofBytes [[100]]) 1 0
    let c₀ : Core := { init cfg 0 with vv := known }
    let c₁ := (buildSyncVector .plain cfg (.atMs 1) c₀).1
    let c₂ : Core := { c₁ with
      vv := (known.set (.ofBytes [[100]]) 2 5).set (.ofBytes [[101]]) 1 6 }
    KeepsNewest c₂.vv { maxEntries := 2, strategy := .Recent }
        (selectSubset .plain c₂.vv { maxEntries := 2, strategy := .Recent }) ∧
      min (subsetArgs cfg (.atMs 2) c₂ (syncLimit cfg c₂)).stickyBudget
          ((previousNodes [buildOf .plain cfg (.atMs 1) c₀]).countP
            (!isPreferred (subsetArgs cfg (.atMs 2) c₂ (syncLimit cfg c₂)) ·)) = 2 ∧
      min (subsetArgs cfg (.atMs 2) c₂ (syncLimit cfg c₂)).stickyBudget
          ((previousNodes [buildOf .plain cfg (.atMs 1) c₀]).countP
            (!isPreferred (subsetArgs cfg (.atMs 2) c₂ (syncLimit cfg c₂)) ·)) ≤
        (previousNodes [buildOf .plain cfg (.atMs 1) c₀]).countP fun nid =>
          !isPreferred (subsetArgs cfg (.atMs 2) c₂ (syncLimit cfg c₂)) nid &&
            (buildSyncVector .plain cfg (.atMs 2) c₂).2.has nid := by
  intro cfg known c₀ c₁ c₂
  have hknown : Grows (init cfg 0) c₀ := grows_init cfg 0 known
  have hjoin : Grows c₁ c₂ := by
    refine ⟨?_, rfl, rfl⟩
    intro nid hn
    rw [vv_buildSyncVector] at hn
    exact (has_set _ _ _ _ _).mpr (Or.inr ((has_set _ _ _ _ _).mpr (Or.inr hn)))
  have hrun : BuildRun .plain cfg c₂ [buildOf .plain cfg (.atMs 1) c₀] :=
    .grow (.build (.atMs 1) (.grow (.init 0) hknown)) hjoin
  refine ⟨?_, by decide +kernel, ?_⟩
  · exact (recent_keeps_newest .plain).1 c₂.vv _ (Or.inl rfl) (by decide) (by decide)
  · exact (recent_keeps_newest .plain).2 cfg c₂ _ (.atMs 2) hrun rfl (by decide +kernel)

end Core

end Svs
