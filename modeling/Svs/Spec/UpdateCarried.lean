import Svs.Spec.ScoreCoverage
import Svs.Spec.StepCorrect

/-!
# The vector after a local update

No strategy is told which entry an update raised.  The entry of the node itself has a
slot of its own, and the strategies that go by recency come to the newest entry first.

## Key results

- `has_selectSubset_newest`: the strategies that select the newest entry
- `update_carried`: when the vector after an update contains the updated entry
-/

namespace Svs

open VersionVector

/-! ## The newest entry -/

/-- No other entry of the vector was updated at the same time or later. -/
structure Newest (vv : VersionVector) (nid : NodeID) : Prop where
  has : vv.has nid = true
  later : ∀ nid', vv.has nid' = true → nid' ≠ nid → vv.getLastUpdate nid' < vv.getLastUpdate nid

section

variable {P : Platform} {vv : VersionVector} {a : SubsetArgs} {nid : NodeID} {sel : VersionVector}

/-- What `recentFirst` compares, most significant part first. -/
theorem recentFirst_iff (vv : VersionVector) (lhs rhs : NodeID) :
    recentFirst vv lhs rhs = true ↔
      (toLex (-vv.getLastUpdate lhs, lhs) : ℤ ×ₗ Name) < toLex (-vv.getLastUpdate rhs, rhs) := by
  rw [Prod.Lex.toLex_lt_toLex, recentFirst]
  split
  · next heq => simp [heq]
  · next hne =>
    have hne' : -vv.getLastUpdate lhs ≠ -vv.getLastUpdate rhs := fun h => hne (neg_inj.mp h)
    simp only [hne', false_and, or_false, neg_lt_neg_iff, decide_eq_true_eq, gt_iff_lt]

/-- A sort by recency starts with the newest entry, if the list has it. -/
theorem sortBy_recentFirst_newest {l : List NodeID} (h : Newest vv nid)
    (hl : ∀ n ∈ l, vv.has n = true) (hmem : nid ∈ l) :
    ∃ rest, sortBy (recentFirst vv) l = nid :: rest := by
  have hperm := sortBy_perm (recentFirst vv) l
  have hsorted := sortBy_pairwise (fun n => (toLex (-vv.getLastUpdate n, n) : ℤ ×ₗ Name))
    (recentFirst_iff vv) l
  cases hsort : sortBy (recentFirst vv) l with
  | nil =>
    rw [hsort] at hperm
    exact absurd (hperm.mem_iff.mpr hmem) List.not_mem_nil
  | cons head rest =>
    rw [hsort] at hperm hsorted
    by_cases heq : head = nid
    · exact ⟨rest, by rw [heq]⟩
    · -- the newest entry would come after an older one
      have hrest : nid ∈ rest := by
        rcases List.mem_cons.mp (hperm.mem_iff.mpr hmem) with rfl | hrest
        · exact absurd rfl heq
        · exact hrest
      have hle := (List.pairwise_cons.mp hsorted).1 nid hrest
      have hlater := h.later head (hl head (hperm.mem_iff.mp List.mem_cons_self)) heq
      rcases Prod.Lex.toLex_le_toLex.mp hle with hlt | ⟨heq', -⟩
      · exact absurd (neg_lt_neg_iff.mp hlt) hlater.not_gt
      · exact absurd (neg_inj.mp heq') hlater.ne

theorem recentNodes_newest (h : Newest vv nid) : ∃ rest, recentNodes vv = nid :: rest :=
  sortBy_recentFirst_newest h (fun n hn => (mem_nodes vv n).mp hn) ((mem_nodes vv nid).mpr h.has)

theorem noveltyNodes_newest (h : Newest vv nid) (hbase : nid ∉ a.noveltyBaseEntries) :
    ∃ rest, noveltyNodes vv a = nid :: rest := by
  apply sortBy_recentFirst_newest h
  · intro n hn
    exact (mem_nodes vv n).mp (List.mem_of_mem_filter hn)
  · exact List.mem_filter.mpr ⟨(mem_nodes vv nid).mpr h.has, by simpa using hbase⟩

/-! ## Phases -/

/-- The phase succeeds, extends `selected`, and the node is selected after it. -/
def Picks (vv : VersionVector) (a : SubsetArgs) (nid : NodeID) (sel : VersionVector)
    (r : Option VersionVector) : Prop :=
  ∃ sel', r = some sel' ∧ Extends vv a sel sel' ∧ sel'.has nid = true

/-- What a phase has picked, the phases after it keep. -/
theorem Picks.bind {r : Option VersionVector} {f : VersionVector → Option VersionVector}
    (hr : Picks vv a nid sel r)
    (hf : ∀ s, SubVector vv s → s.size ≤ a.maxEntries → Selects vv a s (f s)) :
    Picks vv a nid sel (r >>= f) := by
  obtain ⟨s, rfl, hext, hhas⟩ := hr
  obtain ⟨s', hs', hext'⟩ := hf s hext.sub hext.size_le
  exact ⟨s', hs', hext.trans hext', hext'.mono nid hhas⟩

theorem Fills.selects {r : Option VersionVector} (h : Fills vv a sel r) : Selects vv a sel r := by
  obtain ⟨s, hs, hext, -⟩ := h
  exact ⟨s, hs, hext⟩

/-- A walk with room and budget picks the node it starts with. -/
theorem picks_addEntries (hsub : SubVector vv sel) (hroom : sel.size < a.maxEntries)
    (hn : vv.has nid = true) {l rest : List NodeID} (hl : l = nid :: rest) {budget : Nat}
    (hbudget : 0 < budget) : Picks vv a nid sel (some (addEntries vv a l budget sel)) := by
  subst hl
  have hstep := Extends.addEntry nid hsub hroom
  have hrest := Extends.addEntries rest (if vv.has nid && !sel.has nid then budget - 1 else budget)
    hstep.sub hstep.size_le
  refine ⟨_, rfl, .addEntries _ _ hsub (by omega), ?_⟩
  rw [addEntries_cons, if_neg (by simp; omega)]
  exact hrest.mono nid ((has_addEntry vv nid sel nid).mpr (.inr ⟨rfl, hn⟩))

/-- A walk adds no more entries than its budget. -/
theorem size_addEntries_le (vv : VersionVector) (a : SubsetArgs) (l : List NodeID) (budget : Nat)
    (sel : VersionVector) : (addEntries vv a l budget sel).size ≤ sel.size + budget := by
  induction l generalizing budget sel with
  | nil => exact Nat.le_add_right _ _
  | cons nid rest ih =>
    rw [addEntries_cons]
    split
    · exact Nat.le_add_right _ _
    · next hgo =>
      simp only [Bool.or_eq_true, decide_eq_true_eq, beq_iff_eq, not_or] at hgo
      apply (ih _ _).trans
      rw [size_addEntry]
      -- an entry that is added takes one of the budget
      cases vv.has nid && !sel.has nid with
      | true =>
        simp only [if_true]
        omega
      | false => rfl

/-- A walk from the most recent node on picks the newest entry. -/
theorem picks_addRecentEntries (h : Newest vv nid) (hsub : SubVector vv sel)
    (hroom : sel.size < a.maxEntries) {budget : Nat} (hbudget : 0 < budget) :
    Picks vv a nid sel (some (addRecentEntries vv a budget sel)) := by
  obtain ⟨rest, hrecent⟩ := recentNodes_newest h
  exact picks_addEntries hsub hroom h.has hrecent hbudget

/-- One node for each new cluster: the newest entry is the first of its cluster. -/
theorem picks_addClusterRecentEntries (h : Newest vv nid) (hsub : SubVector vv sel)
    (hroom : sel.size < a.maxEntries) {budget : Nat} (hbudget : 0 < budget)
    (hcluster : clusterKey P nid ∉ sel.nodes.map (clusterKey P)) :
    Picks vv a nid sel (some (addClusterRecentEntries P vv a budget sel)) := by
  obtain ⟨_, hsome, hext⟩ := selects_addClusterRecentEntries hsub hroom.le
  refine ⟨_, hsome, hext, ?_⟩
  obtain ⟨rest, hrecent⟩ := recentNodes_newest h
  -- a selected entry would have its cluster among those that have been seen
  have hnew : sel.has nid = false := by
    rw [← Bool.not_eq_true, ← mem_nodes]
    exact fun hmem => hcluster (List.mem_map_of_mem hmem)
  have hstep := Extends.addEntry nid hsub hroom
  have hpicked := (has_addEntry vv nid sel nid).mpr (.inr ⟨rfl, h.has⟩)
  rw [← Option.some.inj hsome, addClusterRecentEntries, if_neg (by omega), hrecent,
    addUnseenClusters, if_neg (by simp; omega), if_neg hcluster]
  rw [addEntry_of_new h.has hnew] at hstep hpicked ⊢
  have hunseen := extends_addUnseenClusters P rest hstep.sub hstep.size_le
    (clusterKey P nid :: sel.nodes.map (clusterKey P)) (budget - 1)
  dsimp only at hunseen hpicked ⊢
  split
  · exact (Extends.addEntries _ _ hunseen.sub hunseen.size_le).mono nid (hunseen.mono nid hpicked)
  · exact hunseen.mono nid hpicked

/-! ## Strategies -/

/-- The strategy selects the newest entry, whatever else the vector holds.  `StickyRecent`
    needs a slot next to the sticky entries, the quota strategies one next to the quota,
    `ClusterHybrid` a cluster other than that of the preferred node; `RoundRobin` and
    `Random` come to the entry early enough. -/
def SelectsNewest (P : Platform) (vv : VersionVector) (a : SubsetArgs) (nid : NodeID) : Prop :=
  match a.strategy with
  | .Recent | .AdaptiveRecentScore => True
  | .StickyRecent => (selectPreferred vv a).size + a.stickyBudget < a.maxEntries
  | .RecentNoveltyQuota =>
    (selectPreferred vv a).size + a.noveltyBudget < a.maxEntries ∨ nid ∉ a.noveltyBaseEntries
  | .RecentRandomQuota => (selectPreferred vv a).size + a.noveltyBudget < a.maxEntries
  -- the sum with the number of selected entries must not wrap around
  | .Hybrid => a.recentEntries < 2 ^ 64 - 1
  | .ClusterHybrid => clusterKey P nid ∉ (selectPreferred vv a).nodes.map (clusterKey P)
  | .RoundRobin =>
    (roundRobinNodes vv a).idxOf nid < a.maxEntries - (selectPreferred vv a).size
  | .Random => (shuffledNodes P vv a).idxOf nid < a.maxEntries - (selectPreferred vv a).size
  | .Score | .AgeScore | .DeficitScore | .ClusterScore | .Full => False

section

variable (h : Newest vv nid) (hsub : SubVector vv sel) (hroom : sel.size < a.maxEntries)
include h hsub hroom

/-- Next to the sticky entries there is a slot for the newest one. -/
theorem picks_afterSticky (hsticky : sel.size + a.stickyBudget < a.maxEntries)
    {budget : VersionVector → Nat} (hbudget : ∀ s, s.size < a.maxEntries → 0 < budget s) :
    Picks vv a nid sel (some (addStickyEntries vv a (min a.stickyBudget (a.maxEntries - sel.size)) sel) >>=
      fun s => some (addRecentEntries vv a (budget s) s)) := by
  have hext : Extends vv a sel
      (addStickyEntries vv a (min a.stickyBudget (a.maxEntries - sel.size)) sel) :=
    .addEntries _ _ hsub hroom.le
  have hsize : (addStickyEntries vv a (min a.stickyBudget (a.maxEntries - sel.size)) sel).size <
      a.maxEntries := by
    have hle := size_addEntries_le vv a a.stickyEntries
      (min a.stickyBudget (a.maxEntries - sel.size)) sel
    have hmin := min_le_left a.stickyBudget (a.maxEntries - sel.size)
    exact lt_of_le_of_lt (hle.trans (Nat.add_le_add_left hmin _)) hsticky
  obtain ⟨s, hs, hext', hhas⟩ := picks_addRecentEntries h hext.sub hsize (hbudget _ hsize)
  exact ⟨s, hs, hext.trans hext', hhas⟩

theorem picks_selectRecent (hsticky : sel.size + a.stickyBudget < a.maxEntries) :
    Picks vv a nid sel (selectRecent vv a sel) := by
  rw [selectRecent, sizeSub_eq_some hroom.le]
  exact picks_afterSticky h hsub hroom hsticky fun _ _ => Nat.zero_lt_of_lt hroom

/-- A walk over all nodes picks those it meets while there is room. -/
theorem picks_walk {l : List NodeID} (hl : l.Perm vv.nodes) {budget : Nat}
    (hbudget : a.maxEntries ≤ budget) (hidx : l.idxOf nid < a.maxEntries - sel.size) :
    Picks vv a nid sel (some (addEntries vv a l budget sel)) := by
  refine ⟨_, rfl, .addEntries _ _ hsub hroom.le, ?_⟩
  cases hsel : sel.has nid with
  | true => exact has_addEntries_of_has hl hsel
  | false =>
    apply (has_addEntries_iff hl h.has hsel).mpr
    have hle := unselectedBefore_le_idxOf l sel nid
    omega

variable (hbig : a.maxEntries < vv.size)
include hbig

theorem picks_selectStickyRecent (hsticky : sel.size + a.stickyBudget < a.maxEntries) :
    Picks vv a nid sel (selectStickyRecent vv a sel) := by
  have hsel : selectStickyRecent vv a sel =
      (some (addStickyEntries vv a (min a.stickyBudget (a.maxEntries - sel.size)) sel) >>=
        fun s => some (addRecentEntries vv a (a.maxEntries - s.size) s)) >>=
          fillRoundRobin vv a := by
    have hext : Extends vv a sel
        (addStickyEntries vv a (min a.stickyBudget (a.maxEntries - sel.size)) sel) :=
      .addEntries _ _ hsub hroom.le
    simp only [selectStickyRecent, sizeSub_eq_some hroom.le, Option.bind_eq_bind, Option.bind_some,
      sizeSub_eq_some hext.size_le]
  rw [hsel]
  apply (picks_afterSticky h hsub hroom hsticky fun _ hs => by omega).bind
  intro s hs hle
  exact (fills_fillRoundRobin hs hle hbig).selects

/-- A quota that leaves a slot leaves it to the newest entry; else the quota has to pick it. -/
theorem picks_selectQuota {addQuota : Nat → VersionVector → VersionVector}
    (hadd : ∀ budget s, SubVector vv s → s.size ≤ a.maxEntries →
      Selects vv a s (some (addQuota budget s)))
    (hquota : sel.size + a.noveltyBudget < a.maxEntries ∨
      ∀ budget, 0 < budget → Picks vv a nid sel (some (addQuota budget sel))) :
    Picks vv a nid sel (selectQuota vv a addQuota sel) := by
  have hlast : ∀ s, SubVector vv s → s.size ≤ a.maxEntries →
      Selects vv a s (addIntoRoom a (fun room s => some (addRecentEntries vv a room s)) s >>=
        fillRoundRobin vv a) := fun s hs hle =>
    (fills_lastPhases hs hle (fun _ => selects_addEntries hs hle) hbig).selects
  rw [selectQuota, sizeSub_eq_some hroom.le, Option.bind_eq_bind, Option.bind_some]
  dsimp only
  by_cases hslot : a.maxEntries > sel.size + min a.noveltyBudget (a.maxEntries - sel.size)
  · -- the quota leaves a slot
    rw [recentBudget, sizeSub_eq_some hroom.le, Option.bind_eq_bind, Option.bind_some, if_pos hslot,
      sizeSub_eq_some (by omega), Option.bind_some, addIfAny, if_pos (by omega)]
    apply (picks_addRecentEntries h hsub hroom (by omega)).bind
    intro s hs hle
    apply (selects_spendQuota hs hle (fun _ => hadd _ s hs hle) _).bind
    exact hlast
  · -- the quota is all there is
    rw [recentBudget, sizeSub_eq_some hroom.le, Option.bind_eq_bind, Option.bind_some, if_neg hslot,
      Option.bind_some, addIfAny, if_neg (by omega), Option.bind_eq_bind, Option.bind_some, spendQuota,
      if_pos (by omega), sizeSub_eq_some hroom.le]
    -- and then it comes to the newest entry itself
    have hpick := hquota.resolve_left (by omega)
    exact (hpick _ (by omega)).bind hlast

theorem picks_selectHybrid (hentries : a.recentEntries < 2 ^ 64 - 1) (hone : sel.size ≤ 1) :
    Picks vv a nid sel (selectHybrid vv a sel) := by
  obtain ⟨reserve, hreserve, hle⟩ := fairnessReserve_eq_some a
  obtain ⟨share, hshare⟩ := Option.isSome_iff_exists.mp (hotShare_isSome hle)
  rw [selectHybrid, hreserve, Option.bind_eq_bind, Option.bind_some, hotTarget, hshare,
    Option.bind_eq_bind, Option.bind_some]
  -- the recent entries come on top of the preferred one
  have htarget : sel.size < max (max share sel.size)
      (min a.maxEntries (sizeAdd sel.size (max 1 a.recentEntries))) := by
    have hadd : sizeAdd sel.size (max 1 a.recentEntries) = sel.size + max 1 a.recentEntries :=
      Nat.mod_eq_of_lt (by omega)
    rw [hadd]
    omega
  rw [Option.pure_def, Option.bind_some, addHotEntries, if_pos htarget, sizeSub_eq_some htarget.le]
  apply (picks_addRecentEntries h hsub hroom (Nat.sub_pos_of_lt htarget)).bind
  intro s hs hle'
  exact (fills_reservePhases hs hle' reserve (fun _ _ hs hs' => selects_addEntries hs hs') hbig).selects

theorem picks_selectClusterHybrid (hcluster : clusterKey P nid ∉ sel.nodes.map (clusterKey P)) :
    Picks vv a nid sel (selectClusterHybrid P vv a sel) := by
  obtain ⟨reserve, hreserve, -⟩ := fairnessReserve_eq_some a
  obtain ⟨budget, hbudget⟩ :=
    Option.isSome_iff_exists.mp (reservedBudget_isSome (a := a) hroom.le reserve)
  rw [selectClusterHybrid, hreserve, Option.bind_eq_bind, Option.bind_some, hbudget,
    Option.bind_some]
  have hpos : 0 < max budget (min a.maxEntries (if a.recentEntries > 0 then a.recentEntries else 1)) := by
    split <;> omega
  dsimp only
  rw [addIfAny, if_pos hpos]
  apply (picks_addClusterRecentEntries h hsub hroom hpos hcluster).bind
  intro s hs hle
  exact (fills_reservePhases hs hle reserve
    (fun _ _ hs hs' => selects_addClusterRecentEntries hs hs') hbig).selects

end

/-- The strategies that select the newest entry. -/
theorem has_selectSubset_newest (hlow : 2 ≤ a.maxEntries) (hbig : a.maxEntries < vv.size)
    (h : Newest vv nid) (hsticky : a.strategy = .Recent → a.stickyBudget = 0)
    (hselects : SelectsNewest P vv a nid) : (selectSubset P vv a).has nid = true := by
  have hone := size_selectPreferred_le vv a
  have hsub := subVector_selectPreferred vv a
  have hroom : (selectPreferred vv a).size < a.maxEntries := by omega
  have hpicks : Picks vv a nid (selectPreferred vv a)
      (selectByStrategy P vv a (selectPreferred vv a)) := by
    unfold SelectsNewest at hselects
    unfold selectByStrategy
    cases hstrategy : a.strategy with
    | Recent =>
      rw [hstrategy] at hsticky
      exact picks_selectRecent h hsub hroom (by rw [hsticky rfl]; exact hroom)
    | StickyRecent =>
      rw [hstrategy] at hselects
      exact picks_selectStickyRecent h hsub hroom hbig hselects
    | RecentNoveltyQuota =>
      rw [hstrategy] at hselects
      apply picks_selectQuota h hsub hroom hbig fun _ _ hs hs' => selects_addEntries hs hs'
      apply hselects.imp_right
      intro hbase budget hbudget
      obtain ⟨rest, hnovelty⟩ := noveltyNodes_newest h hbase
      exact picks_addEntries hsub hroom h.has hnovelty hbudget
    | RecentRandomQuota =>
      rw [hstrategy] at hselects
      exact picks_selectQuota h hsub hroom hbig (fun _ _ hs hs' => selects_addEntries hs hs')
        (.inl hselects)
    | AdaptiveRecentScore => exact picks_addRecentEntries h hsub hroom (by omega)
    | Random =>
      rw [hstrategy] at hselects
      dsimp only
      rw [addUntilFull_eq]
      have hlen := (shuffledNodes_perm P vv a).length_eq
      rw [length_nodes] at hlen
      exact picks_walk h hsub hroom (shuffledNodes_perm P vv a) (by omega) hselects
    | RoundRobin =>
      rw [hstrategy] at hselects
      exact picks_walk h hsub hroom (roundRobinNodes_perm vv a) le_rfl hselects
    | Hybrid =>
      rw [hstrategy] at hselects
      exact picks_selectHybrid h hsub hroom hbig hselects hone
    | ClusterHybrid =>
      rw [hstrategy] at hselects
      exact picks_selectClusterHybrid h hsub hroom hbig hselects
    | Score | AgeScore | DeficitScore | ClusterScore | Full =>
      rw [hstrategy] at hselects
      exact hselects.elim
  have hfull : a.strategy ≠ .Full := by
    intro hstrategy
    rw [SelectsNewest, hstrategy] at hselects
    exact hselects
  obtain ⟨s, hs, -, hhas⟩ := hpicks
  have hsome := selectSubset?_eq_some P vv a
  rw [selectSubset?, if_neg (by omega), if_neg (by simp [hfull]; omega), hs] at hsome
  rwa [← Option.some.inj hsome]

end

namespace Core

/-! ## After an update -/

/-- The next vector is bound to contain the entry of a node: it is the entry of the node
    itself, everything is sent, or the strategy selects the entry as the newest one. -/
def Carries (P : Platform) (cfg : Config) (m : Moment) (c : Core) (nid : NodeID) : Prop :=
  (nid = cfg.id ∧ cfg.id.isEmpty = false) ∨ syncLimit cfg c = c.vv.size ∨
    (Newest c.vv nid ∧ SelectsNewest P c.vv (subsetArgs cfg m c (syncLimit cfg c)) nid)

theorem stickyBudget_subsetArgs (cfg : Config) (m : Moment) (c : Core) (limit : Nat)
    (h : (subsetArgs cfg m c limit).strategy = .Recent) :
    (subsetArgs cfg m c limit).stickyBudget = 0 := by
  have hne : cfg.stateVectorStrategy ≠ .StickyRecent := by
    intro hsticky
    simp [subsetArgs, effectiveStrategy, hsticky] at h
  simp [subsetArgs, hne]

/-- After an update, as long as the vector stays as it is, the next one that is built
    contains the updated entry where it is bound to. -/
theorem update_carried {P : Platform} {cfg : Config} {m m' : Moment} {c c' : Core} {seq : SeqNo}
    {nid : NodeID} (hvv : c'.vv = (updateSeqNo cfg m seq nid c).vv) (hlow : 2 ≤ syncLimit cfg c')
    (hcarries : Carries P cfg m' c' (targetNode cfg nid)) :
    (buildSyncVector P cfg m' c').2.map[targetNode cfg nid]? = some seq := by
  have hset : c'.vv.map[targetNode cfg nid]? = some seq := by
    rw [hvv, (updateSeqNo_frame cfg m seq nid).1, VersionVector.set,
      Std.ExtTreeMap.getElem?_insert', if_pos rfl]
  have hentry : c'.vv.has (targetNode cfg nid) = true := (has_iff _ _).mpr ⟨seq, hset⟩
  have hhas : (buildSyncVector P cfg m' c').2.has (targetNode cfg nid) = true := by
    rcases hcarries with ⟨hown, hid⟩ | hall | ⟨hnewest, hselects⟩
    · -- the preferred node of every strategy
      rw [hown] at hentry ⊢
      exact has_buildSyncVector_own P m' (by omega) hid hentry
    · rw [buildSyncVector_snd, if_pos hall]
      exact hentry
    · rw [buildSyncVector_snd]
      split
      · exact hentry
      · next hpart =>
        have hlt : syncLimit cfg c' < c'.vv.size :=
          lt_of_le_of_ne (syncLimit_le_size cfg c') hpart
        exact has_selectSubset_newest hlow hlt hnewest
          (stickyBudget_subsetArgs cfg m' c' (syncLimit cfg c')) hselects
  obtain ⟨s, hs⟩ := (has_iff _ _).mp hhas
  have hsame := (subVector_buildSyncVector P cfg m' c').entry _ s hs
  rw [hs, ← hsame, hset]

/-- Node `a` with two entries in each vector. -/
def shortVectors (strategy : SubsetStrategy) : Config :=
  { id := .ofBytes [[97]], stateVectorStrategy := strategy, maxStateVectorEntries := 2 }

/-- A run in which node `a` hears of `b` and `c`, and publishes. -/
def threeNodes (strategy : SubsetStrategy) : Core × List VersionVector :=
  run .plain (shortVectors strategy)
    [(.atMs 1, .syncInterest ((VersionVector.empty.set (.ofBytes [[98]]) 1 0).set
        (.ofBytes [[99]]) 1 0).wire 0),
      (.atMs 2, .updateSeqNo 1 EMPTY_NODE_ID)]
    (init (shortVectors strategy) 0, [])

/-- A publication under the prefix `d` is left out of the next vector by `RoundRobin`. -/
theorem not_update_carried :
    ¬∀ (P : Platform) (cfg : Config) (c : Core) (log : List VersionVector) (m m' : Moment)
      (seq : SeqNo) (nid : NodeID), Reachable P cfg c log →
      2 ≤ syncLimit cfg (updateSeqNo cfg m seq nid c) → getSeqNo cfg nid c < seq →
      (buildSyncVector P cfg m' (updateSeqNo cfg m seq nid c)).2.map[targetNode cfg nid]? =
        some seq := by
  intro h
  have hbuilt := h .plain (shortVectors .RoundRobin) (threeNodes .RoundRobin).1
    (threeNodes .RoundRobin).2 (.atMs 3) (.atMs 4) 1 (.ofBytes [[100]]) ((Reachable.init 0).run _)
    (by decide +kernel) (by decide +kernel)
  have hhas := (has_iff _ _).mpr ⟨_, hbuilt⟩
  exact absurd hhas (by decide +kernel)

/-- The state after that publication. -/
def fourNodes (strategy : SubsetStrategy) : Core :=
  updateSeqNo (shortVectors strategy) (.atMs 3) 1 (.ofBytes [[100]]) (threeNodes strategy).1

/-- `Hybrid` sends it. -/
theorem update_carried_hybrid :
    (buildSyncVector .plain (shortVectors .Hybrid) (.atMs 4) (fourNodes .Hybrid)).2.map[
      targetNode (shortVectors .Hybrid) (.ofBytes [[100]])]? = some 1 := by
  have hentries : (shortVectors .Hybrid).recentStateVectorEntries < 2 ^ 64 - 1 := by decide
  refine update_carried rfl (by decide +kernel)
    (.inr (.inr ⟨⟨by decide +kernel, ?_⟩, hentries⟩))
  have hlater : ∀ n ∈ (fourNodes .Hybrid).vv.nodes,
      n ≠ targetNode (shortVectors .Hybrid) (.ofBytes [[100]]) →
      (fourNodes .Hybrid).vv.getLastUpdate n < (fourNodes .Hybrid).vv.getLastUpdate
        (targetNode (shortVectors .Hybrid) (.ofBytes [[100]])) := by
    decide +kernel
  intro nid' hnid' hne
  exact hlater nid' ((mem_nodes _ _).mpr hnid') hne

end Core

end Svs
