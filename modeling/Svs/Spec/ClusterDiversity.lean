import Svs.Spec.FairReserve

/-!
# The clusters of a `ClusterHybrid` selection

`addUnseenClusters` adds one node for each cluster that is not yet selected, so each
slot it takes is a new cluster.  Its budget is all that the preferred node and the
reserve leave, and the phases after it only add.

## Key results

- `card_addUnseenClusters`: every slot that the walk takes is a new cluster
- `cluster_diversity`: how many clusters a selection has at least
-/

namespace Svs

open VersionVector

/-- The clusters of the nodes of a vector. -/
def clusters (P : Platform) (vv : VersionVector) : Finset (List Char) :=
  (vv.nodes.map (clusterKey P)).toFinset

/-- The slots that `ClusterHybrid` reserves. -/
def clusterReserve (a : SubsetArgs) : Nat := if a.maxEntries < 4 then 0 else fairReserve a

section

variable {P : Platform} {vv : VersionVector} {a : SubsetArgs} {sel : VersionVector}
  {l : List NodeID} {budget : Nat}

theorem mem_clusters {key : List Char} :
    key ∈ clusters P vv ↔ ∃ nid, vv.has nid = true ∧ clusterKey P nid = key := by
  simp only [clusters, List.mem_toFinset, List.mem_map, mem_nodes]

theorem Extends.clusters_subset {sel' : VersionVector} (h : Extends vv a sel sel') :
    clusters P sel ⊆ clusters P sel' := by
  intro key hkey
  obtain ⟨nid, hn, rfl⟩ := mem_clusters.mp hkey
  exact mem_clusters.mpr ⟨nid, h.mono nid hn, rfl⟩

/-- A vector with at most one node has as many clusters as nodes. -/
theorem card_clusters_of_size_le_one (h : sel.size ≤ 1) : (clusters P sel).card = sel.size := by
  rw [clusters, ← length_nodes]
  rw [← length_nodes] at h
  cases hnodes : sel.nodes with
  | nil => rfl
  | cons nid rest =>
    rw [hnodes, List.length_cons] at h
    obtain rfl : rest = [] := List.length_eq_zero_iff.mp (by omega)
    rfl

/-- An entry of a new cluster adds that cluster. -/
theorem clusters_addEntry {nid : NodeID} (hn : vv.has nid = true) :
    clusters P (addEntry vv nid sel).1 = insert (clusterKey P nid) (clusters P sel) := by
  ext key
  rw [Finset.mem_insert, mem_clusters, mem_clusters]
  simp only [has_addEntry]
  constructor
  · intro h
    obtain ⟨n, hsel | ⟨rfl, -⟩, rfl⟩ := h
    · exact Or.inr ⟨n, hsel, rfl⟩
    · exact Or.inl rfl
  · intro h
    rcases h with rfl | ⟨n, hsel, rfl⟩
    · exact ⟨nid, Or.inr ⟨rfl, hn⟩, rfl⟩
    · exact ⟨n, Or.inl hsel, rfl⟩

variable (a budget) in
/-- An entry of a new cluster is always added, and takes one of the budget. -/
theorem addUnseenClusters_cons_of_new (seen : List (List Char)) {nid : NodeID}
    (hn : vv.has nid = true) (hroom : sel.size < a.maxEntries) (hbudget : budget ≠ 0)
    (hseen : clusterKey P nid ∉ seen) (hkey : clusterKey P nid ∉ clusters P sel) :
    addUnseenClusters P vv a (nid :: l) seen budget sel =
      addUnseenClusters P vv a l (clusterKey P nid :: seen) (budget - 1)
        (addEntry vv nid sel).1 := by
  have hunselected : sel.has nid = false := by
    rw [← Bool.not_eq_true]
    exact fun h => hkey (mem_clusters.mpr ⟨nid, h, rfl⟩)
  rw [addUnseenClusters, if_neg (by simp [hbudget, hroom]), if_neg hseen,
    addEntry_of_new hn hunselected]

variable (a budget) in
/-- Every slot that the walk over new clusters takes is a new cluster, and it stops only
    without budget, without room, or when it has met all clusters of its list. -/
theorem card_addUnseenClusters (seen : List (List Char)) (hl : ∀ nid ∈ l, vv.has nid = true)
    (hseen : seen.toFinset = clusters P sel) :
    (clusters P (addUnseenClusters P vv a l seen budget sel).1).card +
        (addUnseenClusters P vv a l seen budget sel).2 = (clusters P sel).card + budget ∧
      ((addUnseenClusters P vv a l seen budget sel).2 = 0 ∨
        a.maxEntries ≤ (addUnseenClusters P vv a l seen budget sel).1.size ∨
        ∀ nid ∈ l, clusterKey P nid ∈ clusters P (addUnseenClusters P vv a l seen budget sel).1) ∧
      clusters P sel ⊆ clusters P (addUnseenClusters P vv a l seen budget sel).1 := by
  induction l generalizing seen budget sel with
  | nil => exact ⟨rfl, Or.inr (Or.inr fun nid hn => by cases hn), Finset.Subset.refl _⟩
  | cons nid rest ih =>
    have hn : vv.has nid = true := hl nid List.mem_cons_self
    have hrest : ∀ n ∈ rest, vv.has n = true := fun n h => hl n (List.mem_cons_of_mem nid h)
    have hmem : clusterKey P nid ∈ seen ↔ clusterKey P nid ∈ clusters P sel := by
      rw [← hseen, List.mem_toFinset]
    by_cases hfull : a.maxEntries ≤ sel.size
    · rw [addUnseenClusters, if_pos (by simp [hfull])]
      exact ⟨rfl, Or.inr (Or.inl hfull), Finset.Subset.refl _⟩
    by_cases hzero : budget = 0
    · rw [addUnseenClusters, if_pos (by simp [hzero])]
      exact ⟨rfl, Or.inl hzero, Finset.Subset.refl _⟩
    -- in either case the cluster of this node is selected before the rest is walked
    by_cases hold : clusterKey P nid ∈ seen
    · rw [addUnseenClusters, if_neg (by simp [hfull, hzero]), if_pos hold]
      obtain ⟨hcard, hstop, hmono⟩ := ih budget seen hrest hseen
      refine ⟨hcard, ?_, hmono⟩
      rw [List.forall_mem_cons, and_iff_right (hmono (hmem.mp hold))]
      exact hstop
    · have hkey := mt hmem.mpr hold
      have hclusters : clusters P (addEntry vv nid sel).1 =
          insert (clusterKey P nid) (clusters P sel) := clusters_addEntry hn
      rw [addUnseenClusters_cons_of_new a budget seen hn (by omega) hzero hold hkey]
      obtain ⟨hcard, hstop, hmono⟩ := ih (budget - 1) (clusterKey P nid :: seen) hrest
        (by rw [List.toFinset_cons, hseen, hclusters])
      rw [hclusters, Finset.card_insert_of_notMem hkey] at hcard
      rw [hclusters] at hmono
      refine ⟨by omega, ?_, fun k hk => hmono (Finset.mem_insert_of_mem hk)⟩
      rw [List.forall_mem_cons, and_iff_right (hmono (Finset.mem_insert_self _ _))]
      exact hstop

/-- The first phase from at most one entry: all clusters, or one for each slot that its
    budget allows. -/
theorem min_le_card_addClusterRecentEntries (hsub : SubVector vv sel) (hone : sel.size ≤ 1)
    (hsize : sel.size ≤ a.maxEntries) :
    min (clusters P vv).card (min a.maxEntries (sel.size + budget)) ≤
      (clusters P (addClusterRecentEntries P vv a budget sel)).card := by
  have hstart : (clusters P sel).card = sel.size := card_clusters_of_size_le_one hone
  rw [addClusterRecentEntries]
  split
  · omega
  · have hrecent : ∀ nid ∈ recentNodes vv, vv.has nid = true := fun nid hn =>
      (mem_nodes vv nid).mp ((recentNodes_perm vv).mem_iff.mp hn)
    have hseen : (sel.nodes.map (clusterKey P)).toFinset = clusters P sel := rfl
    obtain ⟨hcard, hstop, -⟩ := card_addUnseenClusters a budget _ hrecent hseen
    have hleft := size_addUnseenClusters P vv a (recentNodes vv) (sel.nodes.map (clusterKey P))
      budget sel
    have hext := extends_addUnseenClusters P (recentNodes vv) hsub hsize
      (sel.nodes.map (clusterKey P)) budget
    have hwalk : min (clusters P vv).card (min a.maxEntries (sel.size + budget)) ≤
        (clusters P (addUnseenClusters P vv a (recentNodes vv) (sel.nodes.map (clusterKey P))
          budget sel).1).card := by
      rcases hstop with hzero | hfull | hall
      · omega
      · -- no room: every selected node has a cluster of its own
        omega
      · refine (min_le_left _ _).trans (Finset.card_le_card ?_)
        intro key hkey
        obtain ⟨nid, hn, rfl⟩ := mem_clusters.mp hkey
        exact hall nid ((recentNodes_perm vv).mem_iff.mpr ((mem_nodes vv nid).mpr hn))
    split
    next s b hs =>
    rw [hs] at hwalk hext
    split
    · -- what is left of the budget only adds nodes
      have hmore : Extends vv a s (addRecentEntries vv a b s) := .addEntries _ _ hext.sub hext.size_le
      exact hwalk.trans (Finset.card_le_card hmore.clusters_subset)
    · exact hwalk

theorem fairnessReserve_clusterReserve (a : SubsetArgs) :
    fairnessReserve a = some (clusterReserve a) := by
  unfold clusterReserve
  split
  · next hlow => rw [fairnessReserve, if_neg (by omega)]
  · next hhigh => exact fairnessReserve_eq (by omega)

/-- A `ClusterHybrid` selection has at least as many clusters as the slots outside the
    reserve, or as the vector. -/
theorem cluster_diversity (P : Platform) (hstrategy : a.strategy = .ClusterHybrid)
    (hpos : 1 ≤ a.maxEntries) (hbig : a.maxEntries < vv.size) :
    min (clusters P vv).card (a.maxEntries - clusterReserve a) ≤
      (clusters P (selectSubset P vv a)).card := by
  have hsub := subVector_selectPreferred vv a
  have hone := size_selectPreferred_le vv a
  have hsize : (selectPreferred vv a).size ≤ a.maxEntries := by omega
  have hreserve : clusterReserve a ≤ a.maxEntries - 1 := by
    unfold clusterReserve fairReserve
    split <;> omega
  have hsome := selectSubset?_eq_some P vv a
  rw [selectSubset?, if_neg (by omega), if_neg (by simp [hstrategy]; omega), selectByStrategy,
    hstrategy] at hsome
  simp only [selectClusterHybrid, fairnessReserve_clusterReserve, reservedBudget_eq hsize,
    Option.bind_eq_bind, Option.bind_some] at hsome
  obtain ⟨hot, hhot, hrest⟩ := Option.bind_eq_some_iff.mp hsome
  rw [addIfAny, if_pos (by split <;> split <;> omega)] at hhot
  have hext : Extends vv a (selectPreferred vv a) hot := by
    obtain ⟨_, hsome', hext⟩ : Selects vv a (selectPreferred vv a) (some (addClusterRecentEntries
      P vv a _ (selectPreferred vv a))) := selects_addClusterRecentEntries hsub hsize
    rw [hhot] at hsome'
    exact Option.some.inj hsome' ▸ hext
  obtain ⟨_, hfilled, hmore, -⟩ := fills_reservePhases hext.sub hext.size_le (clusterReserve a)
    (fun _ _ hs hs' => selects_addClusterRecentEntries (P := P) hs hs') hbig
  rw [Option.bind_eq_bind, hrest] at hfilled
  obtain rfl := Option.some.inj hfilled
  -- the first phase has the clusters, and the other phases keep them
  refine le_trans ?_ (Finset.card_le_card hmore.clusters_subset)
  rw [← Option.some.inj hhot]
  refine le_trans ?_ (min_le_card_addClusterRecentEntries hsub hone hsize)
  split <;> split <;> omega

end

/-- A platform that writes a name as its bytes, each component after a slash. -/
def Platform.spelled : Platform :=
  { Platform.plain with
    toUri := fun nid =>
      nid.components.flatMap fun c => '/' :: c.value.map fun b => Char.ofNat b.toNat }

/-- Nodes `a_1`, `a_2`, `b`, `c` and `d`, which are in four clusters. -/
def clusteredNodes : VersionVector :=
  ([[97, 95, 49], [97, 95, 50], [98], [99], [100]] : List (List UInt8)).foldl
    (fun vv name => vv.set (.ofBytes [name]) 1 0) .empty

/-- Without a reserve three slots hold three clusters. -/
theorem cluster_diversity_three :
    3 ≤ (clusters .spelled (selectSubset .spelled clusteredNodes
      { maxEntries := 3, strategy := .ClusterHybrid })).card := by
  have hfour : (clusters .spelled clusteredNodes).card = 4 := by decide
  have hbig : ({ maxEntries := 3, strategy := .ClusterHybrid } : SubsetArgs).maxEntries <
      clusteredNodes.size := by
    decide
  have hmin := cluster_diversity .spelled (by rfl) (by decide) hbig
  rw [hfour] at hmin
  exact hmin

end Svs
