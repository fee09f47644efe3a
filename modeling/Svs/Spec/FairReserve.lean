import Svs.Spec.BudgetSpent
import Svs.Spec.HybridCoverage

/-!
# The fairness reserve

Five strategies reserve slots for a walk from the cursor.  They share their phases: a
first phase under a budget, the walk into the reserve, and two phases that fill what
is left.  `selectTraced?` runs these phases and keeps the nodes that the walks from the
cursor add; the reserve is honoured when the first phase leaves room for it.

## Key results

- `selectTraced?_fst`: the traced selection is that of the source
- `reservePhases_spec`: how many nodes the walks add
- `reserve_honoured_iff`: when they fill the reserve
-/

namespace Svs

open VersionVector

/-- The strategies that keep a reserve. -/
def keepsReserve : SubsetStrategy → Bool
  | .Hybrid | .ClusterHybrid | .ClusterScore | .AgeScore | .DeficitScore => true
  | _ => false

/-- The nodes that a phase has added. -/
def newNodes (before after : VersionVector) : List NodeID := after.nodes.filter (!before.has ·)

section

variable (P : Platform) (vv : VersionVector) (a : SubsetArgs)

/-- The phases of these strategies, with the nodes that `addRoundRobinEntries` adds. -/
def reservePhases (first : VersionVector → Option VersionVector)
    (add : Nat → VersionVector → Option VersionVector) (reserve : Nat) (selected : VersionVector) :
    Option (VersionVector × List NodeID) := do
  let hot ← first selected
  let fair ← addFairEntries vv a reserve hot
  let rest ← addIntoRoom a add fair
  let filled ← fillRoundRobin vv a rest
  return (filled, newNodes hot fair ++ newNodes rest filled)

/-- The first phase of `AgeScore`, `DeficitScore` and `ClusterScore`. -/
def firstScored (add : Nat → VersionVector → Option VersionVector) (reserve : Nat)
    (selected : VersionVector) : Option VersionVector := do
  let budget ← reservedBudget a reserve selected
  addIfAny add budget selected

/-- The first phase of `Hybrid`. -/
def firstHot (reserve : Nat) (selected : VersionVector) : Option VersionVector := do
  let target ← hotTarget a reserve selected
  addHotEntries vv a target selected

/-- The first phase of `ClusterHybrid`. -/
def firstCluster (reserve : Nat) (selected : VersionVector) : Option VersionVector := do
  let budget ← reservedBudget a reserve selected
  addIfAny (fun budget s => some (addClusterRecentEntries P vv a budget s))
    (max budget (min a.maxEntries (if a.recentEntries > 0 then a.recentEntries else 1))) selected

/-- The first phase of a strategy. -/
def firstPhase (reserve : Nat) : VersionVector → Option VersionVector :=
  match a.strategy with
  | .AgeScore => firstScored a (addAgeScoreEntries vv a) reserve
  | .DeficitScore => firstScored a (addDeficitScoreEntries vv a) reserve
  | .ClusterScore => firstScored a (addClusterScoreEntries P vv a) reserve
  | .ClusterHybrid => firstCluster P vv a reserve
  | _ => firstHot vv a reserve

/-- What a strategy fills the rest with. -/
def restPhase : Nat → VersionVector → Option VersionVector :=
  match a.strategy with
  | .AgeScore => addAgeScoreEntries vv a
  | .DeficitScore => addDeficitScoreEntries vv a
  | .ClusterScore => addClusterScoreEntries P vv a
  | .ClusterHybrid => fun budget s => some (addClusterRecentEntries P vv a budget s)
  | _ => fun budget s => some (addRecentEntries vv a budget s)

/-- `selectSubset` with a strategy that keeps a reserve, and the nodes that
    `addRoundRobinEntries` added. -/
def selectTraced? : Option (VersionVector × List NodeID) := do
  let reserve ← fairnessReserve a
  reservePhases vv a (firstPhase P vv a reserve) (restPhase P vv a) reserve (selectPreferred vv a)

/-- One slot for the preferred node, if the vector has it. -/
def preferredSlots : Nat := if !a.preferredNode.isEmpty && vv.has a.preferredNode then 1 else 0

/-- The first phase leaves room for the reserve.  The recent entries come on top of the
    preferred node in `Hybrid` and `ClusterHybrid`; the other strategies drop the reserve
    where it would leave the first phase nothing. -/
def ReserveFits : Prop :=
  match a.strategy with
  | .Hybrid =>
    sizeAdd (preferredSlots vv a) (max 1 a.recentEntries) + fairReserve a ≤ a.maxEntries
  | .ClusterHybrid => preferredSlots vv a + max 1 a.recentEntries + fairReserve a ≤ a.maxEntries
  | _ => preferredSlots vv a + fairReserve a < a.maxEntries

instance : Decidable (ReserveFits vv a) := by
  unfold ReserveFits
  split <;> infer_instance

end

section

variable {P : Platform} {vv : VersionVector} {a : SubsetArgs} {sel : VersionVector}

theorem size_selectPreferred_eq : (selectPreferred vv a).size = preferredSlots vv a := by
  unfold preferredSlots
  cases hne : a.preferredNode.isEmpty with
  | true => rw [selectPreferred_of_isEmpty hne]; rfl
  | false =>
    rw [selectPreferred, hne, if_neg Bool.false_ne_true, size_addEntry]
    simp

/-- Forgetting the nodes leaves the phases of the source. -/
theorem reservePhases_fst (first : VersionVector → Option VersionVector)
    (add : Nat → VersionVector → Option VersionVector) (reserve : Nat) (sel : VersionVector) :
    (reservePhases vv a first add reserve sel).map Prod.fst = (do
      let hot ← first sel
      let fair ← addFairEntries vv a reserve hot
      let rest ← addIntoRoom a add fair
      fillRoundRobin vv a rest) := by
  simp only [reservePhases, Option.bind_eq_bind, Option.map_bind, Option.pure_def,
    Function.comp_def, Option.map_some, Option.bind_fun_some]

/-- The traced selection is that of the source. -/
theorem selectTraced?_fst (hkeeps : keepsReserve a.strategy = true) (hpos : 1 ≤ a.maxEntries)
    (hbig : a.maxEntries < vv.size) :
    (selectTraced? P vv a).map Prod.fst = some (selectSubset P vv a) := by
  have hsome := selectSubset?_eq_some P vv a
  have hfull : a.strategy ≠ .Full := by
    intro h
    rw [h] at hkeeps
    cases hkeeps
  rw [selectSubset?, if_neg (by omega), if_neg (by rw [not_or]; exact ⟨hfull, by omega⟩)] at hsome
  rw [← hsome, selectTraced?, selectByStrategy]
  simp only [Option.bind_eq_bind, Option.map_bind, Function.comp_def, reservePhases_fst]
  -- both run the same phases; only the nesting of the binds differs
  cases hstrategy : a.strategy with
  | Hybrid =>
    simp only [firstPhase, restPhase, hstrategy, selectHybrid, firstHot, Option.bind_eq_bind,
      Option.bind_assoc]
  | ClusterHybrid =>
    simp only [firstPhase, restPhase, hstrategy, selectClusterHybrid, firstCluster,
      Option.bind_eq_bind, Option.bind_assoc]
  | AgeScore | DeficitScore | ClusterScore =>
    simp only [firstPhase, restPhase, hstrategy, selectScoredWithReserve, firstScored,
      Option.bind_eq_bind, Option.bind_assoc]
  | Full | StickyRecent | RecentNoveltyQuota | RecentRandomQuota | AdaptiveRecentScore | Score
  | RoundRobin | Recent | Random =>
    rw [hstrategy] at hkeeps
    cases hkeeps

/-! ## What the phases add -/

theorem length_newNodes {sel' : VersionVector} (hsub : SubVector vv sel) (hext : Extends vv a sel sel') :
    (newNodes sel sel').length = sel'.size - sel.size := by
  have hcovers : Covers sel' sel sel'.nodes := .of_perm_nodes (.refl _)
  refine hcovers.length_unselected ⟨?_, ?_⟩
  · intro nid s hs
    have hsel := (has_iff sel nid).mpr ⟨s, hs⟩
    obtain ⟨s', hs'⟩ := (has_iff sel' nid).mp (hext.mono nid hsel)
    -- both copy the entry of the vector
    have heq := (hext.sub.entry nid s' hs').symm.trans (hsub.entry nid s hs)
    rw [hs', heq]
  · intro nid hsel
    rw [hsub.lastUpdate nid hsel, hext.sub.lastUpdate nid (hext.mono nid hsel)]

theorem mem_newNodes {before after : VersionVector} {nid : NodeID} :
    nid ∈ newNodes before after ↔ after.has nid = true ∧ before.has nid = false := by
  rw [newNodes, List.mem_filter, mem_nodes, Bool.not_eq_true']

theorem reservedBudget_eq {reserve : Nat} (hsize : sel.size ≤ a.maxEntries) :
    reservedBudget a reserve sel =
      some (if sel.size + reserve < a.maxEntries then a.maxEntries - sel.size - reserve
        else a.maxEntries - sel.size) := by
  rw [reservedBudget, sizeSub_eq_some hsize, Option.bind_eq_bind, Option.bind_some]
  split
  · rw [sizeSub_eq_some (by omega)]
  · rfl

variable (hbig : a.maxEntries < vv.size)
include hbig

/-- After a first phase that leaves `n` entries, the walks from the cursor add what the
    reserve and the free slots allow; the last walk finds no slot. -/
theorem reservePhases_spec {first : VersionVector → Option VersionVector}
    {add : Nat → VersionVector → Option VersionVector} (reserve : Nat) {hot : VersionVector}
    (hfirst : first sel = some hot) (hhot : Extends vv a sel hot)
    (hadd : ∀ room s, SubVector vv s → s.size ≤ a.maxEntries → Spends vv a room s (add room s)) :
    ∃ filled added, reservePhases vv a first add reserve sel = some (filled, added) ∧
      added.length = min reserve (a.maxEntries - hot.size) ∧ added.Nodup ∧
      ∀ nid ∈ added, filled.has nid = true := by
  obtain ⟨fair, hfair, hfairExt, hfairSize⟩ := spends_addRoundRobinEntries
    (min reserve (a.maxEntries - hot.size)) hbig hhot.sub hhot.size_le
  obtain ⟨rest, hrest, hrestExt, hfull⟩ : Fills vv a fair (addIntoRoom a add fair) := by
    unfold addIntoRoom
    split
    · next hroom =>
      rw [sizeSub_eq_some hroom.le]
      exact (hadd _ fair hfairExt.sub hfairExt.size_le).fills (by omega)
    · exact ⟨fair, rfl, .refl hfairExt.sub hfairExt.size_le, by
        have hle := hfairExt.size_le
        omega⟩
  have hfill : fillRoundRobin vv a rest = some rest := by
    rw [fillRoundRobin, addIntoRoom, if_neg (by omega)]
  have hnone : newNodes rest rest = [] :=
    List.length_eq_zero_iff.mp ((length_newNodes hrestExt.sub (.refl hrestExt.sub hfull.le)).trans
      (Nat.sub_self _))
  have hlength := length_newNodes hhot.sub hfairExt
  have hle := hhot.size_le
  refine ⟨rest, newNodes hot fair, ?_, by omega, fair.nodes_nodup.filter _, ?_⟩
  · simp only [reservePhases, hfirst, addFairEntries_eq hhot.size_le, hfair, hrest, hfill, hnone,
      Option.bind_eq_bind, Option.bind_some, Option.pure_def, List.append_nil]
  · intro nid hn
    exact hrestExt.mono nid (mem_newNodes.mp hn).1

/-! ## The first phases -/

/-- A phase that scores spends its budget, whichever way it scores. -/
theorem spends_restPhase (hkeeps : keepsReserve a.strategy = true) {budget : Nat}
    (hsub : SubVector vv sel) (hsize : sel.size ≤ a.maxEntries) :
    Spends vv a budget sel (restPhase P vv a budget sel) := by
  unfold restPhase
  cases hstrategy : a.strategy with
  | AgeScore => exact spends_addScored budget hbig hsub hsize fun _ hn i => ageScoreOf_isSome hn i
  | DeficitScore =>
    exact spends_addScored budget hbig hsub hsize fun _ hn i => deficitScoreOf_isSome hn i
  | ClusterScore => exact spends_addBestClusters P budget hbig hsub hsize _
  | ClusterHybrid => exact spends_addClusterRecentEntries P budget hbig hsub hsize
  | Hybrid => exact spends_addRecentEntries budget hbig hsub hsize
  | Full | StickyRecent | RecentNoveltyQuota | RecentRandomQuota | AdaptiveRecentScore | Score
  | RoundRobin | Recent | Random =>
    rw [hstrategy] at hkeeps
    cases hkeeps

omit hbig in
/-- A scoring first phase takes all slots but the reserve, or all where nothing would be
    left for it. -/
theorem firstScored_eq {add : Nat → VersionVector → Option VersionVector} (reserve : Nat)
    (hsub : SubVector vv sel) (hsize : sel.size ≤ a.maxEntries)
    (hadd : ∀ budget, Spends vv a budget sel (add budget sel)) :
    ∃ hot, firstScored a add reserve sel = some hot ∧ Extends vv a sel hot ∧
      hot.size = if sel.size + reserve < a.maxEntries then a.maxEntries - reserve
        else a.maxEntries := by
  rw [firstScored, reservedBudget_eq hsize, Option.bind_eq_bind, Option.bind_some]
  obtain ⟨hot, hhot, hext, hspent⟩ := (hadd _).addIfAny hsub hsize
  refine ⟨hot, hhot, hext, ?_⟩
  rw [hspent]
  split <;> omega

/-- The first phase of `Hybrid` fills the hot share. -/
theorem firstHot_eq (hlow : 4 ≤ a.maxEntries) :
    ∃ hot, firstHot vv a (fairReserve a) (selectPreferred vv a) = some hot ∧
      Extends vv a (selectPreferred vv a) hot ∧ hot.size = hotSize vv a := by
  have hsub := subVector_selectPreferred vv a
  have hpref := size_selectPreferred_le vv a
  refine ⟨hotVector vv a, ?_, .addEntries _ _ hsub (by omega), (subVector_hotVector hlow hbig).2⟩
  rw [firstHot, hotTarget_eq, Option.bind_eq_bind, Option.bind_some,
    addHotEntries_eq size_selectPreferred_le_hotSize]
  rfl

/-- The first phase of `ClusterHybrid` takes at least as many slots as recent entries are
    asked for. -/
theorem firstCluster_eq (P : Platform) (reserve : Nat) (hsub : SubVector vv sel) (hsize : sel.size ≤ a.maxEntries) :
    ∃ hot, firstCluster P vv a reserve sel = some hot ∧ Extends vv a sel hot ∧
      hot.size = min a.maxEntries (max (if sel.size + reserve < a.maxEntries
        then a.maxEntries - reserve else a.maxEntries) (sel.size + max 1 a.recentEntries)) := by
  rw [firstCluster, reservedBudget_eq hsize, Option.bind_eq_bind, Option.bind_some]
  have hspends : ∀ budget, Spends vv a budget sel
      (addIfAny (fun budget s => some (addClusterRecentEntries P vv a budget s)) budget sel) :=
    fun budget => .addIfAny hsub hsize (spends_addClusterRecentEntries P budget hbig hsub hsize)
  obtain ⟨hot, hhot, hext, hspent⟩ := hspends _
  refine ⟨hot, hhot, hext, ?_⟩
  rw [hspent]
  have hrecent : (if a.recentEntries > 0 then a.recentEntries else 1) = max 1 a.recentEntries := by
    split <;> omega
  rw [hrecent]
  split <;> omega

omit hbig in
/-- The first phases that score differ in the scores only. -/
theorem firstScored_fits {add : Nat → VersionVector → Option VersionVector}
    (hlow : 4 ≤ a.maxEntries)
    (hadd : ∀ budget, Spends vv a budget (selectPreferred vv a) (add budget (selectPreferred vv a))) :
    ∃ hot, firstScored a add (fairReserve a) (selectPreferred vv a) = some hot ∧
      Extends vv a (selectPreferred vv a) hot ∧
      (hot.size + fairReserve a ≤ a.maxEntries ↔
        preferredSlots vv a + fairReserve a < a.maxEntries) := by
  have hpref := size_selectPreferred_le vv a
  have hreserve : 1 ≤ fairReserve a ∧ fairReserve a ≤ a.maxEntries - 1 := by
    unfold fairReserve
    omega
  have hslots : (selectPreferred vv a).size = preferredSlots vv a := size_selectPreferred_eq
  obtain ⟨hot, hhot, hext, hhotSize⟩ :=
    firstScored_eq (fairReserve a) (subVector_selectPreferred vv a) (by omega) hadd
  refine ⟨hot, hhot, hext, ?_⟩
  rw [hhotSize, hslots]
  split <;> omega

/-- After the first phase there is room for the reserve just when it fits. -/
theorem firstPhase_spec (hkeeps : keepsReserve a.strategy = true) (hlow : 4 ≤ a.maxEntries) :
    ∃ hot, firstPhase P vv a (fairReserve a) (selectPreferred vv a) = some hot ∧
      Extends vv a (selectPreferred vv a) hot ∧
      (hot.size + fairReserve a ≤ a.maxEntries ↔ ReserveFits vv a) := by
  have hsub := subVector_selectPreferred vv a
  have hpref := size_selectPreferred_le vv a
  have hsize : (selectPreferred vv a).size ≤ a.maxEntries := by omega
  have hreserve : 1 ≤ fairReserve a ∧ fairReserve a ≤ a.maxEntries - 1 := by
    unfold fairReserve
    omega
  have hslots : (selectPreferred vv a).size = preferredSlots vv a := size_selectPreferred_eq
  unfold firstPhase ReserveFits
  cases hstrategy : a.strategy with
  | AgeScore =>
    exact firstScored_fits hlow fun budget =>
      spends_addScored budget hbig hsub hsize fun _ hn i => ageScoreOf_isSome hn i
  | DeficitScore =>
    exact firstScored_fits hlow fun budget =>
      spends_addScored budget hbig hsub hsize fun _ hn i => deficitScoreOf_isSome hn i
  | ClusterScore =>
    exact firstScored_fits hlow fun budget => spends_addBestClusters P budget hbig hsub hsize _
  | Hybrid =>
    obtain ⟨hot, hhot, hext, hhotSize⟩ := firstHot_eq hbig hlow
    refine ⟨hot, hhot, hext, ?_⟩
    dsimp only
    rw [hhotSize, hotSize, hslots]
    -- the hot share and the preferred node leave room for the reserve
    omega
  | ClusterHybrid =>
    obtain ⟨hot, hhot, hext, hhotSize⟩ :=
      firstCluster_eq hbig P (fairReserve a) hsub hsize
    refine ⟨hot, hhot, hext, ?_⟩
    dsimp only
    rw [hhotSize, hslots]
    split <;> omega
  | Full | StickyRecent | RecentNoveltyQuota | RecentRandomQuota | AdaptiveRecentScore | Score
  | RoundRobin | Recent | Random =>
    rw [hstrategy] at hkeeps
    cases hkeeps

/-- The walks from the cursor fill the reserve just when the first phase leaves room for
    it; otherwise they add fewer entries. -/
theorem reserve_honoured_iff (P : Platform) (hkeeps : keepsReserve a.strategy = true)
    (hlow : 4 ≤ a.maxEntries) :
    ∃ added, selectTraced? P vv a = some (selectSubset P vv a, added) ∧ added.Nodup ∧
      (∀ nid ∈ added, (selectSubset P vv a).has nid = true) ∧
      (min (fairReserve a) (a.maxEntries - preferredSlots vv a) ≤ added.length ↔
        ReserveFits vv a) := by
  obtain ⟨hot, hhot, hext, hfits⟩ := firstPhase_spec (P := P) hbig hkeeps hlow
  obtain ⟨filled, added, htraced, hlength, hnodup, hhas⟩ := reservePhases_spec
    hbig (fairReserve a) hhot hext
    fun room s hs hs' => spends_restPhase (P := P) hbig hkeeps hs hs'
  have hselect : selectTraced? P vv a = some (filled, added) := by
    rw [selectTraced?, fairnessReserve_eq hlow]
    exact htraced
  have hfst := selectTraced?_fst (P := P) hkeeps (by omega) hbig
  rw [hselect, Option.map_some, Option.some.injEq] at hfst
  dsimp only at hfst
  rw [← hfst]
  refine ⟨added, hselect, hnodup, hhas, ?_⟩
  rw [← hfits, hlength]
  have hle := hext.size_le
  have hslots : preferredSlots vv a ≤ 1 := by
    unfold preferredSlots
    split <;> omega
  have hreserve : fairReserve a ≤ a.maxEntries - 1 := min_le_left _ _
  omega

end

/-- A vector of five nodes, each of which has published once. -/
def fiveNodes : VersionVector := (Core.knowing {} [97, 98, 99, 100, 101]).vv

/-- With the default of eight recent entries and a budget of four, `Hybrid` takes nothing
    from the cursor. -/
theorem not_reserve_honoured :
    ¬∀ (P : Platform) (vv : VersionVector) (a : SubsetArgs), keepsReserve a.strategy = true →
      4 ≤ a.maxEntries → a.maxEntries < vv.size →
      ∀ r added, selectTraced? P vv a = some (r, added) →
        min (fairReserve a) (a.maxEntries - preferredSlots vv a) ≤ added.length := by
  intro h
  have hnone : (selectTraced? .plain fiveNodes { maxEntries := 4, recentEntries := 8 }).map
      (·.2.length) = some 0 := by
    decide +kernel
  obtain ⟨⟨r, added⟩, htraced, hzero⟩ := Option.map_eq_some_iff.mp hnone
  have hle := h .plain fiveNodes { maxEntries := 4, recentEntries := 8 } rfl (by decide)
    (by decide) r added htraced
  have htwo : min (fairReserve { maxEntries := 4, recentEntries := 8 })
      (4 - preferredSlots fiveNodes { maxEntries := 4, recentEntries := 8 }) = 2 := by
    decide
  dsimp only at hzero hle
  omega

/-- With two recent entries the reserve of two is filled. -/
theorem reserve_honoured_twoRecent :
    ∃ added, selectTraced? .plain fiveNodes { maxEntries := 4, recentEntries := 2 } =
        some (selectSubset .plain fiveNodes { maxEntries := 4, recentEntries := 2 }, added) ∧
      2 ≤ added.length := by
  have hbig : ({ maxEntries := 4, recentEntries := 2 } : SubsetArgs).maxEntries < fiveNodes.size := by
    decide
  obtain ⟨added, htraced, -, -, hiff⟩ := reserve_honoured_iff hbig .plain rfl (by decide)
  have htwo : min (fairReserve { maxEntries := 4, recentEntries := 2 })
      (4 - preferredSlots fiveNodes { maxEntries := 4, recentEntries := 2 }) = 2 := by
    decide
  exact ⟨added, htraced, htwo ▸ hiff.mpr (by decide)⟩

end Svs
