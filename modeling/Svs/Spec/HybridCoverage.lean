import Svs.Spec.BuildRuns

/-!
# Coverage under `Hybrid`

`Hybrid` sends the preferred and the most recent nodes (`hotVector`), then a few nodes
from the cursor (`fairSlots`), then again recent ones.  The cursor advances by the
whole limit, so it only visits one class modulo `gcd L n`; an entry outside the hot
nodes is sent again and again iff one of the cursors of that class reaches it.

## Key results

- `selectSubset_hybrid`: the three walks of a selection
- `has_hybrid_iff`: which nodes a selection sends
- `hybrid_covers_iff`: when every entry is sent again and again
-/

namespace Svs

open Std VersionVector

/-! ## The three walks -/

section

variable (vv : VersionVector) (a : SubsetArgs)

/-- The reserve for the walk from the cursor. -/
def fairReserve : Nat := min (a.maxEntries - 1) (max 1 a.minFairEntries)

/-- How many nodes the preferred and the most recent ones take. -/
def hotSize : Nat :=
  max
    (max
      (min ⌈(a.maxEntries : ℚ) * clamp a.hotRatio (50 / 100) (95 / 100)⌉₊
        (a.maxEntries - fairReserve a))
      (selectPreferred vv a).size)
    (min a.maxEntries (sizeAdd (selectPreferred vv a).size (max 1 a.recentEntries)))

/-- The preferred and the most recent nodes. -/
def hotVector : VersionVector :=
  addRecentEntries vv a (hotSize vv a - (selectPreferred vv a).size) (selectPreferred vv a)

/-- The slots left for the walk from the cursor. -/
def fairSlots : Nat := min (fairReserve a) (a.maxEntries - hotSize vv a)

/-- The slots left after it. -/
def recentSlots : Nat := a.maxEntries - hotSize vv a - fairSlots vv a

/-- How many nodes outside the hot ones lie between the cursor and a node. -/
def coldBefore (cursor : Nat) (nid : NodeID) : Nat :=
  unselectedBefore (vv.nodes.rotate cursor) (hotVector vv a) nid

/-- How many nodes outside the hot ones and out of reach of the cursor are more recent
    than a node. -/
def newerLeft (cursor : Nat) (nid : NodeID) : Nat :=
  ((recentNodes vv).take ((recentNodes vv).idxOf nid)).countP fun n =>
    !(hotVector vv a).has n && decide (fairSlots vv a ≤ coldBefore vv a cursor n)

/-- A node outside the hot ones is sent from this cursor. -/
def SentFrom (cursor : Nat) (nid : NodeID) : Prop :=
  coldBefore vv a cursor nid < fairSlots vv a ∨ newerLeft vv a cursor nid < recentSlots vv a

instance (cursor : Nat) (nid : NodeID) : Decidable (SentFrom vv a cursor nid) :=
  inferInstanceAs (Decidable (_ ∨ _))

variable {vv a}

theorem size_selectPreferred_le_hotSize : (selectPreferred vv a).size ≤ hotSize vv a :=
  (le_max_right _ _).trans (le_max_left _ _)

theorem hotSize_le (hpos : 1 ≤ a.maxEntries) : hotSize vv a ≤ a.maxEntries := by
  have hpref := size_selectPreferred_le vv a
  refine max_le (max_le ?_ (by omega)) (min_le_left _ _)
  exact (min_le_right _ _).trans (Nat.sub_le _ _)

/-- A phase that adds recent nodes up to a target. -/
theorem addHotEntries_eq {target : Nat} {sel : VersionVector} (h : sel.size ≤ target) :
    addHotEntries vv a target sel = some (addRecentEntries vv a (target - sel.size) sel) := by
  unfold addHotEntries
  split
  · rw [sizeSub_eq_some h]
    rfl
  · next hgt =>
    rw [addRecentEntries, addEntries_stop (Or.inr (by omega))]

/-- The phase that walks from the cursor. -/
theorem addFairEntries_eq {reserve : Nat} {sel : VersionVector} (h : sel.size ≤ a.maxEntries) :
    addFairEntries vv a reserve sel =
      some (addRoundRobinEntries vv a (min reserve (a.maxEntries - sel.size)) sel) := by
  unfold addFairEntries
  split
  · rw [sizeSub_eq_some h]
    rfl
  · next hstop => rw [addRoundRobinEntries, addEntries_stop (Or.inr (by omega))]

/-- A phase that fills the room that is left. -/
theorem addIntoRoom_eq {l : List NodeID} {sel : VersionVector} (h : sel.size ≤ a.maxEntries) :
    addIntoRoom a (fun room s => some (addEntries vv a l room s)) sel =
      some (addEntries vv a l (a.maxEntries - sel.size) sel) := by
  unfold addIntoRoom
  split
  · rw [sizeSub_eq_some h]
    rfl
  · next hstop => rw [addEntries_stop (Or.inr (by omega))]

theorem fairnessReserve_eq (hlow : 4 ≤ a.maxEntries) : fairnessReserve a = some (fairReserve a) := by
  rw [fairnessReserve, if_pos hlow, sizeSub_eq_some (by omega)]
  rfl

theorem hotTarget_eq :
    hotTarget a (fairReserve a) (selectPreferred vv a) = some (hotSize vv a) := by
  have hreserve : fairReserve a ≤ a.maxEntries := (min_le_left _ _).trans (Nat.sub_le _ _)
  have hshare : hotShare a (fairReserve a) =
      some (min ⌈(a.maxEntries : ℚ) * clamp a.hotRatio (50 / 100) (95 / 100)⌉₊
        (a.maxEntries - fairReserve a)) := by
    unfold hotShare
    dsimp only
    split
    · rw [sizeSub_eq_some hreserve, min_eq_right (by omega)]
    · rw [min_eq_left (by omega)]
  rw [hotTarget, hshare]
  rfl

variable (hlow : 4 ≤ a.maxEntries) (hbig : a.maxEntries < vv.size)
include hlow hbig

theorem subVector_hotVector : SubVector vv (hotVector vv a) ∧ (hotVector vv a).size = hotSize vv a := by
  have hsub := subVector_selectPreferred vv a
  have hle : hotSize vv a ≤ a.maxEntries := hotSize_le (by omega)
  have hpref : (selectPreferred vv a).size ≤ hotSize vv a := size_selectPreferred_le_hotSize
  have hcovers : Covers vv (selectPreferred vv a) (recentNodes vv) := .of_perm_nodes (recentNodes_perm vv)
  constructor
  · exact (Extends.addEntries _ _ hsub (by omega)).sub
  · rw [hotVector, addRecentEntries, hcovers.size_addEntries hsub hbig (by omega)]
    omega

theorem size_fairVector :
    (addRoundRobinEntries vv a (fairSlots vv a) (hotVector vv a)).size =
      hotSize vv a + fairSlots vv a := by
  obtain ⟨hsub, hsize⟩ := subVector_hotVector hlow hbig
  have hle : hotSize vv a ≤ a.maxEntries := hotSize_le (by omega)
  have hcovers : Covers vv (hotVector vv a) (roundRobinNodes vv a) :=
    .of_perm_nodes (roundRobinNodes_perm vv a)
  rw [addRoundRobinEntries, hcovers.size_addEntries hsub hbig (by omega), hsize]
  have hfair : fairSlots vv a ≤ a.maxEntries - hotSize vv a := min_le_right _ _
  omega

/-- The selection of `Hybrid`: hot nodes, nodes from the cursor, recent nodes. -/
theorem selectSubset_hybrid (P : Platform) (hstrategy : a.strategy = .Hybrid) :
    selectSubset P vv a =
      addRecentEntries vv a (recentSlots vv a)
        (addRoundRobinEntries vv a (fairSlots vv a) (hotVector vv a)) := by
  obtain ⟨hsub, hsize⟩ := subVector_hotVector hlow hbig
  have hle : hotSize vv a ≤ a.maxEntries := hotSize_le (by omega)
  have hfair := size_fairVector hlow hbig
  have hfairle : fairSlots vv a ≤ a.maxEntries - hotSize vv a := min_le_right _ _
  have hcovers : Covers vv (addRoundRobinEntries vv a (fairSlots vv a) (hotVector vv a))
      (recentNodes vv) := .of_perm_nodes (recentNodes_perm vv)
  have hext : Extends vv a (hotVector vv a)
      (addRoundRobinEntries vv a (fairSlots vv a) (hotVector vv a)) :=
    .addEntries _ _ hsub (by omega)
  have hfull : (addRecentEntries vv a (recentSlots vv a)
      (addRoundRobinEntries vv a (fairSlots vv a) (hotVector vv a))).size = a.maxEntries := by
    rw [addRecentEntries, hcovers.size_addEntries hext.sub hbig hext.size_le, hfair, recentSlots]
    omega
  -- the phases of the source, one by one
  have hhot : addHotEntries vv a (hotSize vv a) (selectPreferred vv a) = some (hotVector vv a) :=
    addHotEntries_eq size_selectPreferred_le_hotSize
  have hfairEntries : addFairEntries vv a (fairReserve a) (hotVector vv a) =
      some (addRoundRobinEntries vv a (fairSlots vv a) (hotVector vv a)) := by
    rw [addFairEntries_eq (by omega), hsize]
    rfl
  have hroom : addIntoRoom a (fun room s => some (addRecentEntries vv a room s))
      (addRoundRobinEntries vv a (fairSlots vv a) (hotVector vv a)) =
      some (addRecentEntries vv a (recentSlots vv a)
        (addRoundRobinEntries vv a (fairSlots vv a) (hotVector vv a))) := by
    apply (addIntoRoom_eq (l := recentNodes vv) hext.size_le).trans
    rw [hfair, ← Nat.sub_sub]
    rfl
  have hsome := selectSubset?_eq_some P vv a
  rw [selectSubset?, if_neg (by omega), if_neg (by simp [hstrategy]; omega), selectByStrategy,
    hstrategy] at hsome
  simp only [selectHybrid, fairnessReserve_eq hlow, hotTarget_eq, hhot, hfairEntries, hroom,
    Option.bind_eq_bind, Option.bind_some] at hsome
  -- the walk that would fill up the rest finds no room
  rw [fillRoundRobin, addIntoRoom, if_neg (by omega)] at hsome
  exact (Option.some.inj hsome).symm

/-- A selection sends the hot nodes and those that the cursor reaches. -/
theorem has_hybrid_iff (P : Platform) (hstrategy : a.strategy = .Hybrid) {nid : NodeID}
    (hn : vv.has nid = true) :
    (selectSubset P vv a).has nid = true ↔
      (hotVector vv a).has nid = true ∨ SentFrom vv a (a.startIndex % vv.size) nid := by
  obtain ⟨hsub, hsize⟩ := subVector_hotVector hlow hbig
  have hle : hotSize vv a ≤ a.maxEntries := hotSize_le (by omega)
  have hfair := size_fairVector hlow hbig
  have hfairle : fairSlots vv a ≤ a.maxEntries - hotSize vv a := min_le_right _ _
  -- what the walk from the cursor adds to the hot nodes
  have hreach : ∀ n, vv.has n = true → (hotVector vv a).has n = false →
      ((addRoundRobinEntries vv a (fairSlots vv a) (hotVector vv a)).has n = true ↔
        coldBefore vv a (a.startIndex % vv.size) n < fairSlots vv a) := by
    intro n hnv hcold
    apply (has_addEntries_iff (roundRobinNodes_perm vv a) hnv hcold).trans
    rw [hsize, min_eq_left hfairle, coldBefore, roundRobinNodes, length_nodes]
  rw [selectSubset_hybrid hlow hbig P hstrategy]
  cases hcold : (hotVector vv a).has nid with
  | true =>
    have hmid : (addRoundRobinEntries vv a (fairSlots vv a) (hotVector vv a)).has nid = true :=
      has_addEntries_of_has (roundRobinNodes_perm vv a) hcold
    exact iff_of_true (has_addEntries_of_has (recentNodes_perm vv) hmid) (Or.inl rfl)
  | false =>
    simp only [Bool.false_eq_true, false_or, SentFrom]
    rw [← hreach nid hn hcold]
    cases hmid : (addRoundRobinEntries vv a (fairSlots vv a) (hotVector vv a)).has nid with
    | true =>
      exact iff_of_true (has_addEntries_of_has (recentNodes_perm vv) hmid) (Or.inl rfl)
    | false =>
      -- the last walk passes over what the first two have selected
      have hlast : unselectedBefore (recentNodes vv)
          (addRoundRobinEntries vv a (fairSlots vv a) (hotVector vv a)) nid =
          newerLeft vv a (a.startIndex % vv.size) nid := by
        apply List.countP_congr
        intro n hnl
        have hnv : vv.has n = true :=
          (mem_nodes vv n).mp ((recentNodes_perm vv).mem_iff.mp (List.mem_of_mem_take hnl))
        cases hhot : (hotVector vv a).has n with
        | true =>
          have hkept : (addRoundRobinEntries vv a (fairSlots vv a) (hotVector vv a)).has n = true :=
            has_addEntries_of_has (roundRobinNodes_perm vv a) hhot
          simp [hkept]
        | false =>
          rw [Bool.not_eq_true', ← Bool.not_eq_true, hreach n hnv hhot]
          simp
      apply (has_addEntries_iff (recentNodes_perm vv) hn hmid).trans
      rw [hlast, hfair, ← Nat.sub_sub, ← recentSlots, Nat.min_self]
      simp

end

/-! ## What the walks depend on -/

theorem addEntries_congr {vv : VersionVector} {a a' : SubsetArgs}
    (h : a.maxEntries = a'.maxEntries) (l : List NodeID) (budget : Nat) (sel : VersionVector) :
    addEntries vv a l budget sel = addEntries vv a' l budget sel := by
  induction l generalizing budget sel with
  | nil => rfl
  | cons nid rest ih => rw [addEntries_cons, addEntries_cons, h, ih]

/-- Two selections differ at most in the cursor and in what `Hybrid` does not read. -/
structure SameShares (a a' : SubsetArgs) : Prop where
  maxEntries : a.maxEntries = a'.maxEntries
  recentEntries : a.recentEntries = a'.recentEntries
  preferredNode : a.preferredNode = a'.preferredNode
  hotRatio : a.hotRatio = a'.hotRatio
  minFairEntries : a.minFairEntries = a'.minFairEntries

namespace SameShares

variable {a a' : SubsetArgs} (h : SameShares a a') (vv : VersionVector)
include h

theorem selectPreferred_eq : selectPreferred vv a = selectPreferred vv a' := by
  rw [selectPreferred, selectPreferred, h.preferredNode]

theorem fairReserve_eq : fairReserve a = fairReserve a' := by
  rw [fairReserve, fairReserve, h.maxEntries, h.minFairEntries]

theorem hotSize_eq : hotSize vv a = hotSize vv a' := by
  rw [hotSize, hotSize, h.maxEntries, h.recentEntries, h.hotRatio, h.fairReserve_eq,
    h.selectPreferred_eq vv]

theorem hotVector_eq : hotVector vv a = hotVector vv a' := by
  rw [hotVector, hotVector, h.hotSize_eq vv, h.selectPreferred_eq vv]
  exact addEntries_congr h.maxEntries _ _ _

theorem fairSlots_eq : fairSlots vv a = fairSlots vv a' := by
  rw [fairSlots, fairSlots, h.maxEntries, h.fairReserve_eq, h.hotSize_eq vv]

theorem coldBefore_eq (cursor : Nat) : coldBefore vv a cursor = coldBefore vv a' cursor := by
  funext nid
  rw [coldBefore, coldBefore, h.hotVector_eq vv]

theorem newerLeft_eq (cursor : Nat) (nid : NodeID) :
    newerLeft vv a cursor nid = newerLeft vv a' cursor nid := by
  unfold newerLeft
  rw [h.hotVector_eq vv, h.fairSlots_eq vv, h.coldBefore_eq vv]

theorem sentFrom_iff (cursor : Nat) (nid : NodeID) :
    SentFrom vv a cursor nid ↔ SentFrom vv a' cursor nid := by
  rw [SentFrom, SentFrom, h.coldBefore_eq vv, h.newerLeft_eq vv, recentSlots, recentSlots,
    h.maxEntries, h.fairSlots_eq vv, h.hotSize_eq vv]

end SameShares

namespace Core

/-! ## Coverage -/

/-- The arguments that `buildSyncVector` passes for `Hybrid`, the cursor aside. -/
def hybridArgs (cfg : Config) (c : Core) : SubsetArgs where
  maxEntries := syncLimit cfg c
  recentEntries := cfg.recentStateVectorEntries
  preferredNode := cfg.id
  hotRatio := effectiveHotRatio cfg c .Hybrid
  minFairEntries := effectiveFairEntries cfg c .Hybrid (syncLimit cfg c)

section

variable (P : Platform) {cfg : Config} (m : ℕ → Moment) {c : Core}
  (hhybrid : cfg.stateVectorStrategy = .Hybrid)
include hhybrid

theorem sameShares_subsetArgs (k : ℕ) :
    SameShares (subsetArgs cfg (m k) (afterBuilds P cfg m c k) (syncLimit cfg c))
      (hybridArgs cfg c) := by
  obtain ⟨-, hhot, hact⟩ := afterBuilds_frame P cfg m c k
  have hotness_eq : hotness cfg (afterBuilds P cfg m c k) = hotness cfg c := by
    rw [hotness, hotness, hhot, hact]
  -- field by field, the hotness is all that depends on the state
  constructor <;>
    simp [subsetArgs, hybridArgs, effectiveStrategy, hhybrid, effectiveHotRatio,
      effectiveFairEntries, hotness_eq]

variable (hlow : 4 ≤ syncLimit cfg c) (hlimit : syncLimit cfg c < c.vv.size)
include hlow hlimit

/-- What call number `k` sends. -/
theorem has_builtVector_hybrid {nid : NodeID} (hn : c.vv.has nid = true) (k : ℕ) :
    (builtVector P cfg m c k).has nid = true ↔
      (hotVector c.vv (hybridArgs cfg c)).has nid = true ∨
        SentFrom c.vv (hybridArgs cfg c)
          ((c.stateVectorCursor + k * syncLimit cfg c) % c.vv.size) nid := by
  have hsame := sameShares_subsetArgs P m (c := c) hhybrid k
  have hcursor := orbit_afterBuilds P m hlimit (by simp [hhybrid]) k
  have hstart : (subsetArgs cfg (m k) (afterBuilds P cfg m c k) (syncLimit cfg c)).startIndex =
      (afterBuilds P cfg m c k).stateVectorCursor := by
    simp [subsetArgs, hhybrid]
  rw [builtVector_eq P m hlimit, has_hybrid_iff hlow hlimit P
    (by simp [subsetArgs, effectiveStrategy, hhybrid]) hn, hsame.hotVector_eq, hsame.sentFrom_iff,
    hstart, hcursor]

/-- An unbounded run of calls sends every entry again and again iff every entry is hot or
    reached from a cursor congruent to the first one modulo `gcd L n`. -/
theorem hybrid_covers_iff :
    (∀ nid, c.vv.has nid = true → ∀ k₀, ∃ k, k₀ ≤ k ∧ (builtVector P cfg m c k).has nid = true) ↔
      ∀ nid, c.vv.has nid = true →
        (hotVector c.vv (hybridArgs cfg c)).has nid = true ∨
          ∃ cursor < c.vv.size,
            c.stateVectorCursor ≡ cursor [MOD Nat.gcd (syncLimit cfg c) c.vv.size] ∧
            SentFrom c.vv (hybridArgs cfg c) cursor nid := by
  apply forall_congr'
  intro nid
  apply forall_congr'
  intro hn
  simp only [has_builtVector_hybrid P m hhybrid hlow hlimit hn]
  constructor
  · intro hall
    obtain ⟨k, -, hhot | hsent⟩ := hall 0
    · exact Or.inl hhot
    · refine Or.inr ⟨_, Nat.mod_lt _ (by omega), ?_, hsent⟩
      exact Nat.modEq_gcd_of_orbit (k := k) (Nat.mod_modEq _ _).symm
  · intro hcond k₀
    rcases hcond with hhot | ⟨cursor, hlt, hclass, hsent⟩
    · exact ⟨k₀, le_rfl, Or.inl hhot⟩
    · -- the run comes back to every cursor of the class
      obtain ⟨k, hk₀, -, hk⟩ :=
        Nat.exists_orbit_modEq (L := syncLimit cfg c) (by omega) (by omega) hclass k₀
      refine ⟨k, hk₀, Or.inr ?_⟩
      rwa [hk, Nat.mod_eq_of_lt hlt]

/-- Enough slots for the walk from the cursor cover every entry. -/
theorem hybrid_covers_of_gcd_le
    (h : Nat.gcd (syncLimit cfg c) c.vv.size ≤ fairSlots c.vv (hybridArgs cfg c))
    {nid : NodeID} (hn : c.vv.has nid = true) (k₀ : ℕ) :
    ∃ k, k₀ ≤ k ∧ (builtVector P cfg m c k).has nid = true := by
  obtain ⟨k, hk₀, -, r, hr, hmod⟩ := Nat.exists_orbit_near (L := syncLimit cfg c)
    (n := c.vv.size) (by omega) (by omega) c.stateVectorCursor (c.vv.nodes.idxOf nid) k₀
  refine ⟨k, hk₀, (has_builtVector_hybrid P m hhybrid hlow hlimit hn k).mpr (Or.inr (Or.inl ?_))⟩
  -- the node lies `r` positions behind the cursor of that call, hot ones included
  have hgcd : Nat.gcd (syncLimit cfg c) c.vv.size ≤ syncLimit cfg c :=
    Nat.gcd_le_left _ (by omega)
  have hidx : (c.vv.nodes.rotate
      ((c.stateVectorCursor + k * syncLimit cfg c) % c.vv.size)).idxOf nid = r := by
    rw [← length_nodes] at hmod ⊢
    have hlt : r < c.vv.nodes.length := by
      rw [length_nodes]
      omega
    apply List.idxOf_rotate c.vv.nodes_nodup hlt
    · exact ((Nat.mod_modEq _ _).add_right r).trans hmod
    · exact (mem_nodes c.vv nid).mpr hn
  have hle := unselectedBefore_le_idxOf (c.vv.nodes.rotate
    ((c.stateVectorCursor + k * syncLimit cfg c) % c.vv.size))
    (hotVector c.vv (hybridArgs cfg c)) nid
  rw [coldBefore]
  omega

/-- If the hot nodes take the whole limit, every other entry is starved. -/
theorem hybrid_starves (h : hotSize c.vv (hybridArgs cfg c) = syncLimit cfg c) {nid : NodeID}
    (hn : c.vv.has nid = true) (hcold : (hotVector c.vv (hybridArgs cfg c)).has nid = false)
    (k : ℕ) : (builtVector P cfg m c k).has nid = false := by
  have hmax : (hybridArgs cfg c).maxEntries = syncLimit cfg c := rfl
  rw [← Bool.not_eq_true, has_builtVector_hybrid P m hhybrid hlow hlimit hn, hcold, SentFrom,
    recentSlots, fairSlots, hmax, h]
  simp

end

/-- Node `a`, which sends four entries with `Hybrid`, the given number of them recent. -/
def hybridFour (recentEntries : Nat) : Config where
  id := .ofBytes [[97]]
  recentStateVectorEntries := recentEntries
  maxStateVectorEntries := 4
  hybridHotRatio := 50 / 100
  enableCoordinatedSync := false

/-- That node, with six entries. -/
def hybridSix (recentEntries : Nat) : Core :=
  knowing (hybridFour recentEntries) [97, 98, 99, 100, 101, 102]

/-- Eight recent entries, as by default, leave no slot for the others. -/
theorem not_hybrid_covers :
    ¬∀ (P : Platform) (cfg : Config) (m : ℕ → Moment) (c : Core),
      cfg.stateVectorStrategy = .Hybrid → 1 ≤ cfg.recentStateVectorEntries →
      1 ≤ cfg.hybridMinFairEntries → 4 ≤ syncLimit cfg c → syncLimit cfg c < c.vv.size →
      ∀ nid, c.vv.has nid = true →
        ∀ k₀, ∃ k, k₀ ≤ k ∧ (builtVector P cfg m c k).has nid = true := by
  intro h
  obtain ⟨k, -, hhas⟩ := h .plain (hybridFour 8) (fun _ => .atMs 0) (hybridSix 8) rfl (by decide)
    (by decide) (by decide +kernel) (by decide +kernel) (.ofBytes [[102]]) (by decide +kernel) 0
  rw [hybrid_starves .plain (fun _ => .atMs 0) rfl (by decide +kernel) (by decide +kernel)
    (by decide +kernel) (by decide +kernel) (by decide +kernel)] at hhas
  cases hhas

/-- With a single recent entry all six are sent again and again. -/
theorem hybrid_covers_iff_oneRecent :
    (hybridSix 1).vv.size = 6 ∧ ∀ nid, (hybridSix 1).vv.has nid = true →
      ∀ k₀, ∃ k, k₀ ≤ k ∧
        (builtVector .plain (hybridFour 1) (fun _ => .atMs 0) (hybridSix 1) k).has nid = true := by
  have hall : ∀ nid ∈ (hybridSix 1).vv.nodes,
      (hotVector (hybridSix 1).vv (hybridArgs (hybridFour 1) (hybridSix 1))).has nid = true ∨
      ∃ cursor < (hybridSix 1).vv.size, (hybridSix 1).stateVectorCursor ≡ cursor
          [MOD Nat.gcd (syncLimit (hybridFour 1) (hybridSix 1)) (hybridSix 1).vv.size] ∧
        SentFrom (hybridSix 1).vv (hybridArgs (hybridFour 1) (hybridSix 1)) cursor nid := by
    decide +kernel
  refine ⟨by decide, ?_⟩
  exact (hybrid_covers_iff .plain (fun _ => .atMs 0) rfl (by decide +kernel)
    (by decide +kernel)).mpr fun nid hn => hall nid ((mem_nodes _ nid).mpr hn)

end Core

end Svs
