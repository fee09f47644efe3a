import Svs.Spec.BuildCorrect
import Svs.ForStd.Orbit

/-!
# Consecutive calls of `buildSyncVector`

While the vector does not change, the limit is constant and the cursor advances by
the limit modulo the number of entries.  What a walk adds depends on how many
unselected nodes it meets before a node.

## Key results

- `has_addEntries_iff`: which nodes a walk adds
- `orbit_afterBuilds`: where the cursor is after `k` calls
-/

namespace Svs

open Std VersionVector

/-! ## The walk from a cursor -/

/-- How many unselected nodes a list has before a node. -/
def unselectedBefore (l : List NodeID) (sel : VersionVector) (nid : NodeID) : Nat :=
  (l.take (l.idxOf nid)).countP fun n => !sel.has n

/-- A walk adds the nodes with few unselected ones before them. -/
theorem has_addEntries_iff {vv sel : VersionVector} {a : SubsetArgs} {l : List NodeID}
    {budget : Nat} (hl : l.Perm vv.nodes) {nid : NodeID} (hn : vv.has nid = true)
    (hsel : sel.has nid = false) :
    (addEntries vv a l budget sel).has nid = true ↔
      unselectedBefore l sel nid < min budget (a.maxEntries - sel.size) := by
  have hnodup : l.Nodup := hl.nodup_iff.mpr vv.nodes_nodup
  have hmem : ∀ n ∈ l, vv.has n = true := fun n h => (mem_nodes vv n).mp (hl.mem_iff.mp h)
  have hnl : nid ∈ l := hl.mem_iff.mpr ((mem_nodes vv nid).mpr hn)
  -- the walk adds the first unselected nodes, as many as fit
  rw [has_addEntries hnodup hmem, List.mem_take_filter_iff hnodup _ _ hnl, hsel]
  simp [unselectedBefore]

theorem has_addEntries_of_has {vv sel : VersionVector} {a : SubsetArgs} {l : List NodeID}
    {budget : Nat} (hl : l.Perm vv.nodes) {nid : NodeID} (hsel : sel.has nid = true) :
    (addEntries vv a l budget sel).has nid = true := by
  have hnodup : l.Nodup := hl.nodup_iff.mpr vv.nodes_nodup
  have hmem : ∀ n ∈ l, vv.has n = true := fun n h => (mem_nodes vv n).mp (hl.mem_iff.mp h)
  exact (has_addEntries hnodup hmem nid).mpr (Or.inl hsel)

theorem unselectedBefore_le_idxOf (l : List NodeID) (sel : VersionVector) (nid : NodeID) :
    unselectedBefore l sel nid ≤ l.idxOf nid :=
  List.countP_le_length.trans (List.length_take_le _ _)

section

variable (vv : VersionVector) (a : SubsetArgs)

/-- The preferred node is the only one selected at the start. -/
theorem has_selectPreferred_iff (nid : NodeID) :
    (selectPreferred vv a).has nid = true ↔
      a.preferredNode.isEmpty = false ∧ nid = a.preferredNode ∧ vv.has nid = true := by
  unfold selectPreferred
  cases hne : a.preferredNode.isEmpty with
  | true => simp
  | false =>
    simp only [Bool.false_eq_true, if_false, has_addEntry, has_empty, false_or, true_and]
    constructor
    · intro h
      obtain ⟨rfl, h⟩ := h
      exact ⟨rfl, h⟩
    · intro h
      obtain ⟨rfl, h⟩ := h
      exact ⟨rfl, h⟩

variable {vv a}

theorem size_selectPreferred (hne : a.preferredNode.isEmpty = false)
    (hv : vv.has a.preferredNode = true) : (selectPreferred vv a).size = 1 := by
  rw [selectPreferred, hne]
  simp [size_addEntry, hv]

theorem selectPreferred_of_isEmpty (h : a.preferredNode.isEmpty = true) :
    selectPreferred vv a = .empty := by
  rw [selectPreferred, if_pos h]

/-- Where the walk from a cursor meets a node. -/
theorem idxOf_roundRobinNodes {nid : NodeID} (hn : vv.has nid = true) {d : Nat} (hd : d < vv.size)
    (h : a.startIndex + d ≡ vv.nodes.idxOf nid [MOD vv.size]) :
    (roundRobinNodes vv a).idxOf nid = d := by
  rw [← length_nodes] at h hd
  refine List.idxOf_rotate vv.nodes_nodup hd ?_ ((mem_nodes vv nid).mpr hn)
  exact ((Nat.mod_modEq _ _).add_right d).trans h

end

namespace Core

/-! ## Consecutive calls -/

section

variable (P : Platform) (cfg : Config) (m : ℕ → Moment) (c : Core)

/-- The state after `k` calls of `buildSyncVector`, call `i` at moment `m i`. -/
def afterBuilds : ℕ → Core
  | 0 => c
  | k + 1 => (buildSyncVector P cfg (m k) (afterBuilds k)).1

/-- The vector that call number `k` builds. -/
def builtVector (k : ℕ) : VersionVector :=
  (buildSyncVector P cfg (m k) (afterBuilds P cfg m c k)).2

/-- A call leaves alone what the limit and the arguments of the selection depend on,
    other than the cursor and the bookkeeping of earlier selections. -/
theorem buildSyncVector_frame (m : Moment) :
    (buildSyncVector P cfg m c).1.vv = c.vv ∧
      (buildSyncVector P cfg m c).1.hotspotScore = c.hotspotScore ∧
      (buildSyncVector P cfg m c).1.activityScore = c.activityScore := by
  obtain ⟨_, _, _, _, hbuild⟩ := buildSyncVector_writes P cfg m c
  rw [hbuild]
  exact ⟨rfl, rfl, rfl⟩

theorem afterBuilds_frame (k : ℕ) :
    (afterBuilds P cfg m c k).vv = c.vv ∧
      (afterBuilds P cfg m c k).hotspotScore = c.hotspotScore ∧
      (afterBuilds P cfg m c k).activityScore = c.activityScore := by
  induction k with
  | zero => exact ⟨rfl, rfl, rfl⟩
  | succ k ih =>
    obtain ⟨hvv, hhot, hact⟩ := buildSyncVector_frame P cfg (afterBuilds P cfg m c k) (m k)
    exact ⟨hvv.trans ih.1, hhot.trans ih.2.1, hact.trans ih.2.2⟩

theorem syncLimit_afterBuilds (k : ℕ) :
    syncLimit cfg (afterBuilds P cfg m c k) = syncLimit cfg c := by
  obtain ⟨hvv, hhot, -⟩ := afterBuilds_frame P cfg m c k
  simp only [syncLimit, getStateVectorLimit, coordinatedLimit, hvv, hhot]

variable {cfg c}

theorem builtVector_eq (hlimit : syncLimit cfg c < c.vv.size) (k : ℕ) :
    builtVector P cfg m c k =
      selectSubset P c.vv (subsetArgs cfg (m k) (afterBuilds P cfg m c k) (syncLimit cfg c)) := by
  have hvv := (afterBuilds_frame P cfg m c k).1
  rw [builtVector, buildSyncVector_snd, syncLimit_afterBuilds, hvv, if_neg hlimit.ne]

theorem effectiveStrategy_ne_random (limit : Nat) (h : cfg.stateVectorStrategy ≠ .Random) :
    (effectiveStrategy cfg c limit).1 ≠ .Random := by
  unfold effectiveStrategy
  split
  · split
    · simp
    · split <;> simp
  · exact h

/-- A proper selection advances the cursor by the limit. -/
theorem stateVectorCursor_buildSyncVector (hlimit : syncLimit cfg c < c.vv.size)
    (hrandom : cfg.stateVectorStrategy ≠ .Random) (m : Moment) :
    (buildSyncVector P cfg m c).1.stateVectorCursor =
      (c.stateVectorCursor + syncLimit cfg c) % c.vv.size := by
  rw [buildSyncVector_selected P m hlimit]
  exact if_pos ⟨by omega, effectiveStrategy_ne_random _ hrandom⟩

/-- The cursor of call number `k`. -/
theorem orbit_afterBuilds (hlimit : syncLimit cfg c < c.vv.size)
    (hrandom : cfg.stateVectorStrategy ≠ .Random) (k : ℕ) :
    (afterBuilds P cfg m c k).stateVectorCursor ≡
      c.stateVectorCursor + k * syncLimit cfg c [MOD c.vv.size] := by
  induction k with
  | zero =>
    rw [Nat.zero_mul]
    exact Nat.ModEq.rfl
  | succ k ih =>
    have hvv := (afterBuilds_frame P cfg m c k).1
    have hlim := syncLimit_afterBuilds P cfg m c k
    rw [afterBuilds, stateVectorCursor_buildSyncVector P (by rw [hlim, hvv]; exact hlimit) hrandom,
      hlim, hvv, Nat.add_mul, Nat.one_mul, ← Nat.add_assoc]
    exact (Nat.mod_modEq _ _).trans (ih.add_right _)

end

/-- A node that knows one number of each of the given one-letter nodes. -/
def knowing (cfg : Config) (letters : List UInt8) : Core :=
  { init cfg 0 with
    vv := letters.foldl (fun vv letter => vv.set (.ofBytes [[letter]]) 1 0) .empty }

end Core

end Svs
