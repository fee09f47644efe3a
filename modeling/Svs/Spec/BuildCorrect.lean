import Svs.Native.BuildVector

/-!
# What `buildSyncVector` sends

The built vector is a sub-vector of the local one, has exactly
`getStateVectorLimit` entries, and contains the entry of the node itself.
-/

namespace Svs.Core

open VersionVector

variable (P : Platform) (cfg : Config) (m : Moment) (c : Core)

/-- The limit for the whole local vector. -/
def syncLimit : Nat := getStateVectorLimit cfg c c.vv.size

theorem syncLimit_le_size : syncLimit cfg c ≤ c.vv.size := by
  unfold syncLimit getStateVectorLimit
  split
  · exact Nat.zero_le _
  · split
    · exact le_rfl
    · exact min_le_left _ _

theorem syncLimit_of_full (h : cfg.stateVectorStrategy = .Full) : syncLimit cfg c = c.vv.size := by
  unfold syncLimit getStateVectorLimit
  split
  · next h0 => exact h0.symm
  · rfl

/-- A node that may send at least one entry of some vector has a positive limit for
    every non-empty vector. -/
theorem one_le_syncLimit (h : cfg.stateVectorStrategy = .Full ∨ 1 ≤ cfg.maxStateVectorEntries)
    (hsize : c.vv.size ≠ 0) : 1 ≤ syncLimit cfg c := by
  unfold syncLimit getStateVectorLimit
  rw [if_neg hsize]
  split
  · omega
  · next hfull =>
    have hmax := h.resolve_left hfull
    refine le_min (by omega) (le_min hmax ?_)
    have hone : ∀ n : Nat, 1 ≤ max 1 n := fun n => le_max_left 1 n
    split
    · -- the coordinated limit is a positive number times a factor of at least 1
      unfold coordinatedLimit
      rw [Nat.one_le_ceil_iff]
      apply mul_pos (Nat.cast_pos.mpr ((hone _).trans (le_max_left _ _)))
      have hpressure : (0 : ℚ) ≤ clamp (55 / 100 * cfg.linkLossRate
          + 25 / 100 * topologyPressure cfg
          + 35 / 100 * clamp (6 / 10 * c.hotspotScore + 4 / 10 * cfg.expectedHotspotRatio) 0 1)
          0 1 := (clamp_mem _ zero_le_one).1
      linarith
    · exact hone _

/-- `Full` is never the effective strategy of another configured one. -/
theorem effectiveStrategy_ne_full (limit : Nat) (h : cfg.stateVectorStrategy ≠ .Full) :
    (effectiveStrategy cfg c limit).1 ≠ .Full := by
  unfold effectiveStrategy
  split
  · split
    · simp
    · split <;> simp
  · exact h

section

variable {cfg c}

/-- A limit for all entries: the whole vector is sent, and the counters start anew. -/
theorem buildSyncVector_whole (h : syncLimit cfg c = c.vv.size) :
    buildSyncVector P cfg m c =
      ({ c with
          scoreUnselectedRounds := c.vv.nodes.foldl (fun rounds nid => rounds.insert nid 0) ∅ },
        c.vv) := by
  unfold buildSyncVector
  dsimp only
  exact if_pos (Or.inl h.ge)

/-- A limit that leaves entries out: a selection is sent, with its bookkeeping. -/
theorem buildSyncVector_selected (h : syncLimit cfg c < c.vv.size) :
    buildSyncVector P cfg m c =
      let (strategy, burst) := effectiveStrategy cfg c (syncLimit cfg c)
      let args := subsetArgs cfg m c (syncLimit cfg c)
      let partialVv := selectSubset P c.vv args
      ({ c with
          adaptiveScoreBurstRemaining := burst
          stateVectorCursor :=
            if c.vv.size > 0 ∧ strategy ≠ .Random then
              (c.stateVectorCursor + syncLimit cfg c) % c.vv.size
            else c.stateVectorCursor
          lastSelectedNodes := sortBy (recentFirst partialVv) partialVv.nodes
          scoreUnselectedRounds :=
            countUnselected c.vv.nodes partialVv args.scoreCompensationRounds },
        partialVv) := by
  unfold buildSyncVector
  dsimp only
  refine if_neg ?_
  -- the source tests the two ways of sending everything, which are one
  rw [not_or]
  exact ⟨Nat.not_le.mpr h, fun hfull => h.ne (syncLimit_of_full cfg c hfull)⟩

end

theorem buildSyncVector_snd :
    (buildSyncVector P cfg m c).2 =
      if syncLimit cfg c = c.vv.size then c.vv
      else selectSubset P c.vv (subsetArgs cfg m c (syncLimit cfg c)) := by
  rcases (syncLimit_le_size cfg c).lt_or_eq with hpart | hwhole
  · rw [buildSyncVector_selected P m hpart, if_neg hpart.ne]
  · rw [buildSyncVector_whole P m hwhole, if_pos hwhole]

/-- A call writes the burst, the cursor and the bookkeeping of the selections. -/
theorem buildSyncVector_writes :
    ∃ burst cursor selected rounds, (buildSyncVector P cfg m c).1 =
      { c with
        adaptiveScoreBurstRemaining := burst
        stateVectorCursor := cursor
        lastSelectedNodes := selected
        scoreUnselectedRounds := rounds } := by
  rcases (syncLimit_le_size cfg c).lt_or_eq with hpart | hwhole
  · rw [buildSyncVector_selected P m hpart]
    exact ⟨_, _, _, _, rfl⟩
  · rw [buildSyncVector_whole P m hwhole]
    exact ⟨_, _, _, _, rfl⟩

/-- The built vector is a sub-vector of the local one. -/
theorem subVector_buildSyncVector : SubVector c.vv (buildSyncVector P cfg m c).2 := by
  rw [buildSyncVector_snd]
  split
  · exact .refl c.vv
  · exact subVector_selectSubset P c.vv _

/-- The built vector fills the limit. -/
theorem size_buildSyncVector : (buildSyncVector P cfg m c).2.size = syncLimit cfg c := by
  rw [buildSyncVector_snd]
  split
  · next h => exact h.symm
  · next h =>
    have hfull : cfg.stateVectorStrategy ≠ .Full := fun h' => h (syncLimit_of_full cfg c h')
    have hargs : (subsetArgs cfg m c (syncLimit cfg c)).strategy ≠ .Full :=
      effectiveStrategy_ne_full cfg c _ hfull
    rw [size_selectSubset P c.vv hargs]
    exact min_eq_left (syncLimit_le_size cfg c)

variable {cfg c}

/-- A node always sends its own entry. -/
theorem has_buildSyncVector_own (hlimit : 1 ≤ syncLimit cfg c) (hid : cfg.id.isEmpty = false)
    (hown : c.vv.has cfg.id = true) : (buildSyncVector P cfg m c).2.has cfg.id = true := by
  rw [buildSyncVector_snd]
  split
  · exact hown
  · exact has_selectSubset_preferred P hlimit hid hown

end Svs.Core
