import Svs.Spec.BuildRuns

/-!
# Round-robin coverage

With strategy `RoundRobin` consecutive calls cover all entries unless the limit
divides their number: the preferred node takes one slot of its window, and the same
windows come back for ever.

## Key results

- `roundRobin_covers_iff`: when `n` consecutive calls cover `n` entries
-/

namespace Svs

open Std VersionVector

/-! ## The window of one call -/

section

variable (P : Platform) {vv : VersionVector} {a : SubsetArgs} (hstrategy : a.strategy = .RoundRobin)
  (hpos : 1 ≤ a.maxEntries) (hbig : a.maxEntries < vv.size)
include hstrategy hpos hbig

/-- The selection of `RoundRobin`: the preferred node, then a walk from the cursor. -/
theorem selectSubset_roundRobin :
    selectSubset P vv a = addRoundRobinEntries vv a a.maxEntries (selectPreferred vv a) := by
  have hsome := selectSubset?_eq_some P vv a
  rw [selectSubset?, if_neg (by omega), if_neg (by simp [hstrategy]; omega), selectByStrategy,
    hstrategy] at hsome
  exact (Option.some.inj hsome).symm

/-- The nodes met first are selected, as many as there are free slots. -/
theorem has_roundRobin_of_idxOf_lt {nid : NodeID} (hn : vv.has nid = true)
    (hlt : (roundRobinNodes vv a).idxOf nid < a.maxEntries - (selectPreferred vv a).size) :
    (selectSubset P vv a).has nid = true := by
  rw [selectSubset_roundRobin P hstrategy hpos hbig]
  cases hsel : (selectPreferred vv a).has nid with
  | true => exact has_addEntries_of_has (roundRobinNodes_perm vv a) hsel
  | false =>
    apply (has_addEntries_iff (roundRobinNodes_perm vv a) hn hsel).mpr
    have hle := unselectedBefore_le_idxOf (roundRobinNodes vv a) (selectPreferred vv a) nid
    omega

/-- A node at the end of the window is not selected if the preferred node, which takes
    a slot, lies outside; nor is any node behind the window. -/
theorem not_has_roundRobin {nid : NodeID} (hn : vv.has nid = true)
    (hne : a.preferredNode.isEmpty = false) (hown : vv.has a.preferredNode = true)
    (hother : nid ≠ a.preferredNode)
    (hend : a.maxEntries - 1 ≤ (roundRobinNodes vv a).idxOf nid)
    (hout : (roundRobinNodes vv a).idxOf nid = a.maxEntries - 1 →
      a.maxEntries - 1 ≤ (roundRobinNodes vv a).idxOf a.preferredNode) :
    (selectSubset P vv a).has nid = false := by
  have hperm := roundRobinNodes_perm vv a
  have hnodup : (roundRobinNodes vv a).Nodup := hperm.nodup_iff.mpr vv.nodes_nodup
  have hsel : ∀ n, (selectPreferred vv a).has n = true ↔ n = a.preferredNode := fun n => by
    rw [has_selectPreferred_iff]
    constructor
    · exact fun h => h.2.1
    · intro h
      subst h
      exact ⟨hne, rfl, hown⟩
  have hnsel : (selectPreferred vv a).has nid = false := by
    rw [← Bool.not_eq_true, hsel]
    exact hother
  rw [selectSubset_roundRobin P hstrategy hpos hbig, ← Bool.not_eq_true, addRoundRobinEntries,
    has_addEntries_iff hperm hn hnsel, size_selectPreferred hne hown]
  -- count the other nodes before `nid`
  have hcount : unselectedBefore (roundRobinNodes vv a) (selectPreferred vv a) nid =
      ((roundRobinNodes vv a).take ((roundRobinNodes vv a).idxOf nid)).countP
        fun n => decide (n ≠ a.preferredNode) := by
    apply List.countP_congr
    intro n _
    simp [← hsel n]
  have hlen : ((roundRobinNodes vv a).take ((roundRobinNodes vv a).idxOf nid)).length =
      (roundRobinNodes vv a).idxOf nid := by
    rw [List.length_take]
    exact min_eq_left List.idxOf_le_length
  obtain ⟨hle, heq⟩ := List.length_sub_one_le_countP_ne
    (hnodup.sublist (List.take_sublist ((roundRobinNodes vv a).idxOf nid) _)) a.preferredNode
  rw [hlen] at hle heq
  rw [hcount]
  by_cases hlast : (roundRobinNodes vv a).idxOf nid = a.maxEntries - 1
  · -- the preferred node is not among those before it, so they use up all free slots
    have hnot : a.preferredNode ∉
        (roundRobinNodes vv a).take ((roundRobinNodes vv a).idxOf nid) := by
      rw [List.mem_take_iff_idxOf_lt (hperm.mem_iff.mpr ((mem_nodes vv _).mpr hown)), hlast]
      exact Nat.not_lt.mpr (hout hlast)
    rw [heq hnot]
    omega
  · -- behind the window even one node less before it is too many
    omega

end

namespace Core

/-! ## Round-robin coverage -/

section

variable (P : Platform) {cfg : Config} (m : ℕ → Moment) {c : Core}
  (hrr : cfg.stateVectorStrategy = .RoundRobin)
  (hlimit : syncLimit cfg c < c.vv.size)
include hrr hlimit

/-- Where the walk of call number `k` meets a node. -/
theorem idxOf_roundRobinNodes_afterBuilds {k d : ℕ} {nid : NodeID} (hn : c.vv.has nid = true)
    (hd : d < c.vv.size)
    (h : c.stateVectorCursor + k * syncLimit cfg c + d ≡ c.vv.nodes.idxOf nid [MOD c.vv.size]) :
    (roundRobinNodes c.vv (subsetArgs cfg (m k) (afterBuilds P cfg m c k)
      (syncLimit cfg c))).idxOf nid = d := by
  refine idxOf_roundRobinNodes hn hd (Nat.ModEq.trans (Nat.ModEq.add_right d ?_) h)
  have hcursor := orbit_afterBuilds P m hlimit (by simp [hrr]) k
  simpa [subsetArgs, hrr] using hcursor

variable (hlow : 2 ≤ syncLimit cfg c)
include hlow

/-- If the node has no id or the limit does not divide the number of entries, every
    entry is in one of any `n` consecutive vectors. -/
theorem roundRobin_covers (hcond : cfg.id.isEmpty = true ∨ ¬syncLimit cfg c ∣ c.vv.size)
    {nid : NodeID} (hn : c.vv.has nid = true) (k₀ : ℕ) :
    ∃ k, k₀ ≤ k ∧ k < k₀ + c.vv.size ∧ (builtVector P cfg m c k).has nid = true := by
  -- some cursor lies fewer than `gcd L n` positions before the node
  obtain ⟨k, hk₀, hkn, r, hr, hmod⟩ := Nat.exists_orbit_near (L := syncLimit cfg c)
    (n := c.vv.size) (by omega) (by omega) c.stateVectorCursor (c.vv.nodes.idxOf nid) k₀
  refine ⟨k, hk₀, hkn, ?_⟩
  have hgcd : Nat.gcd (syncLimit cfg c) c.vv.size ≤ syncLimit cfg c :=
    Nat.gcd_le_left _ (by omega)
  rw [builtVector_eq P m hlimit]
  refine has_roundRobin_of_idxOf_lt P ?_ ?_ hlimit hn ?_
  · simp [subsetArgs, effectiveStrategy, hrr]
  · simp only [subsetArgs]
    omega
  · rw [idxOf_roundRobinNodes_afterBuilds P m hrr hlimit hn (by omega) hmod]
    rcases hcond with hid | hdvd
    · -- without an id no slot is taken
      rw [selectPreferred_of_isEmpty (by exact hid), size_empty]
      simp only [subsetArgs]
      omega
    · -- the gcd is a proper divisor of the limit, so one slot may be missing
      have hne : Nat.gcd (syncLimit cfg c) c.vv.size ≠ syncLimit cfg c := fun h =>
        hdvd (h ▸ Nat.gcd_dvd_right _ _)
      have hsize := size_selectPreferred_le c.vv
        (subsetArgs cfg (m k) (afterBuilds P cfg m c k) (syncLimit cfg c))
      simp only [subsetArgs] at hsize ⊢
      omega

/-- If the limit divides the number of entries, the last entry of a window that does
    not hold the node's own entry is never sent. -/
theorem roundRobin_starves (hid : cfg.id.isEmpty = false) (hown : c.vv.has cfg.id = true)
    (hdvd : syncLimit cfg c ∣ c.vv.size) :
    ∃ nid, c.vv.has nid = true ∧ ∀ k, (builtVector P cfg m c k).has nid = false := by
  have hq : c.vv.nodes.idxOf cfg.id < c.vv.size := by
    rw [← length_nodes, List.idxOf_lt_length_iff, mem_nodes]
    exact hown
  -- the position that ends such a window in every call that comes near it
  obtain ⟨p, hp, hpq, hlast⟩ := Nat.exists_last_of_dvd (a := c.stateVectorCursor)
    (L := syncLimit cfg c) (by omega) hlimit hdvd hq
  rw [← length_nodes] at hp
  have hidx : c.vv.nodes.idxOf c.vv.nodes[p] = p := c.vv.nodes_nodup.idxOf_getElem p hp
  have hn : c.vv.has c.vv.nodes[p] = true := (mem_nodes c.vv _).mp (List.getElem_mem hp)
  refine ⟨c.vv.nodes[p], hn, fun k => ?_⟩
  -- where the walk of call `k` meets the two nodes
  obtain ⟨d, hd, hdmod⟩ := Nat.exists_lt_add_modEq (g := c.vv.size) (by omega)
    (c.stateVectorCursor + k * syncLimit cfg c) p
  obtain ⟨i, hi, himod⟩ := Nat.exists_lt_add_modEq (g := c.vv.size) (by omega)
    (c.stateVectorCursor + k * syncLimit cfg c) (c.vv.nodes.idxOf cfg.id)
  obtain ⟨hle, hout⟩ := hlast k d hdmod
  have hdidx := idxOf_roundRobinNodes_afterBuilds P m hrr hlimit hn hd (hidx.symm ▸ hdmod)
  have hiidx := idxOf_roundRobinNodes_afterBuilds P m hrr hlimit hown hi himod
  rw [builtVector_eq P m hlimit]
  refine not_has_roundRobin P ?_ ?_ hlimit hn hid hown ?_ ?_ ?_
  · simp [subsetArgs, effectiveStrategy, hrr]
  · simp only [subsetArgs]
    omega
  · intro heq
    have heq' : c.vv.nodes[p] = cfg.id := heq
    exact hpq (by rw [← heq', hidx])
  · rw [hdidx]
    exact hle
  · rw [hdidx]
    intro hend
    exact hiidx.symm ▸ hout hend i himod

/-- Any `n` consecutive calls cover the `n` entries of a vector that contains the node's
    own iff the node has no id or the limit does not divide `n`. -/
theorem roundRobin_covers_iff (hown : c.vv.has cfg.id = true) :
    (∀ nid, c.vv.has nid = true → ∃ k < c.vv.size, (builtVector P cfg m c k).has nid = true) ↔
      cfg.id.isEmpty = true ∨ ¬syncLimit cfg c ∣ c.vv.size := by
  constructor
  · intro hall
    by_contra hcond
    rw [not_or, not_not, Bool.not_eq_true] at hcond
    obtain ⟨nid, hn, hstarved⟩ :=
      roundRobin_starves P m hrr hlimit hlow hcond.1 hown hcond.2
    obtain ⟨k, -, hk⟩ := hall nid hn
    rw [hstarved k] at hk
    cases hk
  · intro hcond nid hn
    obtain ⟨k, -, hk, hhas⟩ := roundRobin_covers P m hrr hlimit hlow hcond hn 0
    exact ⟨k, by omega, hhas⟩

end

/-- Node `a`, which sends two entries in rotation. -/
def rotatingPair : Config where
  id := .ofBytes [[97]]
  stateVectorStrategy := .RoundRobin
  maxStateVectorEntries := 2
  enableCoordinatedSync := false

/-- Of four entries, sent two at a time, the last is never sent. -/
theorem not_roundRobin_covers :
    ¬∀ (P : Platform) (cfg : Config) (m : ℕ → Moment) (c : Core),
      cfg.stateVectorStrategy = .RoundRobin → 2 ≤ syncLimit cfg c → syncLimit cfg c < c.vv.size →
      c.vv.has cfg.id = true → ∀ nid, c.vv.has nid = true →
      ∃ k < c.vv.size, (builtVector P cfg m c k).has nid = true := by
  intro h
  obtain ⟨k, hk, hhas⟩ := h .plain rotatingPair (fun _ => .atMs 0)
    (knowing rotatingPair [97, 98, 99, 100]) rfl (by decide +kernel) (by decide +kernel)
    (by decide) (.ofBytes [[100]]) (by decide)
  have hsize : (knowing rotatingPair [97, 98, 99, 100]).vv.size = 4 := by decide
  have hnever : ∀ k < 4, (builtVector .plain rotatingPair (fun _ => .atMs 0)
      (knowing rotatingPair [97, 98, 99, 100]) k).has (.ofBytes [[100]]) = false := by
    decide +kernel
  rw [hnever k (hsize ▸ hk)] at hhas
  cases hhas

/-- Of five entries every one is. -/
theorem roundRobin_covers_iff_five :
    (knowing rotatingPair [97, 98, 99, 100, 101]).vv.size = 5 ∧
    ∀ nid, (knowing rotatingPair [97, 98, 99, 100, 101]).vv.has nid = true →
      ∃ k < (knowing rotatingPair [97, 98, 99, 100, 101]).vv.size,
        (builtVector .plain rotatingPair (fun _ => .atMs 0)
          (knowing rotatingPair [97, 98, 99, 100, 101]) k).has nid = true := by
  refine ⟨by decide, ?_⟩
  exact (roundRobin_covers_iff .plain (fun _ => .atMs 0) rfl (by decide +kernel)
    (by decide +kernel) (by decide +kernel)).mpr (Or.inr (by decide +kernel))

end Core

end Svs
