import Svs.ForStd.Run
import Svs.Spec.StepCorrect

/-!
# The bounds of the period

`updateSyncInterval` moves the period between a floor, which is never below
`m_minPeriodicSyncTime`, and `m_maxPeriodicSyncTime`.  Under the strategy `Full` the
floor grows with the vector, past the ceiling at the 1589th entry, and `std::clamp` with
such bounds is undefined.  Nothing below depends on the values that are clamped.

## Key results

- `lt_intervalFloor_iff`: when the floor is above the ceiling
- `TimersBounded.step`: steps with valid bounds keep the period within its bounds
- `timersBounded_iff`: the runs in which all bounds are valid and are kept
-/

namespace Svs.Core

open VersionVector

/-! ## The calls of `std::clamp` -/

/-- `updateSyncInterval` is within 220 milliseconds of the last adjustment. -/
def RateLimited (m : Moment) (c : Core) : Prop :=
  c.lastTimerAdjustUs ≠ 0 ∧ m.currentTime - c.lastTimerAdjustUs < 220000

instance (m : Moment) (c : Core) : Decidable (RateLimited m c) :=
  inferInstanceAs (Decidable (_ ∧ _))

/-- The bounds of the calls of `std::clamp` in `refreshNetworkAwareTimerState`. -/
def refreshBounds (cfg : Config) : List (Int × Int) :=
  if cfg.timerMode ≠ .NetworkAware then []
  else [(40, 1200), (cfg.networkAwareMinPeriodicSyncTime, 5000)]

/-- The bounds of the calls of `std::clamp` in `updateSyncInterval`, for the target and
    for the period. -/
def intervalBounds (cfg : Config) (m : Moment) (c : Core) : List (Int × Int) :=
  if cfg.timerMode ≠ .NetworkAware ∨ RateLimited m c then []
  else [(intervalFloor cfg c, maxPeriodicSyncTime), (intervalFloor cfg c, maxPeriodicSyncTime)]

/-- The state in which a step calls `updateSyncInterval`, if it does. -/
def adjusted (cfg : Config) (m : Moment) (e : Event) (c : Core) : Option Core :=
  match e with
  | .syncInterest vvOther _ =>
    some (mergeStateVector m vvOther (observePropagationFeedback cfg m vvOther c)).1
  | .updateSeqNo seq nid =>
    if c.vv.get (targetNode cfg nid) < seq then
      some { c with vv := c.vv.set (targetNode cfg nid) seq m.now }
    else none
  | .start | .retx => none

/-- The bounds of the calls of `std::clamp` in a step, those of
    `refreshNetworkAwareTimerState` also where no feedback is sampled. -/
def clampBounds (cfg : Config) (m : Moment) (e : Event) (c : Core) : List (Int × Int) :=
  refreshBounds cfg ++ (adjusted cfg m e c).toList.flatMap (intervalBounds cfg m)

/-- `std::clamp` is defined for the bounds. -/
def ValidBounds (bounds : List (Int × Int)) : Prop := ∀ b ∈ bounds, b.1 ≤ b.2

/-- The period is within its bounds. -/
structure TimersBounded (c : Core) : Prop where
  min_le : c.minPeriodicSyncTime ≤ c.periodicSyncTime
  le_max : c.periodicSyncTime ≤ maxPeriodicSyncTime

variable {P : Platform} {cfg : Config} {m : Moment} {c c' : Core}

/-! ## `updateSyncInterval` -/

theorem le_intervalFloor (cfg : Config) (c : Core) : c.minPeriodicSyncTime ≤ intervalFloor cfg c := by
  unfold intervalFloor
  split
  · exact le_max_left _ _
  · split
    · exact le_max_left _ _
    · exact le_rfl

/-- Only the strategy `Full` lets the floor pass the ceiling, from 1589 entries on. -/
theorem lt_intervalFloor_iff (hmin : c.minPeriodicSyncTime ≤ maxPeriodicSyncTime) :
    maxPeriodicSyncTime < intervalFloor cfg c ↔
      cfg.stateVectorStrategy = .Full ∧ 1588 < c.vv.size := by
  unfold intervalFloor maxPeriodicSyncTime at *
  split
  · next hfull =>
    rw [lt_max_iff]
    simp only [hfull, true_and]
    omega
  · next hfull =>
    -- at most 64 entries count
    simp only [hfull, false_and, iff_false, not_lt]
    split <;> omega

theorem TimersBounded.min_le_max (h : TimersBounded c) :
    c.minPeriodicSyncTime ≤ maxPeriodicSyncTime :=
  h.min_le.trans h.le_max

/-- The calls of `std::clamp` are valid unless a network-aware node with the strategy
    `Full` adjusts its period with more than 1588 entries. -/
theorem validBounds_intervalBounds_iff (hmin : c.minPeriodicSyncTime ≤ maxPeriodicSyncTime) :
    ValidBounds (intervalBounds cfg m c) ↔
      ¬(cfg.timerMode = .NetworkAware ∧ ¬RateLimited m c ∧ cfg.stateVectorStrategy = .Full ∧
        1588 < c.vv.size) := by
  rw [← lt_intervalFloor_iff hmin, intervalBounds]
  split
  · next hnone =>
    have hvalid : ValidBounds [] := by simp [ValidBounds]
    grind
  · next hsome =>
    have hvalid : ValidBounds [(intervalFloor cfg c, maxPeriodicSyncTime),
        (intervalFloor cfg c, maxPeriodicSyncTime)] ↔ intervalFloor cfg c ≤ maxPeriodicSyncTime := by
      simp [ValidBounds]
    rw [hvalid]
    grind

theorem TimersBounded.updateSyncInterval (h : TimersBounded c)
    (hvalid : ValidBounds (intervalBounds cfg m c)) (signal : SyncSignal) :
    TimersBounded (updateSyncInterval cfg m signal c) := by
  have hfloor := le_intervalFloor cfg c
  unfold Core.updateSyncInterval
  split
  · exact h
  · next hmode =>
    dsimp only
    split
    · -- too soon after the last adjustment: only a period that is too long is shortened
      split
      · next hrepair =>
        -- halfway from the period to the floor, which is below it
        have htdiv := Int.tdiv_eq_ediv_of_nonneg (a := c.periodicSyncTime - intervalFloor cfg c)
          (b := 2) (by omega)
        have hmax := h.le_max
        constructor <;> dsimp only <;> omega
      · exact h
    · next hlimit =>
      split
      · next hadaptive =>
        unfold adaptInterval
        exact ⟨le_min h.min_le_max (le_max_left _ _), min_le_left _ _⟩
      · next hadaptive =>
        -- the call is one of those whose bounds are valid
        have hbounds : intervalFloor cfg c ≤ maxPeriodicSyncTime := by
          have haware : cfg.timerMode = .NetworkAware := by
            cases hm : cfg.timerMode with
            | Fixed => exact absurd hm hmode
            | Adaptive => exact absurd hm hadaptive
            | NetworkAware => rfl
          apply hvalid (intervalFloor cfg c, maxPeriodicSyncTime)
          rw [intervalBounds, if_neg (by simp [haware, RateLimited, hlimit])]
          exact List.mem_cons_self
        obtain ⟨hlo, hhi⟩ := clamp_mem (llround ((1 - intervalAlpha cfg signal) * c.periodicSyncTime +
          intervalAlpha cfg signal * (clamp (llround (3 * max 40 c.feedbackDelayMs +
            22 / 10 * max 15 c.feedbackJitterMs + 320 + 220 * cfg.linkLossRate))
              (intervalFloor cfg c) maxPeriodicSyncTime : Int))) hbounds
        exact ⟨hfloor.trans hlo, hhi⟩

/-! ## Feedback -/

theorem TimersBounded.of_eq (h : TimersBounded c)
    (hmin : c'.minPeriodicSyncTime = c.minPeriodicSyncTime)
    (hperiod : c'.periodicSyncTime = c.periodicSyncTime) : TimersBounded c' := by
  constructor
  · rw [hmin, hperiod]
    exact h.min_le
  · rw [hperiod]
    exact h.le_max

theorem validBounds_refreshBounds (hmin : cfg.networkAwareMinPeriodicSyncTime ≤ 5000) :
    ValidBounds (refreshBounds cfg) := by
  unfold refreshBounds
  split
  · simp [ValidBounds]
  · simp [ValidBounds, hmin]

/-- Raising the period to the minimum, then lowering it to the maximum. -/
theorem timersBounded_clampPeriod (c : Core) (h : c.minPeriodicSyncTime ≤ maxPeriodicSyncTime) :
    TimersBounded
      { c with
        periodicSyncTime :=
          if (if c.periodicSyncTime < c.minPeriodicSyncTime then c.minPeriodicSyncTime
            else c.periodicSyncTime) > maxPeriodicSyncTime then maxPeriodicSyncTime
          else if c.periodicSyncTime < c.minPeriodicSyncTime then c.minPeriodicSyncTime
          else c.periodicSyncTime } := by
  constructor <;> dsimp only <;> split <;> omega

/-- A new minimum takes the period along. -/
theorem TimersBounded.refreshNetworkAwareTimerState (h : TimersBounded c)
    (hmin : cfg.networkAwareMinPeriodicSyncTime ≤ 5000) :
    TimersBounded (refreshNetworkAwareTimerState cfg true c) := by
  unfold Core.refreshNetworkAwareTimerState
  split
  · exact h
  · -- the new minimum is at most 5000
    have hle := (clamp_mem (llround (22 / 10 * max 40 c.feedbackDelayMs +
      18 / 10 * max 15 c.feedbackJitterMs + 160 + 120 * cfg.linkLossRate)) hmin).2
    exact timersBounded_clampPeriod { c with maxSuppressionTime := _, minPeriodicSyncTime := _ }
      (hle.trans (by norm_num [maxPeriodicSyncTime]))

theorem TimersBounded.observePropagationFeedback (h : TimersBounded c)
    (hmin : cfg.networkAwareMinPeriodicSyncTime ≤ 5000) (m : Moment) (vvOther : VersionVector) :
    TimersBounded (observePropagationFeedback cfg m vvOther c) := by
  unfold Core.observePropagationFeedback
  split
  · exact h
  · dsimp only
    split
    · exact h
    · split
      · exact h.of_eq rfl rfl
      · -- the sample changes the feedback, and that the minimum
        refine TimersBounded.refreshNetworkAwareTimerState ?_ hmin
        split <;> exact h.of_eq rfl rfl

/-- The constructor leaves the period within its bounds, whatever it is told to start with. -/
theorem timersBounded_init (hmin : cfg.networkAwareMinPeriodicSyncTime ≤ 5000) (uninitialized : Int) :
    TimersBounded (init cfg uninitialized) := by
  unfold init
  apply timersBounded_clampPeriod
  split
  · next haware =>
    unfold Core.refreshNetworkAwareTimerState
    rw [if_neg (by simp [haware])]
    refine (clamp_mem _ hmin).2.trans ?_
    norm_num [maxPeriodicSyncTime]
  · norm_num [maxPeriodicSyncTime]

/-! ## The other handlers -/

/-- The members that bound the period, and the period, stay as they are. -/
structure SameTimers (c c' : Core) : Prop where
  minPeriodicSyncTime : c'.minPeriodicSyncTime = c.minPeriodicSyncTime
  periodicSyncTime : c'.periodicSyncTime = c.periodicSyncTime

theorem SameTimers.refl (c : Core) : SameTimers c c := ⟨rfl, rfl⟩

theorem SameTimers.trans {c₁ c₂ c₃ : Core} (h₁ : SameTimers c₁ c₂) (h₂ : SameTimers c₂ c₃) :
    SameTimers c₁ c₃ :=
  ⟨h₂.minPeriodicSyncTime.trans h₁.minPeriodicSyncTime,
    h₂.periodicSyncTime.trans h₁.periodicSyncTime⟩

theorem TimersBounded.of_same (h : TimersBounded c) (hsame : SameTimers c c') : TimersBounded c' :=
  h.of_eq hsame.minPeriodicSyncTime hsame.periodicSyncTime

theorem sameTimers_mergeStateVector (m : Moment) (vvOther : VersionVector) (c : Core) :
    SameTimers c (mergeStateVector m vvOther c).1 := by
  rw [mergeStateVector_fst]
  exact ⟨rfl, rfl⟩

theorem sameTimers_retxSyncInterest (P : Platform) (cfg : Config) (m : Moment) (delay : Nat)
    (c : Core) : SameTimers c (retxSyncInterest P cfg m true delay c).1 := by
  obtain ⟨_, _, _, _, _, _, _, _, _, _, hretx⟩ := retxSyncInterest_writes P cfg m delay (c := c)
  rw [hretx]
  exact ⟨rfl, rfl⟩

theorem sameTimers_processVector (P : Platform) (cfg : Config) (m : Moment) (vvOther : VersionVector)
    (face : UInt64) (c : Core) :
    SameTimers (received cfg m vvOther c) (processVector P cfg m vvOther face c).1 := by
  obtain ⟨_, _, _, hprocess⟩ := processVector_writes P cfg m vvOther face (c := c)
  rw [hprocess]
  exact ⟨rfl, rfl⟩

/-! ## Runs -/

/-- Every step with valid bounds keeps the period within its own. -/
theorem TimersBounded.step (h : TimersBounded c)
    (hmin : cfg.networkAwareMinPeriodicSyncTime ≤ 5000) {e : Event}
    (hvalid : ValidBounds (clampBounds cfg m e c)) : TimersBounded (step P cfg m e c).1 := by
  cases e with
  | start =>
    have hinit : TimersBounded { c with initialized := true } := h.of_eq rfl rfl
    exact hinit.of_same (sameTimers_retxSyncInterest P cfg m 0 _)
  | syncInterest vvOther face =>
    have hobserved := h.observePropagationFeedback hmin m vvOther
    have hmerged := hobserved.of_same (sameTimers_mergeStateVector m vvOther _)
    refine (hmerged.updateSyncInterval ?_ _).of_same (sameTimers_processVector P cfg m vvOther face c)
    intro b hb
    apply hvalid b
    simpa [clampBounds, adjusted] using .inr hb
  | retx => exact h.of_same (sameTimers_retxSyncInterest P cfg m 0 c)
  | updateSeqNo seq nid =>
    rw [Core.step, Core.updateSeqNo]
    dsimp only
    split
    · next hlt =>
      have hset : TimersBounded { c with vv := c.vv.set (targetNode cfg nid) seq m.now } :=
        h.of_eq rfl rfl
      refine TimersBounded.of_eq (hset.updateSyncInterval ?_ .LocalUpdate) rfl rfl
      intro b hb
      apply hvalid b
      simpa [clampBounds, adjusted, if_pos hlt] using .inr hb
    · exact h.of_eq rfl rfl

/-- The step has a network-aware node with the strategy `Full` adjust its period to more
    than 1588 entries. -/
def Overfull (cfg : Config) (m : Moment) (e : Event) (c : Core) : Prop :=
  cfg.timerMode = .NetworkAware ∧ cfg.stateVectorStrategy = .Full ∧ ¬RateLimited m c ∧
    match e with
    | .syncInterest vvOther _ => 1588 < (raiseEntries m c.vv vvOther).size
    | .updateSeqNo seq nid =>
      c.vv.get (targetNode cfg nid) < seq ∧ 1588 < (c.vv.set (targetNode cfg nid) seq m.now).size
    | .start | .retx => False

theorem lastTimerAdjustUs_observePropagationFeedback (cfg : Config) (m : Moment)
    (vvOther : VersionVector) (c : Core) :
    (observePropagationFeedback cfg m vvOther c).lastTimerAdjustUs = c.lastTimerAdjustUs := by
  obtain ⟨_, _, _, _, _, _, _, hobserve⟩ := observePropagationFeedback_writes cfg m c vvOther
  rw [hobserve]

/-- The bounds in a step are valid unless the step is overfull. -/
theorem TimersBounded.validBounds_iff (h : TimersBounded c)
    (hmin : cfg.networkAwareMinPeriodicSyncTime ≤ 5000) (m : Moment) (e : Event) :
    ValidBounds (clampBounds cfg m e c) ↔ ¬Overfull cfg m e c := by
  have hcall : ValidBounds (clampBounds cfg m e c) ↔
      ∀ c' ∈ adjusted cfg m e c, ValidBounds (intervalBounds cfg m c') := by
    constructor
    · intro hvalid c' hc' b hb
      apply hvalid b
      exact List.mem_append_right _ (List.mem_flatMap.mpr ⟨c', Option.mem_toList.mpr hc', hb⟩)
    · intro hvalid b hb
      rcases List.mem_append.mp hb with hb | hb
      · exact validBounds_refreshBounds hmin b hb
      · obtain ⟨c', hc', hb⟩ := List.mem_flatMap.mp hb
        exact hvalid c' (Option.mem_toList.mp hc') b hb
  rw [hcall]
  cases e with
  | start | retx => simp [adjusted, Overfull]
  | syncInterest vvOther face =>
    have hmerged := (h.observePropagationFeedback hmin m vvOther).of_same
      (sameTimers_mergeStateVector m vvOther _)
    have hvv := (sameSync_observePropagationFeedback cfg m c vvOther).vv
    have hlast := lastTimerAdjustUs_observePropagationFeedback cfg m vvOther c
    simp only [adjusted, Option.mem_some_iff, forall_eq']
    -- the call sees the entries after the merge, and the time of the last adjustment before
    rw [validBounds_intervalBounds_iff hmerged.min_le_max, mergeStateVector_fst]
    simp only [RateLimited, Overfull, hvv, hlast]
    tauto
  | updateSeqNo seq nid =>
    by_cases hlt : c.vv.get (targetNode cfg nid) < seq
    · have hset : TimersBounded { c with vv := c.vv.set (targetNode cfg nid) seq m.now } :=
        h.of_eq rfl rfl
      simp only [adjusted, if_pos hlt, Option.mem_some_iff, forall_eq']
      rw [validBounds_intervalBounds_iff hset.min_le_max]
      simp only [RateLimited, Overfull, hlt, true_and]
      tauto
    · simp [adjusted, Overfull, hlt]

/-- One step of a run, without its effects. -/
def next (P : Platform) (cfg : Config) (e : Moment × Event) (c : Core) : Core :=
  (Core.step P cfg e.1 e.2 c).1

/-- The step calls `std::clamp` with valid bounds only, and ends with a bounded period. -/
def StaysBounded (P : Platform) (cfg : Config) (e : Moment × Event) (c : Core) : Prop :=
  ValidBounds (clampBounds cfg e.1 e.2 c) ∧ TimersBounded (next P cfg e c)

/-- The constructor and all steps of a run are valid and keep the bounds, just when no
    step is overfull. -/
theorem timersBounded_iff (hmin : cfg.networkAwareMinPeriodicSyncTime ≤ 5000) (uninitialized : Int)
    (events : List (Moment × Event)) :
    (ValidBounds (refreshBounds cfg) ∧ TimersBounded (init cfg uninitialized) ∧
      Run.Always (next P cfg) (StaysBounded P cfg) events (init cfg uninitialized)) ↔
      Run.Always (next P cfg) (fun e c => ¬Overfull cfg e.1 e.2 c) events
        (init cfg uninitialized) := by
  have hinit := timersBounded_init hmin uninitialized
  rw [and_iff_right (validBounds_refreshBounds hmin), and_iff_right hinit]
  constructor
  · intro hstays
    apply hstays.imp hinit
    · intro e c _ h
      exact h.2
    · intro e c hc h
      exact (hc.validBounds_iff hmin e.1 e.2).mp h.1
  · intro hfits
    apply hfits.imp hinit
    · intro e c hc h
      exact hc.step hmin ((hc.validBounds_iff hmin e.1 e.2).mpr h)
    · intro e c hc h
      have hvalid := (hc.validBounds_iff hmin e.1 e.2).mpr h
      exact ⟨hvalid, hc.step hmin hvalid⟩

/-- The default configuration, through an update and a received vector. -/
theorem timersBounded_default :
    ValidBounds (refreshBounds {}) ∧ TimersBounded (init {} 0) ∧
      Run.Always (next .plain {}) (StaysBounded .plain {})
        [(.atMs 1000, .updateSeqNo 1 EMPTY_NODE_ID), (.atMs 2000, .syncInterest .empty 0)]
        (init {} 0) :=
  (timersBounded_iff (by norm_num) 0 _).mpr (by simp [Run.Always, Overfull])

/-! ## Too many entries -/

/-- Node `i` of a crowd. -/
def crowdNode (i : Nat) : NodeID := ⟨[⟨8, [UInt8.ofNat (i / 256), UInt8.ofNat (i % 256)]⟩]⟩

/-- A vector in which each node of a crowd has published once. -/
def crowd (n : Nat) : VersionVector :=
  (List.range n).foldl (fun vv i => vv.set (crowdNode i) 1 0) .empty

theorem get_crowd {n i : Nat} (hi : i < n) : (crowd n).get (crowdNode i) = 1 := by
  induction n with
  | zero => omega
  | succ n ih =>
    rw [crowd, List.range_succ, List.foldl_append, List.foldl_cons, List.foldl_nil, get_set]
    split
    · rfl
    · next hne =>
      apply ih
      have : i ≠ n := by
        intro heq
        exact hne (by rw [heq])
      omega

theorem nodup_crowd {n : Nat} (hn : n ≤ 65536) : ((List.range n).map crowdNode).Nodup := by
  apply List.Nodup.map_on _ List.nodup_range
  intro i hi j hj heq
  rw [List.mem_range] at hi hj
  simp only [crowdNode, Name.mk.injEq, List.cons.injEq, Component.mk.injEq, true_and, and_true] at heq
  obtain ⟨hhigh, hlow⟩ := heq
  have hhigh' := congrArg UInt8.toNat hhigh
  have hlow' := congrArg UInt8.toNat hlow
  simp only [UInt8.toNat_ofNat'] at hhigh' hlow'
  omega

/-- A node that knows nobody merges a crowd, and has as many entries. -/
theorem le_size_raiseEntries_crowd {n : Nat} (hn : n ≤ 65536) (m : Moment) :
    n ≤ (raiseEntries m .empty (crowd n)).size := by
  have hsub : (List.range n).map crowdNode ⊆ (raiseEntries m .empty (crowd n)).nodes := by
    intro nid hnid
    obtain ⟨i, hi, rfl⟩ := List.mem_map.mp hnid
    rw [mem_nodes, (raiseEntries_spec m _ _ _).2.2, get_crowd (List.mem_range.mp hi), get_empty]
    exact .inr (by decide)
  have hle := ((nodup_crowd hn).subperm hsub).length_le
  rwa [List.length_map, List.length_range, length_nodes] at hle

/-- A network-aware node with the strategy `Full` receives a vector of 1589 entries. -/
theorem not_validBounds_crowd :
    ¬ValidBounds (clampBounds { stateVectorStrategy := .Full } (.atMs 1000)
      (.syncInterest (crowd 1589) 0) (init { stateVectorStrategy := .Full } 0)) := by
  have hmin : ({ stateVectorStrategy := .Full } : Config).networkAwareMinPeriodicSyncTime ≤ 5000 := by
    norm_num
  rw [(timersBounded_init hmin 0).validBounds_iff hmin, not_not]
  refine ⟨rfl, rfl, by decide, ?_⟩
  rw [(init_frame _ 0).1]
  exact le_size_raiseEntries_crowd (by norm_num) _

end Svs.Core
