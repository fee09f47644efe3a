import Svs.Spec.PartialVector

/-!
# The minimum send gap

Only `retxSyncInterest` transmits, and only when the minimum gap has passed since the
time that `sendSyncInterest` stored.  `hotness` could halve the gap; nothing writes
`m_hotspotScore`, and the activity is at most 1, so it never does.

## Key results

- `Calm.step`: every transition keeps the scores bounded
- `step_transmits`: what a transition sends, and when
- `transmissions_apart`: any two transmissions of a run are a gap apart
-/

namespace Svs.Core

open VersionVector

variable {P : Platform} {cfg : Config} {m : Moment} {c c' : Core}

/-! ## Hotness -/

/-- `m_hotspotScore` is 0, and the activity lies between 0 and 1. -/
structure Calm (c : Core) : Prop where
  hotspotScore : c.hotspotScore = 0
  nonneg : 0 ≤ c.activityScore
  le_one : c.activityScore ≤ 1

/-- The scores and the time of the last transmission stay as they are. -/
structure SameGap (c c' : Core) : Prop where
  hotspotScore : c'.hotspotScore = c.hotspotScore
  activityScore : c'.activityScore = c.activityScore
  lastSyncTxUs : c'.lastSyncTxUs = c.lastSyncTxUs

theorem SameGap.refl (c : Core) : SameGap c c := ⟨rfl, rfl, rfl⟩

theorem SameGap.trans {c₁ c₂ c₃ : Core} (h₁ : SameGap c₁ c₂) (h₂ : SameGap c₂ c₃) :
    SameGap c₁ c₃ :=
  ⟨h₂.hotspotScore.trans h₁.hotspotScore, h₂.activityScore.trans h₁.activityScore,
    h₂.lastSyncTxUs.trans h₁.lastSyncTxUs⟩

theorem Calm.of_eq (h : Calm c) (hhot : c'.hotspotScore = c.hotspotScore)
    (hact : c'.activityScore = c.activityScore) : Calm c' := by
  constructor
  · rw [hhot]
    exact h.hotspotScore
  · rw [hact]
    exact h.nonneg
  · rw [hact]
    exact h.le_one

theorem Calm.timerHotness_le (h : Calm c) :
    timerHotness c.hotspotScore c.activityScore ≤ 35 / 100 := by
  have hnonneg := h.nonneg
  have hle := h.le_one
  rw [timerHotness, h.hotspotScore, clamp, if_neg (by linarith), if_neg (by linarith)]
  linarith

/-- A calm node never shortens the gap. -/
theorem Calm.minGapUs_eq (h : Calm c) (cfg : Config) : minGapUs cfg c = cfg.minSendInterval * 1000 := by
  have hle := h.timerHotness_le
  rw [minGapUs]
  apply if_neg
  intro hhot
  have hlt := hhot.2.2
  linarith

/-- The four signals all leave the activity between 0 and 1. -/
theorem Calm.adaptInterval (h : Calm c) (signal : SyncSignal) (floorMs : Int) :
    Calm (adaptInterval signal floorMs c) := by
  have hnonneg := h.nonneg
  have hle := h.le_one
  constructor
  · exact h.hotspotScore
  · cases signal with
    | Idle => exact mul_nonneg hnonneg (by norm_num)
    | RemoteUpdate | RepairNeeded | LocalUpdate => exact le_min zero_le_one (by positivity)
  · cases signal with
    | Idle => exact mul_le_one₀ hle (by norm_num) (by norm_num)
    | RemoteUpdate | RepairNeeded | LocalUpdate => exact min_le_left _ _

theorem Calm.updateSyncInterval (h : Calm c) (m : Moment) (signal : SyncSignal) :
    Calm (updateSyncInterval cfg m signal c) := by
  unfold Core.updateSyncInterval
  split
  · exact h
  · dsimp only
    split
    · split
      · exact h.of_eq rfl rfl
      · exact h
    · have hadjusted : Calm { c with lastTimerAdjustUs := m.currentTime } := h.of_eq rfl rfl
      split
      · exact hadjusted.adaptInterval signal _
      · exact hadjusted.of_eq rfl rfl

theorem lastSyncTxUs_updateSyncInterval (cfg : Config) (m : Moment) (signal : SyncSignal) (c : Core) :
    (updateSyncInterval cfg m signal c).lastSyncTxUs = c.lastSyncTxUs := by
  obtain ⟨_, _, _, hinterval⟩ := updateSyncInterval_writes cfg m c signal
  rw [hinterval]

/-! ## The functions that leave the scores alone -/

theorem sameGap_refreshNetworkAwareTimerState (cfg : Config) (clampCurrentPeriod : Bool) (c : Core) :
    SameGap c (refreshNetworkAwareTimerState cfg clampCurrentPeriod c) := by
  obtain ⟨_, _, _, hrefresh⟩ := refreshNetworkAwareTimerState_writes cfg c clampCurrentPeriod
  rw [hrefresh]
  exact ⟨rfl, rfl, rfl⟩

theorem sameGap_observePropagationFeedback (cfg : Config) (m : Moment) (vvOther : VersionVector)
    (c : Core) : SameGap c (observePropagationFeedback cfg m vvOther c) := by
  obtain ⟨_, _, _, _, _, _, _, hobserve⟩ := observePropagationFeedback_writes cfg m c vvOther
  rw [hobserve]
  exact ⟨rfl, rfl, rfl⟩

theorem sameGap_mergeStateVector (m : Moment) (vvOther : VersionVector) (c : Core) :
    SameGap c (mergeStateVector m vvOther c).1 := by
  rw [mergeStateVector_fst]
  exact ⟨rfl, rfl, rfl⟩

theorem calm_init (cfg : Config) (uninitialized : Int) :
    Calm (init cfg uninitialized) ∧ (init cfg uninitialized).lastSyncTxUs = 0 := by
  have hstart : Calm { periodicSyncTime := 0, nextSyncInterest := 0 } :=
    ⟨rfl, le_rfl, zero_le_one⟩
  unfold init
  dsimp only
  split
  · have hsame := sameGap_refreshNetworkAwareTimerState cfg true
    exact ⟨hstart.of_eq (hsame _).hotspotScore (hsame _).activityScore, (hsame _).lastSyncTxUs⟩
  · exact ⟨hstart.of_eq rfl rfl, rfl⟩

/-! ## One transition -/

/-- `sendSyncInterest` does nothing, or transmits one vector and stores the time. -/
theorem sendSyncInterest_transmits (P : Platform) (cfg : Config) (m : Moment) (c : Core) :
    sendSyncInterest P cfg m c = (c, []) ∨
      (∃ vv, (sendSyncInterest P cfg m c).2 = [.expressInterest vv]) ∧
        SameGap { c with lastSyncTxUs := m.currentTime } (sendSyncInterest P cfg m c).1 := by
  obtain ⟨_, _, _, _, hbuild⟩ := buildSyncVector_writes P cfg m c
  unfold sendSyncInterest
  split
  · exact Or.inl rfl
  · refine Or.inr ⟨⟨_, rfl⟩, ?_⟩
    dsimp only
    rw [hbuild]
    obtain ⟨_, hrecord⟩ := recordPropagationFeedbackSend_writes cfg _ _ _
    rw [hrecord]
    exact ⟨rfl, rfl, rfl⟩

/-- What a handler sends at a moment: nothing, and then the stored time stays, or one
    vector past the gap, and then it is that of the moment. -/
def Transmits (cfg : Config) (m : Moment) (c c' : Core) (effects : List Effect) : Prop :=
  sentVectors effects = [] ∧ c'.lastSyncTxUs = c.lastSyncTxUs ∨
    (∃ vv, sentVectors effects = [vv]) ∧ withinGap cfg m c = false ∧
      c'.lastSyncTxUs = m.currentTime

theorem transmits_of_same {effects : List Effect} (hsame : c'.lastSyncTxUs = c.lastSyncTxUs)
    (hnone : sentVectors effects = []) : Transmits cfg m c c' effects :=
  Or.inl ⟨hnone, hsame⟩

/-- A firing past the gap. -/
theorem sendUnlessSuppressed_transmits (hgap : withinGap cfg m c = false) :
    Transmits cfg m c (sendUnlessSuppressed P cfg m c).1 (sendUnlessSuppressed P cfg m c).2 ∧
      (sendUnlessSuppressed P cfg m c).1.hotspotScore = c.hotspotScore ∧
      (sendUnlessSuppressed P cfg m c).1.activityScore = c.activityScore := by
  -- for the state itself, and for the state merged with the recorded vector
  have hsend : ∀ c₁ c₂ : Core, SameGap c c₁ → SameGap (sendSyncInterest P cfg m c₁).1 c₂ →
      Transmits cfg m c c₂ (sendSyncInterest P cfg m c₁).2 ∧
        c₂.hotspotScore = c.hotspotScore ∧ c₂.activityScore = c.activityScore := by
    intro c₁ c₂ h₁ h₂
    rcases sendSyncInterest_transmits P cfg m c₁ with hnone | ⟨⟨vv, hsent⟩, hsame⟩
    · rw [hnone] at h₂ ⊢
      have h := h₁.trans h₂
      exact ⟨transmits_of_same h.lastSyncTxUs rfl, h.hotspotScore, h.activityScore⟩
    · have h := hsame.trans h₂
      rw [hsent]
      exact ⟨Or.inr ⟨⟨vv, rfl⟩, hgap, h.lastSyncTxUs⟩, h.hotspotScore.trans h₁.hotspotScore,
        h.activityScore.trans h₁.activityScore⟩
  cases hr : c.recordedVv with
  | none =>
    rw [sendUnlessSuppressed_of_none P cfg m hr]
    exact hsend c _ (.refl c) (.refl _)
  | some r =>
    have hmerge := sameGap_mergeStateVector m r c
    rw [sendUnlessSuppressed_of_some P cfg m hr]
    split
    · exact hsend _ _ hmerge ⟨rfl, rfl, rfl⟩
    · exact ⟨transmits_of_same hmerge.lastSyncTxUs rfl, hmerge.hotspotScore, hmerge.activityScore⟩

theorem retxSyncInterest_transmits (P : Platform) (cfg : Config) (m : Moment) (delay : Nat) (c : Core) :
    Transmits cfg m c (retxSyncInterest P cfg m true delay c).1
        (retxSyncInterest P cfg m true delay c).2 ∧
      (retxSyncInterest P cfg m true delay c).1.hotspotScore = c.hotspotScore ∧
      (retxSyncInterest P cfg m true delay c).1.activityScore = c.activityScore := by
  cases hgap : withinGap cfg m c with
  | true =>
    obtain ⟨delay', hretx⟩ := retxSyncInterest_withinGap P cfg m delay hgap
    rw [hretx]
    exact ⟨transmits_of_same rfl rfl, rfl, rfl⟩
  | false =>
    rw [retxSyncInterest_pastGap P cfg m delay hgap]
    exact sendUnlessSuppressed_transmits hgap

theorem processVector_sends (P : Platform) (cfg : Config) (m : Moment) (vvOther : VersionVector)
    (face : UInt64) (c : Core) : sentVectors (processVector P cfg m vvOther face c).2 = [] := by
  rw [effects_processVector, receiveEffects]
  split <;> rfl

/-- A received vector moves the scores as the interval update does. -/
theorem sameGap_processVector (P : Platform) (cfg : Config) (m : Moment) (vvOther : VersionVector)
    (face : UInt64) (c : Core) :
    SameGap (received cfg m vvOther c) (processVector P cfg m vvOther face c).1 := by
  obtain ⟨_, _, _, hprocess⟩ := processVector_writes P cfg m vvOther face (c := c)
  rw [hprocess]
  exact ⟨rfl, rfl, rfl⟩

/-- Every transition keeps the scores bounded. -/
theorem Calm.step (h : Calm c) (P : Platform) (cfg : Config) (m : Moment) (e : Event) :
    Calm (step P cfg m e c).1 := by
  cases e with
  | start =>
    obtain ⟨-, hhot, hact⟩ := retxSyncInterest_transmits P cfg m 0 { c with initialized := true }
    exact h.of_eq hhot hact
  | syncInterest vvOther face =>
    have hsame := sameGap_processVector P cfg m vvOther face c
    have hobserved := (sameGap_observePropagationFeedback cfg m vvOther c).trans
      (sameGap_mergeStateVector m vvOther _)
    have hreceived : Calm (received cfg m vvOther c) :=
      (h.of_eq hobserved.hotspotScore hobserved.activityScore).updateSyncInterval m _
    exact hreceived.of_eq hsame.hotspotScore hsame.activityScore
  | retx =>
    obtain ⟨-, hhot, hact⟩ := retxSyncInterest_transmits P cfg m 0 c
    exact h.of_eq hhot hact
  | updateSeqNo seq nid =>
    have hset : Calm { c with vv := c.vv.set (targetNode cfg nid) seq m.now } := h.of_eq rfl rfl
    rw [Core.step, Core.updateSeqNo]
    dsimp only
    split
    · exact (hset.updateSyncInterval m .LocalUpdate).of_eq rfl rfl
    · exact hset

theorem calm_of_reachable {log : List VersionVector} (h : Reachable P cfg c log) : Calm c := by
  induction h with
  | init uninitialized => exact (calm_init cfg uninitialized).1
  | step m e _ ih => exact ih.step P cfg m e

/-- What a transition sends, and when. -/
theorem step_transmits (P : Platform) (cfg : Config) (m : Moment) (e : Event) (c : Core) :
    Transmits cfg m c (step P cfg m e c).1 (step P cfg m e c).2 := by
  cases e with
  | start => exact (retxSyncInterest_transmits P cfg m 0 { c with initialized := true }).1
  | syncInterest vvOther face =>
    refine transmits_of_same ?_ (processVector_sends P cfg m vvOther face c)
    refine (sameGap_processVector P cfg m vvOther face c).lastSyncTxUs.trans ?_
    rw [received, lastSyncTxUs_updateSyncInterval, (sameGap_mergeStateVector m vvOther _).lastSyncTxUs,
      (sameGap_observePropagationFeedback cfg m vvOther c).lastSyncTxUs]
  | retx => exact (retxSyncInterest_transmits P cfg m 0 c).1
  | updateSeqNo seq nid =>
    refine transmits_of_same ?_ rfl
    rw [Core.step, Core.updateSeqNo]
    dsimp only
    split
    · exact lastSyncTxUs_updateSyncInterval cfg m .LocalUpdate _
    · rfl

/-! ## Runs -/

/-- The times at which a run transmits, in microseconds. -/
def sendTimes (P : Platform) (cfg : Config) : List (Moment × Event) → Core → List Int
  | [], _ => []
  | e :: events, c =>
    (sentVectors (step P cfg e.1 e.2 c).2).map (fun _ => e.1.currentTime) ++
      sendTimes P cfg events (step P cfg e.1 e.2 c).1

/-- The rest of a run keeps its distance from the last transmission. -/
theorem sendTimes_apart (hgap : 0 < cfg.minSendInterval) {events : List (Moment × Event)}
    (hpos : ∀ e ∈ events, 0 < e.1.currentTime) (hcalm : Calm c) :
    (sendTimes P cfg events c).Pairwise (fun t t' => t + cfg.minSendInterval * 1000 ≤ t') ∧
      (0 < c.lastSyncTxUs →
        ∀ t ∈ sendTimes P cfg events c, c.lastSyncTxUs + cfg.minSendInterval * 1000 ≤ t) := by
  induction events generalizing c with
  | nil => exact ⟨.nil, fun _ t ht => by cases ht⟩
  | cons e events ih =>
    have hnow := hpos e List.mem_cons_self
    obtain ⟨hpairs, hlater⟩ := ih (fun e' he' => hpos e' (List.mem_cons_of_mem e he'))
      (hcalm.step P cfg e.1 e.2)
    rw [sendTimes]
    rcases step_transmits P cfg e.1 e.2 c with ⟨hnone, hsame⟩ | ⟨⟨vv, hsent⟩, hpast, hstored⟩
    · rw [hnone]
      rw [hsame] at hlater
      exact ⟨hpairs, hlater⟩
    · -- a transmission: the ones after it are a gap later, and it is one itself
      rw [hstored] at hlater
      have hfirst : 0 < c.lastSyncTxUs →
          c.lastSyncTxUs + cfg.minSendInterval * 1000 ≤ e.1.currentTime := by
        intro hlast
        rw [withinGap, hcalm.minGapUs_eq, decide_eq_false_iff_not] at hpast
        by_contra hlt
        exact hpast ⟨by omega, hlast, by omega⟩
      rw [hsent]
      refine ⟨List.pairwise_cons.mpr ⟨hlater hnow, hpairs⟩, ?_⟩
      intro hlast t ht
      rcases List.mem_cons.mp ht with rfl | ht
      · exact hfirst hlast
      · have h₁ := hfirst hlast
        have h₂ := hlater hnow t ht
        omega

/-- Any two transmissions of a run are at least `m_minSendInterval` apart, and the branch
    that shortens the gap is never taken. -/
theorem transmissions_apart (P : Platform) (cfg : Config) (hgap : 0 < cfg.minSendInterval)
    (uninitialized : Int) (events : List (Moment × Event))
    (hpos : ∀ e ∈ events, 0 < e.1.currentTime) :
    (sendTimes P cfg events (init cfg uninitialized)).Pairwise
        (fun t t' => t + cfg.minSendInterval * 1000 ≤ t') ∧
      ∀ (c : Core) (log : List VersionVector), Reachable P cfg c log →
        timerHotness c.hotspotScore c.activityScore ≤ 35 / 100 ∧
          minGapUs cfg c = cfg.minSendInterval * 1000 := by
  refine ⟨(sendTimes_apart hgap hpos (calm_init cfg uninitialized).1).1, ?_⟩
  intro c log hreach
  have hcalm := calm_of_reachable hreach
  exact ⟨hcalm.timerHotness_le, hcalm.minGapUs_eq cfg⟩

/-- A node that publishes, then starts, and whose timer fires too early and again later. -/
theorem transmissions_apart_twice :
    sendTimes .plain { minSendInterval := 50 }
        [(.atMs 1, .updateSeqNo 1 EMPTY_NODE_ID), (.atMs 2, .start), (.atMs 3, .retx),
          (.atMs 60, .retx)] (init { minSendInterval := 50 } 0) = [2000, 60000] ∧
      (sendTimes .plain { minSendInterval := 50 }
        [(.atMs 1, .updateSeqNo 1 EMPTY_NODE_ID), (.atMs 2, .start), (.atMs 3, .retx),
          (.atMs 60, .retx)] (init { minSendInterval := 50 } 0)).Pairwise
        (fun t t' => t + 50 * 1000 ≤ t') := by
  refine ⟨by decide +kernel, (transmissions_apart .plain { minSendInterval := 50 } ?_ 0 _ ?_).1⟩
  · norm_num
  · intro e he
    simp only [List.mem_cons, List.not_mem_nil, or_false] at he
    rcases he with rfl | rfl | rfl | rfl <;> norm_num [Moment.atMs]

end Svs.Core
