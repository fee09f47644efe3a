import Svs.Spec.Suppression

/-!
# The pending announcement of a local update

`updateSeqNo` schedules the retransmission event a short delay ahead.  The event is
shared with the periodic timer, which a received vector resets when it looks
identical or newer.  `PendingBy` says that the event fires by some time; a received
vector keeps it unless it takes the branch that resets the timer
(`KeepsAnnouncement`).
-/

namespace Svs.Core

open VersionVector

variable {P : Platform} {cfg : Config} {m : Moment} {c : Core} {log : List VersionVector}

/-! ## The suppression time and the delay of an answer -/

/-- The suppression time is at least 40 and at most 1200 milliseconds. -/
def WindowBounded (c : Core) : Prop := 40 ≤ c.maxSuppressionTime ∧ c.maxSuppressionTime ≤ 1200

theorem WindowBounded.of_eq {c' : Core} (h : WindowBounded c)
    (heq : c'.maxSuppressionTime = c.maxSuppressionTime) : WindowBounded c' := by
  rwa [WindowBounded, heq]

theorem WindowBounded.refreshNetworkAwareTimerState (h : WindowBounded c)
    (clampCurrentPeriod : Bool) :
    WindowBounded (refreshNetworkAwareTimerState cfg clampCurrentPeriod c) := by
  unfold Core.refreshNetworkAwareTimerState
  split
  · exact h
  · dsimp only
    split <;> exact clamp_mem _ (by norm_num)

theorem WindowBounded.observePropagationFeedback (h : WindowBounded c) (m : Moment)
    (vvOther : VersionVector) : WindowBounded (observePropagationFeedback cfg m vvOther c) := by
  unfold Core.observePropagationFeedback
  split
  · exact h
  · dsimp only
    split
    · exact h
    · split
      · exact h
      · refine WindowBounded.refreshNetworkAwareTimerState ?_ true
        split <;> exact h

theorem windowBounded_init (uninitialized : Int) : WindowBounded (init cfg uninitialized) := by
  have hdefault : WindowBounded { periodicSyncTime := 0, nextSyncInterest := 0 } :=
    ⟨by norm_num, by norm_num⟩
  unfold init
  dsimp only
  split
  · refine WindowBounded.of_eq (WindowBounded.refreshNetworkAwareTimerState ?_ true) rfl
    exact hdefault.of_eq rfl
  · exact hdefault.of_eq rfl

theorem retxSyncInterest_maxSuppressionTime (m : Moment) (delay : Nat) (c : Core) :
    (retxSyncInterest P cfg m true delay c).1.maxSuppressionTime = c.maxSuppressionTime := by
  obtain ⟨_, _, _, _, _, _, _, _, _, _, hretx⟩ := retxSyncInterest_writes P cfg m delay (c := c)
  rw [hretx]

theorem processVector_maxSuppressionTime (m : Moment) (vvOther : VersionVector) (face : UInt64)
    (c : Core) :
    (processVector P cfg m vvOther face c).1.maxSuppressionTime =
      (observePropagationFeedback cfg m vvOther c).maxSuppressionTime := by
  obtain ⟨_, _, _, hprocess⟩ := processVector_writes P cfg m vvOther face (c := c)
  rw [← received_maxSuppressionTime, hprocess]

theorem WindowBounded.step (h : WindowBounded c) (P : Platform) (cfg : Config) (m : Moment)
    (e : Event) : WindowBounded (step P cfg m e c).1 := by
  cases e with
  | start =>
    have hinit : WindowBounded { c with initialized := true } := h
    exact hinit.of_eq (retxSyncInterest_maxSuppressionTime m 0 _)
  | syncInterest vvOther face =>
    exact (h.observePropagationFeedback m vvOther).of_eq
      (processVector_maxSuppressionTime m vvOther face c)
  | retx => exact h.of_eq (retxSyncInterest_maxSuppressionTime m 0 c)
  | updateSeqNo seq nid => exact h.of_eq (updateSeqNo_frame cfg m seq nid).2.2.2

theorem windowBounded_of_reachable (h : Reachable P cfg c log) : WindowBounded c := by
  induction h with
  | init uninitialized => exact windowBounded_init uninitialized
  | step m e _ ih => exact ih.step P cfg m e

/-- A positive suppression time curves every draw to a delay between 0 and itself. -/
theorem suppressionCurve_mem (P : Platform) {constFactor value : Int} (hpos : 0 < constFactor)
    (hle : value ≤ constFactor) :
    0 ≤ suppressionCurve P constFactor value ∧ suppressionCurve P constFactor value ≤ constFactor := by
  have hc : (0 : ℚ) < constFactor := by exact_mod_cast hpos
  have hv : (value : ℚ) - constFactor ≤ 0 := by
    rw [sub_nonpos]
    exact_mod_cast hle
  -- the exponent is not positive, so the factor lies between 0 and 1
  have hexp : P.exp (((value : ℚ) - constFactor) / (constFactor / 10)) ≤ 1 := by
    rw [← P.exp_zero]
    exact P.exp_mono (div_nonpos_of_nonpos_of_nonneg hv (by positivity))
  have hexp' := P.exp_pos (((value : ℚ) - constFactor) / (constFactor / 10))
  have hnonneg : (0 : ℚ) ≤ constFactor *
      (1 - P.exp (((value : ℚ) - constFactor) / (constFactor / 10))) :=
    mul_nonneg hc.le (by linarith)
  rw [suppressionCurve, truncate, if_pos hnonneg]
  constructor
  · exact Int.floor_nonneg.mpr hnonneg
  · rw [← Int.cast_le (R := ℚ)]
    apply (Int.floor_le _).trans
    nlinarith

/-- The curved delay after which the node would answer a received vector. -/
def answerDelay (P : Platform) (cfg : Config) (m : Moment) (vvOther : VersionVector) (c : Core) :
    Int :=
  suppressionCurve P (observePropagationFeedback cfg m vvOther c).maxSuppressionTime
    (m.intrReply (observePropagationFeedback cfg m vvOther c).maxSuppressionTime)

theorem answerDelay_mem (h : WindowBounded c) (m : Moment) (vvOther : VersionVector) :
    0 ≤ answerDelay P cfg m vvOther c ∧ answerDelay P cfg m vvOther c ≤ 1200 := by
  obtain ⟨hlow, hhigh⟩ : WindowBounded (observePropagationFeedback cfg m vvOther c) :=
    h.observePropagationFeedback m vvOther
  have hdraw := m.intrReply_mem (observePropagationFeedback cfg m vvOther c).maxSuppressionTime
    (by omega)
  have hcurve := suppressionCurve_mem P (by omega) hdraw.2
  exact ⟨hcurve.1, hcurve.2.trans hhigh⟩

/-! ## One received vector -/

/-- The retransmission event is scheduled no later than `T`. -/
def PendingBy (T : Int) (c : Core) : Prop :=
  ∃ t, c.retxEvent = some t ∧ t ≤ T ∧ c.nextSyncInterest ≤ t

/-- The received vector does not reset the timer: the node is in suppression, or an
    entry ahead of the vector is old enough for an answer, whose delay is not 0 unless
    the event is due. -/
def KeepsAnnouncement (P : Platform) (cfg : Config) (m : Moment) (vvOther : VersionVector)
    (c : Core) : Prop :=
  c.recordedVv ≠ none ∨
    (∃ nid, vvOther.get nid < c.vv.get nid ∧
      updatedRecently m (observePropagationFeedback cfg m vvOther c) nid = false) ∧
    (answerDelay P cfg m vvOther c ≠ 0 ∨ c.nextSyncInterest ≤ m.currentTime)

/-- A received vector that does not reset the timer only moves the event earlier. -/
theorem PendingBy.processVector {T : Int} (h : PendingBy T c) (hwin : WindowBounded c)
    {vvOther : VersionVector} (hkeep : KeepsAnnouncement P cfg m vvOther c) (face : UInt64) :
    PendingBy T (processVector P cfg m vvOther face c).1 := by
  obtain ⟨t, ht, htT, hnext⟩ := h
  cases hr : c.recordedVv with
  | some r =>
    -- in suppression the timer is not touched
    rw [processVector_of_some P cfg m vvOther face hr]
    exact ⟨t, (received_retxEvent cfg m vvOther).trans ht, htT,
      (received_nextSyncInterest cfg m vvOther).trans_le hnext⟩
  | none =>
    obtain ⟨⟨nid, hlt, hold⟩, hdelay⟩ := hkeep.resolve_left (not_not_intro hr)
    have hnew : (receiveResult cfg m vvOther c).myVectorNew = true := by
      refine (myVectorNew_iff m vvOther _).mpr ⟨nid, ?_, hold⟩
      rwa [(sameSync_observePropagationFeedback cfg m c vvOther).vv]
    rw [processVector_of_none P cfg m vvOther face hr, hnew,
      answerOrReset_true P cfg m vvOther ((received_recordedVv cfg m vvOther).trans hr),
      received_maxSuppressionTime, received_nextSyncInterest]
    obtain ⟨hnonneg, hle⟩ :
        0 ≤ answerDelay P cfg m vvOther c ∧ answerDelay P cfg m vvOther c ≤ 1200 :=
      answerDelay_mem hwin m vvOther
    rw [← answerDelay]
    dsimp only
    split
    · -- the new time lies before the remembered one, so before the old event
      next hfar =>
      have hne : toUnsigned (answerDelay P cfg m vvOther c) ≠ 0 := by
        unfold toUnsigned
        omega
      have hto : (toUnsigned (answerDelay P cfg m vvOther c) : Int) =
          answerDelay P cfg m vvOther c := by
        unfold toUnsigned
        omega
      have hevent := scheduleRetx_retxEvent cfg m
        (c := { received cfg m vvOther c with recordedVv := some vvOther }) hne
      refine ⟨_, hevent, ?_, nextSyncInterest_scheduleRetx_le cfg m _ _ hevent⟩
      rw [hto]
      omega
    · exact ⟨t, (received_retxEvent cfg m vvOther).trans ht, htT, hnext⟩

/-- Any other received vector replaces the event by a freshly sampled one. -/
theorem processVector_resets {vvOther : VersionVector}
    (hreset : ¬KeepsAnnouncement P cfg m vvOther c) (face : UInt64) :
    ∃ c', (processVector P cfg m vvOther face c).1.retxEvent =
      some (m.currentTime + 1000 * sampleSyncDelay cfg m c') := by
  rw [KeepsAnnouncement, not_or, not_not] at hreset
  obtain ⟨hr, hother⟩ := hreset
  rw [processVector_of_none P cfg m vvOther face hr]
  cases hnew : (receiveResult cfg m vvOther c).myVectorNew with
  | false =>
    -- identical or newer: the branch that resets the timer
    exact ⟨received cfg m vvOther c, rfl⟩
  | true =>
    have hstale : ∃ nid, vvOther.get nid < c.vv.get nid ∧
        updatedRecently m (observePropagationFeedback cfg m vvOther c) nid = false := by
      have h := (myVectorNew_iff m vvOther _).mp hnew
      rwa [(sameSync_observePropagationFeedback cfg m c vvOther).vv] at h
    -- the curved delay is 0, which stands for no delay at all
    have hzero := not_or.mp fun h => hother ⟨hstale, h⟩
    rw [not_not, not_le] at hzero
    rw [answerOrReset_true P cfg m vvOther ((received_recordedVv cfg m vvOther).trans hr),
      received_maxSuppressionTime, received_nextSyncInterest, ← answerDelay]
    dsimp only
    rw [hzero.1, if_pos (by omega)]
    exact ⟨_, rfl⟩

/-! ## Runs of received vectors -/

/-- A received Sync Interest: when, with which vector, on which face. -/
abbrev Arrival := Moment × VersionVector × UInt64

/-- The state after a list of arrivals. -/
def processAll (P : Platform) (cfg : Config) (arrivals : List Arrival) (c : Core) : Core :=
  arrivals.foldl (fun c a => (processVector P cfg a.1 a.2.1 a.2.2 c).1) c

/-- No arrival of the list resets the timer, each judged in the state it meets. -/
def AllKeep (P : Platform) (cfg : Config) : List Arrival → Core → Prop
  | [], _ => True
  | a :: arrivals, c =>
    KeepsAnnouncement P cfg a.1 a.2.1 c ∧
      AllKeep P cfg arrivals (processVector P cfg a.1 a.2.1 a.2.2 c).1

theorem PendingBy.processAll {T : Int} {arrivals : List Arrival} (h : PendingBy T c)
    (hwin : WindowBounded c) (hkeep : AllKeep P cfg arrivals c) :
    PendingBy T (processAll P cfg arrivals c) := by
  induction arrivals generalizing c with
  | nil => exact h
  | cons a arrivals ih =>
    refine ih (h.processVector hwin hkeep.1 a.2.2) ?_ hkeep.2
    exact (hwin.observePropagationFeedback a.1 a.2.1).of_eq
      (processVector_maxSuppressionTime a.1 a.2.1 a.2.2 c)

/-- A raising update schedules the event after the local delay. -/
theorem updateSeqNo_retxEvent {seq : SeqNo} {nid : NodeID} (hraise : getSeqNo cfg nid c < seq) :
    ∃ c', updateSeqNo cfg m seq nid c = scheduleRetx cfg m (toUnsigned (localDelay cfg c')) c' ∧
      c' = updateSyncInterval cfg m .LocalUpdate
        { c with vv := c.vv.set (targetNode cfg nid) seq m.now } := by
  refine ⟨_, ?_, rfl⟩
  unfold updateSeqNo
  exact if_pos hraise

/-- The announcement of a local update, scheduled at `T`, is still scheduled no later
    after any list of arrivals none of which resets the timer. -/
theorem announcement_not_postponed {m₀ : Moment} {seq : SeqNo} {nid : NodeID} {T : Int}
    {arrivals : List Arrival} (hreach : Reachable P cfg c log)
    (hraise : getSeqNo cfg nid c < seq)
    (hT : (updateSeqNo cfg m₀ seq nid c).retxEvent = some T)
    (hkeep : AllKeep P cfg arrivals (updateSeqNo cfg m₀ seq nid c)) :
    ∃ t ≤ T, (processAll P cfg arrivals (updateSeqNo cfg m₀ seq nid c)).retxEvent = some t := by
  have hreach' : Reachable P cfg (updateSeqNo cfg m₀ seq nid c) _ :=
    hreach.step m₀ (.updateSeqNo seq nid)
  have hpending : PendingBy T (updateSeqNo cfg m₀ seq nid c) := by
    refine ⟨T, hT, le_rfl, ?_⟩
    obtain ⟨c', hc', -⟩ := updateSeqNo_retxEvent (m := m₀) hraise
    -- the update has just scheduled the event, and remembered its time
    rw [hc'] at hT ⊢
    exact nextSyncInterest_scheduleRetx_le cfg m₀ _ T hT
  obtain ⟨t, ht, htT, -⟩ := hpending.processAll (windowBounded_of_reachable hreach') hkeep
  exact ⟨t, htT, ht⟩

/-- Node `a` has started. -/
def startedNode : Core × List VersionVector := run .plain nodeA [(.atMs 0, .start)] (init nodeA 0, [])

/-- A vector of node `b` alone. -/
def vectorOfB : VersionVector := (VersionVector.empty.set (.ofBytes [[98]]) 1 0).wire

/-- A vector that arrives right after a publication postpones its announcement. -/
theorem not_announcement_not_postponed :
    ¬∀ (P : Platform) (cfg : Config) (c : Core) (log : List VersionVector) (m₀ : Moment)
      (seq : SeqNo) (nid : NodeID) (T : Int) (arrivals : List Arrival),
      Reachable P cfg c log → c.initialized = true → getSeqNo cfg nid c < seq →
      (updateSeqNo cfg m₀ seq nid c).retxEvent = some T →
      (∀ a ∈ arrivals, m₀.currentTime ≤ a.1.currentTime ∧ a.1.currentTime < T ∧
        a.2.1.get (targetNode cfg nid) < seq) →
      ∃ t ≤ T, (processAll P cfg arrivals (updateSeqNo cfg m₀ seq nid c)).retxEvent = some t := by
  intro h
  obtain ⟨t, hle, ht⟩ := h .plain nodeA startedNode.1 startedNode.2 (.atMs 100) 1 EMPTY_NODE_ID
    101000 [(.atMs 100, vectorOfB, 0)] ((Reachable.init 0).run _) (by decide)
    (by decide +kernel) (by decide +kernel) (by
      intro a ha
      rw [List.mem_singleton] at ha
      subst ha
      decide)
  have hlate : (processAll .plain nodeA [(.atMs 100, vectorOfB, 0)]
      (updateSeqNo nodeA (.atMs 100) 1 EMPTY_NODE_ID startedNode.1)).retxEvent =
        some 14230000 := by
    decide +kernel
  rw [hlate, Option.some.injEq] at ht
  omega

/-- In suppression the same vector is only recorded, and the announcement stays. -/
theorem announcement_not_postponed_suppressed :
    ∃ t ≤ 1101000, (processAll .plain nodeA [(.atMs 1100, vectorOfB, 0)]
      (updateSeqNo nodeA (.atMs 1100) 2 EMPTY_NODE_ID suppressedNode.1)).retxEvent = some t :=
  announcement_not_postponed ((Reachable.init 0).run _) (by decide +kernel) (by decide +kernel)
    ⟨Or.inl (by
      rw [Option.ne_none_iff_isSome]
      decide +kernel), trivial⟩

end Svs.Core
