import Svs.Spec.BuildCorrect
import Svs.Spec.MergeCorrect

/-!
# What each handler changes

The `_writes` lemmas list the members that each function may change; that a function
keeps a member is read off them.  The timers, the feedback queue and the selection
state move in most handlers; `SameSync` says that a function leaves alone the members
the protocol is about.  The lemmas after it say, for each handler, what becomes of `vv`
and `recordedVv`, so that invariants never unfold a handler.
-/

namespace Svs.Core

open Std VersionVector

/-! ## What each function writes -/

section

variable (P : Platform) (cfg : Config) (m : Moment) (c : Core)

theorem refreshNetworkAwareTimerState_writes (clampCurrentPeriod : Bool) :
    ∃ suppression minPeriod period, refreshNetworkAwareTimerState cfg clampCurrentPeriod c =
      { c with
        maxSuppressionTime := suppression
        minPeriodicSyncTime := minPeriod
        periodicSyncTime := period } := by
  unfold refreshNetworkAwareTimerState
  split
  · exact ⟨_, _, _, rfl⟩
  · dsimp only
    split <;> exact ⟨_, _, _, rfl⟩

/-- An echo moves the feedback, and that the timers. -/
theorem observePropagationFeedback_writes (vvOther : VersionVector) :
    ∃ pending delay jitter samples suppression minPeriod period,
      observePropagationFeedback cfg m vvOther c =
        { c with
          pendingFeedbackSeqs := pending
          feedbackDelayMs := delay
          feedbackJitterMs := jitter
          feedbackSamples := samples
          maxSuppressionTime := suppression
          minPeriodicSyncTime := minPeriod
          periodicSyncTime := period } := by
  unfold observePropagationFeedback
  split
  · exact ⟨_, _, _, _, _, _, _, rfl⟩
  · dsimp only
    split
    · exact ⟨_, _, _, _, _, _, _, rfl⟩
    · split
      · exact ⟨_, _, _, _, _, _, _, rfl⟩
      · split
        all_goals
          obtain ⟨_, _, _, hrefresh⟩ := refreshNetworkAwareTimerState_writes cfg _ true
          rw [hrefresh]
          exact ⟨_, _, _, _, _, _, _, rfl⟩

theorem updateSyncInterval_writes (signal : SyncSignal) :
    ∃ activity period adjusted, updateSyncInterval cfg m signal c =
      { c with
        activityScore := activity
        periodicSyncTime := period
        lastTimerAdjustUs := adjusted } := by
  unfold updateSyncInterval
  split
  · exact ⟨_, _, _, rfl⟩
  · dsimp only
    split
    · split <;> exact ⟨_, _, _, rfl⟩
    · split <;> exact ⟨_, _, _, rfl⟩

theorem recordPropagationFeedbackSend_writes (localSeq : SeqNo) (sendTimeUs : Int) :
    ∃ pending, recordPropagationFeedbackSend cfg localSeq sendTimeUs c =
      { c with pendingFeedbackSeqs := pending } := by
  unfold recordPropagationFeedbackSend
  split
  · exact ⟨_, rfl⟩
  · split <;> exact ⟨_, rfl⟩

theorem sendSyncInterest_writes :
    ∃ burst cursor selected rounds sent pending, (sendSyncInterest P cfg m c).1 =
      { c with
        adaptiveScoreBurstRemaining := burst
        stateVectorCursor := cursor
        lastSelectedNodes := selected
        scoreUnselectedRounds := rounds
        lastSyncTxUs := sent
        pendingFeedbackSeqs := pending } := by
  obtain ⟨_, _, _, _, hbuild⟩ := buildSyncVector_writes P cfg m c
  unfold sendSyncInterest
  split
  · exact ⟨_, _, _, _, _, _, rfl⟩
  · dsimp only
    rw [hbuild]
    obtain ⟨_, hrecord⟩ := recordPropagationFeedbackSend_writes cfg _ _ _
    rw [hrecord]
    exact ⟨_, _, _, _, _, _, rfl⟩

/-- An update sets the entry; if that is news the timers move. -/
theorem updateSeqNo_writes (seq : SeqNo) (nid : NodeID) :
    ∃ activity period adjusted next event, updateSeqNo cfg m seq nid c =
      { c with
        vv := c.vv.set (targetNode cfg nid) seq m.now
        activityScore := activity
        periodicSyncTime := period
        lastTimerAdjustUs := adjusted
        nextSyncInterest := next
        retxEvent := event } := by
  unfold updateSeqNo
  dsimp only
  split
  · obtain ⟨_, _, _, hinterval⟩ := updateSyncInterval_writes cfg m
      { c with vv := c.vv.set (targetNode cfg nid) seq m.now } .LocalUpdate
    rw [announceUpdate, hinterval]
    exact ⟨_, _, _, _, _, rfl⟩
  · exact ⟨_, _, _, _, _, rfl⟩

/-- Answering or resetting moves the event and the recorded vector only. -/
theorem answerOrReset_writes (vvOther : VersionVector) (myVectorNew : Bool) :
    ∃ recorded next event, answerOrReset P cfg m vvOther myVectorNew c =
      { c with
        recordedVv := recorded
        nextSyncInterest := next
        retxEvent := event } := by
  unfold answerOrReset enterSuppressionState
  split
  · exact ⟨_, _, _, rfl⟩
  · dsimp only
    -- the outer split is on the delay, the inner one on being in suppression already
    split <;> split <;> exact ⟨_, _, _, rfl⟩

end

/-! ## The members the protocol is about -/

/-- The members that only merging, recording, scheduling and `updateSeqNo` change. -/
structure SameSync (c c' : Core) : Prop where
  vv : c'.vv = c.vv
  recordedVv : c'.recordedVv = c.recordedVv
  retxEvent : c'.retxEvent = c.retxEvent
  nextSyncInterest : c'.nextSyncInterest = c.nextSyncInterest
  initialized : c'.initialized = c.initialized

theorem SameSync.refl (c : Core) : SameSync c c := ⟨rfl, rfl, rfl, rfl, rfl⟩

theorem SameSync.trans {c₁ c₂ c₃ : Core} (h₁ : SameSync c₁ c₂) (h₂ : SameSync c₂ c₃) :
    SameSync c₁ c₃ :=
  ⟨h₂.vv.trans h₁.vv, h₂.recordedVv.trans h₁.recordedVv, h₂.retxEvent.trans h₁.retxEvent,
    h₂.nextSyncInterest.trans h₁.nextSyncInterest, h₂.initialized.trans h₁.initialized⟩

/-- The suppression time stays the same as well. -/
structure SameWindow (c c' : Core) : Prop extends SameSync c c' where
  maxSuppressionTime : c'.maxSuppressionTime = c.maxSuppressionTime

theorem SameWindow.refl (c : Core) : SameWindow c c := ⟨.refl c, rfl⟩

theorem SameWindow.trans {c₁ c₂ c₃ : Core} (h₁ : SameWindow c₁ c₂) (h₂ : SameWindow c₂ c₃) :
    SameWindow c₁ c₃ :=
  ⟨h₁.toSameSync.trans h₂.toSameSync, h₂.maxSuppressionTime.trans h₁.maxSuppressionTime⟩

section

variable (P : Platform) (cfg : Config) (m : Moment) (c : Core)

theorem sameSync_refreshNetworkAwareTimerState (clampCurrentPeriod : Bool) :
    SameSync c (refreshNetworkAwareTimerState cfg clampCurrentPeriod c) := by
  obtain ⟨_, _, _, hrefresh⟩ := refreshNetworkAwareTimerState_writes cfg c clampCurrentPeriod
  rw [hrefresh]
  exact ⟨rfl, rfl, rfl, rfl, rfl⟩

theorem sameSync_observePropagationFeedback (vvOther : VersionVector) :
    SameSync c (observePropagationFeedback cfg m vvOther c) := by
  obtain ⟨_, _, _, _, _, _, _, hobserve⟩ := observePropagationFeedback_writes cfg m c vvOther
  rw [hobserve]
  exact ⟨rfl, rfl, rfl, rfl, rfl⟩

/-- A node starts empty, in steady state, with nothing scheduled. -/
theorem init_frame (uninitialized : Int) :
    (init cfg uninitialized).vv = .empty ∧ (init cfg uninitialized).recordedVv = none ∧
      (init cfg uninitialized).retxEvent = none ∧ (init cfg uninitialized).initialized = false := by
  unfold init
  dsimp only
  split
  · exact ⟨(sameSync_refreshNetworkAwareTimerState cfg _ true).vv,
      (sameSync_refreshNetworkAwareTimerState cfg _ true).recordedVv,
      (sameSync_refreshNetworkAwareTimerState cfg _ true).retxEvent,
      (sameSync_refreshNetworkAwareTimerState cfg _ true).initialized⟩
  · exact ⟨rfl, rfl, rfl, rfl⟩

theorem sameWindow_updateSyncInterval (signal : SyncSignal) :
    SameWindow c (updateSyncInterval cfg m signal c) := by
  obtain ⟨_, _, _, hinterval⟩ := updateSyncInterval_writes cfg m c signal
  rw [hinterval]
  exact ⟨⟨rfl, rfl, rfl, rfl, rfl⟩, rfl⟩

theorem sameWindow_buildSyncVector : SameWindow c (buildSyncVector P cfg m c).1 := by
  obtain ⟨_, _, _, _, hbuild⟩ := buildSyncVector_writes P cfg m c
  rw [hbuild]
  exact ⟨⟨rfl, rfl, rfl, rfl, rfl⟩, rfl⟩

/-- An initialized node sends what `buildSyncVector` returns. -/
theorem sendSyncInterest_snd :
    (sendSyncInterest P cfg m c).2 =
      if c.initialized then [.expressInterest (buildSyncVector P cfg m c).2] else [] := by
  unfold sendSyncInterest
  cases c.initialized <;> rfl

theorem sameWindow_sendSyncInterest : SameWindow c (sendSyncInterest P cfg m c).1 := by
  obtain ⟨_, _, _, _, _, _, hsend⟩ := sendSyncInterest_writes P cfg m c
  rw [hsend]
  exact ⟨⟨rfl, rfl, rfl, rfl, rfl⟩, rfl⟩

/-! ## Scheduling -/

@[simp] theorem scheduleRetx_vv (delay : Nat) : (scheduleRetx cfg m delay c).vv = c.vv := rfl

@[simp] theorem scheduleRetx_recordedVv (delay : Nat) :
    (scheduleRetx cfg m delay c).recordedVv = c.recordedVv := rfl

@[simp] theorem scheduleRetx_initialized (delay : Nat) :
    (scheduleRetx cfg m delay c).initialized = c.initialized := rfl

@[simp] theorem scheduleRetx_maxSuppressionTime (delay : Nat) :
    (scheduleRetx cfg m delay c).maxSuppressionTime = c.maxSuppressionTime := rfl

variable {c}

/-- The time at which a given delay ends. -/
theorem scheduleRetx_retxEvent {delay : Nat} (h : delay ≠ 0) :
    (scheduleRetx cfg m delay c).retxEvent = some (m.currentTime + 1000 * delay) := by
  rw [scheduleRetx, if_neg h]

/-- The remembered time never exceeds the time at which the event fires. -/
theorem nextSyncInterest_scheduleRetx_le (delay : Nat) (t : Int)
    (h : (scheduleRetx cfg m delay c).retxEvent = some t) :
    (scheduleRetx cfg m delay c).nextSyncInterest ≤ t := by
  rw [← Option.some.inj h]
  have hle := Nat.mod_le (1000 * if delay = 0 then sampleSyncDelay cfg m c else delay) (2 ^ 32)
  simp only [scheduleRetx]
  omega

/-! ## `retxSyncInterest` -/

/-- Within the minimum gap a firing only moves the event. -/
theorem retxSyncInterest_withinGap (delay : Nat) (h : withinGap cfg m c = true) :
    ∃ delay', retxSyncInterest P cfg m true delay c = (scheduleRetx cfg m delay' c, []) := by
  rw [retxSyncInterest, if_pos rfl, if_pos h]
  exact ⟨_, rfl⟩

/-- Past the minimum gap a firing decides whether to send, then schedules. -/
theorem retxSyncInterest_pastGap (delay : Nat) (h : withinGap cfg m c = false) :
    retxSyncInterest P cfg m true delay c =
      (scheduleRetx cfg m delay (sendUnlessSuppressed P cfg m c).1,
        (sendUnlessSuppressed P cfg m c).2) := by
  rw [retxSyncInterest, if_pos rfl, if_neg (by simp [h])]

/-- In steady state a firing sends. -/
theorem sendUnlessSuppressed_of_none (h : c.recordedVv = none) :
    sendUnlessSuppressed P cfg m c = sendSyncInterest P cfg m c := by
  rw [sendUnlessSuppressed, h]

/-- In suppression a firing sends what the merged state builds, if that is newer. -/
theorem sendUnlessSuppressed_of_some {r : VersionVector} (h : c.recordedVv = some r) :
    sendUnlessSuppressed P cfg m c =
      if (mergeStateVector m r c).2.myVectorNew then
        ({ (sendSyncInterest P cfg m (mergeStateVector m r c).1).1 with recordedVv := none },
          (sendSyncInterest P cfg m (mergeStateVector m r c).1).2)
      else ({ (mergeStateVector m r c).1 with recordedVv := none }, []) := by
  rw [sendUnlessSuppressed, h]
  dsimp only
  split <;> rfl

theorem sendUnlessSuppressed_vv :
    (sendUnlessSuppressed P cfg m c).1.vv =
      match c.recordedVv with
      | none => c.vv
      | some r => raiseEntries m c.vv r := by
  cases h : c.recordedVv with
  | none => rw [sendUnlessSuppressed_of_none P cfg m h, (sameWindow_sendSyncInterest P cfg m c).vv]
  | some r =>
    rw [sendUnlessSuppressed_of_some P cfg m h]
    split
    · exact (sameWindow_sendSyncInterest P cfg m _).vv.trans (by rw [mergeStateVector_fst])
    · simp only [mergeStateVector_fst]

theorem sendUnlessSuppressed_recordedVv :
    (sendUnlessSuppressed P cfg m c).1.recordedVv = none := by
  cases h : c.recordedVv with
  | none =>
    rw [sendUnlessSuppressed_of_none P cfg m h, (sameWindow_sendSyncInterest P cfg m c).recordedVv, h]
  | some r =>
    rw [sendUnlessSuppressed_of_some P cfg m h]
    split <;> rfl

/-- A firing moves the vector, the selection state, the queue of the feedback and the event. -/
theorem retxSyncInterest_writes (delay : Nat) :
    ∃ vv recorded burst cursor selected rounds sent pending next event,
      (retxSyncInterest P cfg m true delay c).1 =
        { c with
          vv := vv
          recordedVv := recorded
          adaptiveScoreBurstRemaining := burst
          stateVectorCursor := cursor
          lastSelectedNodes := selected
          scoreUnselectedRounds := rounds
          lastSyncTxUs := sent
          pendingFeedbackSeqs := pending
          nextSyncInterest := next
          retxEvent := event } := by
  cases hgap : withinGap cfg m c with
  | true =>
    obtain ⟨delay', hretx⟩ := retxSyncInterest_withinGap P cfg m delay hgap
    rw [hretx]
    exact ⟨_, _, _, _, _, _, _, _, _, _, rfl⟩
  | false =>
    rw [retxSyncInterest_pastGap P cfg m delay hgap]
    cases hr : c.recordedVv with
    | none =>
      obtain ⟨_, _, _, _, _, _, hsend⟩ := sendSyncInterest_writes P cfg m c
      rw [sendUnlessSuppressed_of_none P cfg m hr, hsend]
      exact ⟨_, _, _, _, _, _, _, _, _, _, rfl⟩
    | some r =>
      rw [sendUnlessSuppressed_of_some P cfg m hr]
      split
      · obtain ⟨_, _, _, _, _, _, hsend⟩ := sendSyncInterest_writes P cfg m (mergeStateVector m r c).1
        rw [hsend, mergeStateVector_fst]
        exact ⟨_, _, _, _, _, _, _, _, _, _, rfl⟩
      · rw [mergeStateVector_fst]
        exact ⟨_, _, _, _, _, _, _, _, _, _, rfl⟩

/-- A firing sends nothing, or the one vector that `buildSyncVector` returns on a state
    with the vector after the firing. -/
theorem effects_retxSyncInterest (delay : Nat) :
    (retxSyncInterest P cfg m true delay c).2 = [] ∨
      ∃ c' : Core, (retxSyncInterest P cfg m true delay c).2 =
          [.expressInterest (buildSyncVector P cfg m c').2] ∧
        c'.vv = (retxSyncInterest P cfg m true delay c).1.vv := by
  cases hgap : withinGap cfg m c with
  | true =>
    obtain ⟨delay', hretx⟩ := retxSyncInterest_withinGap P cfg m delay hgap
    exact Or.inl (by rw [hretx])
  | false =>
    rw [retxSyncInterest_pastGap P cfg m delay hgap]
    have hvv := sendUnlessSuppressed_vv P cfg m (c := c)
    cases hr : c.recordedVv with
    | none =>
      -- steady state: the vector is built from the state itself
      rw [sendUnlessSuppressed_of_none P cfg m hr, sendSyncInterest_snd]
      rw [sendUnlessSuppressed_of_none P cfg m hr] at hvv
      simp only [hr] at hvv
      split
      · exact Or.inr ⟨c, rfl, hvv.symm⟩
      · exact Or.inl rfl
    | some r =>
      simp only [hr] at hvv
      rw [sendUnlessSuppressed_of_some P cfg m hr] at hvv ⊢
      split
      · next hnew =>
        rw [if_pos hnew] at hvv
        simp only [sendSyncInterest_snd]
        split
        · -- suppression: it is built from the state merged with the recorded vector
          refine Or.inr ⟨(mergeStateVector m r c).1, rfl, ?_⟩
          rw [scheduleRetx_vv, hvv, mergeStateVector_fst]
        · exact Or.inl rfl
      · exact Or.inl rfl

/-! ## `updateSeqNo` -/

theorem updateSeqNo_frame (seq : SeqNo) (nid : NodeID) :
    (updateSeqNo cfg m seq nid c).vv = c.vv.set (targetNode cfg nid) seq m.now ∧
      (updateSeqNo cfg m seq nid c).recordedVv = c.recordedVv ∧
      (updateSeqNo cfg m seq nid c).initialized = c.initialized ∧
      (updateSeqNo cfg m seq nid c).maxSuppressionTime = c.maxSuppressionTime := by
  obtain ⟨_, _, _, _, _, hupdate⟩ := updateSeqNo_writes cfg m c seq nid
  rw [hupdate]
  exact ⟨rfl, rfl, rfl, rfl⟩

/-! ## `processVector` -/

variable (vvOther : VersionVector) (face : UInt64)

/-- Answering enters suppression, and brings the event forward if it is far. -/
theorem answerOrReset_true (h : c.recordedVv = none) :
    answerOrReset P cfg m vvOther true c =
      (let delay := suppressionCurve P c.maxSuppressionTime (m.intrReply c.maxSuppressionTime)
       if m.currentTime + delay * 1000 < c.nextSyncInterest then
         scheduleRetx cfg m (toUnsigned delay) { c with recordedVv := some vvOther }
       else { c with recordedVv := some vvOther }) := by
  simp only [answerOrReset, enterSuppressionState, h, Bool.not_true, Bool.false_eq_true, if_false]

theorem answerOrReset_recordedVv {myVectorNew : Bool} (h : c.recordedVv = none) :
    (answerOrReset P cfg m vvOther myVectorNew c).recordedVv =
      if myVectorNew then some vvOther else none := by
  unfold answerOrReset enterSuppressionState
  cases myVectorNew with
  | false => exact h
  | true =>
    simp only [h, Bool.not_true, Bool.false_eq_true, if_false, if_true]
    split <;> rfl

/-- The merge result of a received vector: the feedback step may move the suppression
    time, which the merge reads. -/
def receiveResult (cfg : Config) (m : Moment) (vvOther : VersionVector) (c : Core) : MergeResult :=
  (mergeStateVector m vvOther (observePropagationFeedback cfg m vvOther c)).2

/-- The state in which a received vector is recorded or answered. -/
def received (cfg : Config) (m : Moment) (vvOther : VersionVector) (c : Core) : Core :=
  updateSyncInterval cfg m (syncSignal (receiveResult cfg m vvOther c))
    (mergeStateVector m vvOther (observePropagationFeedback cfg m vvOther c)).1

theorem received_vv : (received cfg m vvOther c).vv = raiseEntries m c.vv vvOther := by
  rw [received, (sameWindow_updateSyncInterval cfg m _ _).vv, mergeStateVector_fst,
    (sameSync_observePropagationFeedback cfg m c vvOther).vv]

theorem received_recordedVv : (received cfg m vvOther c).recordedVv = c.recordedVv := by
  rw [received, (sameWindow_updateSyncInterval cfg m _ _).recordedVv, mergeStateVector_fst,
    (sameSync_observePropagationFeedback cfg m c vvOther).recordedVv]

theorem received_retxEvent : (received cfg m vvOther c).retxEvent = c.retxEvent := by
  rw [received, (sameWindow_updateSyncInterval cfg m _ _).retxEvent, mergeStateVector_fst,
    (sameSync_observePropagationFeedback cfg m c vvOther).retxEvent]

theorem received_nextSyncInterest :
    (received cfg m vvOther c).nextSyncInterest = c.nextSyncInterest := by
  rw [received, (sameWindow_updateSyncInterval cfg m _ _).nextSyncInterest, mergeStateVector_fst,
    (sameSync_observePropagationFeedback cfg m c vvOther).nextSyncInterest]

theorem received_maxSuppressionTime :
    (received cfg m vvOther c).maxSuppressionTime =
      (observePropagationFeedback cfg m vvOther c).maxSuppressionTime := by
  rw [received, (sameWindow_updateSyncInterval cfg m _ _).maxSuppressionTime, mergeStateVector_fst]

/-- What a received vector is reported as. -/
def receiveEffects (cfg : Config) (m : Moment) (vvOther : VersionVector) (face : UInt64)
    (c : Core) : List Effect :=
  if (receiveResult cfg m vvOther c).missingInfo.isEmpty then []
  else [.onUpdate ((receiveResult cfg m vvOther c).missingInfo.map
    fun e => { e with incomingFace := face })]

/-- `processVector` in terms of the merged state. -/
theorem processVector_eq :
    processVector P cfg m vvOther face c =
      (let (c', recorded) := recordVector m vvOther (received cfg m vvOther c)
       if recorded then (c', receiveEffects cfg m vvOther face c)
       else (answerOrReset P cfg m vvOther (receiveResult cfg m vvOther c).myVectorNew c',
        receiveEffects cfg m vvOther face c)) := rfl

/-- In suppression a received vector is merged and recorded. -/
theorem processVector_of_some {r : VersionVector} (h : c.recordedVv = some r) :
    (processVector P cfg m vvOther face c).1 =
      { received cfg m vvOther c with recordedVv := some (raiseEntries m r vvOther) } := by
  have hr := (received_recordedVv cfg m vvOther (c := c)).trans h
  rw [processVector_eq, recordVector, hr]
  rfl

/-- In steady state a received vector is merged, then answered or not. -/
theorem processVector_of_none (h : c.recordedVv = none) :
    (processVector P cfg m vvOther face c).1 =
      answerOrReset P cfg m vvOther (receiveResult cfg m vvOther c).myVectorNew
        (received cfg m vvOther c) := by
  have hr := (received_recordedVv cfg m vvOther (c := c)).trans h
  rw [processVector_eq, recordVector, hr]
  rfl

/-- After the merge only the event and the recorded vector move. -/
theorem processVector_writes :
    ∃ recorded next event, (processVector P cfg m vvOther face c).1 =
      { received cfg m vvOther c with
        recordedVv := recorded
        nextSyncInterest := next
        retxEvent := event } := by
  cases h : c.recordedVv with
  | none =>
    rw [processVector_of_none P cfg m vvOther face h]
    exact answerOrReset_writes P cfg m _ vvOther _
  | some r =>
    rw [processVector_of_some P cfg m vvOther face h]
    exact ⟨_, _, _, rfl⟩

theorem processVector_vv :
    (processVector P cfg m vvOther face c).1.vv = raiseEntries m c.vv vvOther := by
  obtain ⟨_, _, _, hprocess⟩ := processVector_writes P cfg m vvOther face (c := c)
  rw [hprocess]
  exact received_vv cfg m vvOther

theorem processVector_recordedVv :
    (processVector P cfg m vvOther face c).1.recordedVv =
      match c.recordedVv with
      | some r => some (raiseEntries m r vvOther)
      | none => if (receiveResult cfg m vvOther c).myVectorNew then some vvOther else none := by
  cases h : c.recordedVv with
  | none =>
    rw [processVector_of_none P cfg m vvOther face h,
      answerOrReset_recordedVv P cfg m vvOther ((received_recordedVv cfg m vvOther).trans h)]
  | some r => rw [processVector_of_some P cfg m vvOther face h]

/-- A received vector is reported through `m_onUpdate` with the ranges of its merge. -/
theorem effects_processVector :
    (processVector P cfg m vvOther face c).2 = receiveEffects cfg m vvOther face c := by
  rw [processVector_eq]
  dsimp only
  split <;> rfl

end

end Svs.Core
