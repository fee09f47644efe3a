import Svs.Spec.Announcement

/-!
# How soon a lagging peer is answered

Out of suppression, a vector that lacks an old enough entry is answered after a delay
that the suppression curve keeps within `m_maxSuppressionTime`.  The curve reaches 0
at the upper end of the draw, and to `retxSyncInterest` a delay of 0 means that it
shall sample one for the whole period.

## Key results

- `repliesInTime_iff`: when the answer is pending within the suppression time
-/

namespace Svs.Core

variable {P : Platform} {cfg : Config} {m : Moment} {c : Core} {log : List VersionVector}
  {vvOther : VersionVector}

/-- After the vector is processed, the retransmission event fires within the suppression
    time. -/
def RepliesInTime (P : Platform) (cfg : Config) (m : Moment) (vvOther : VersionVector)
    (face : UInt64) (c : Core) : Prop :=
  ∃ t, (processVector P cfg m vvOther face c).1.retxEvent = some t ∧
    t ≤ m.currentTime + 1000 * (processVector P cfg m vvOther face c).1.maxSuppressionTime

/-- The draw is curved to 0 while the event lies ahead, and the delay sampled instead is
    longer than the suppression time. -/
def DelayResampled (P : Platform) (cfg : Config) (m : Moment) (vvOther : VersionVector)
    (c : Core) : Prop :=
  answerDelay P cfg m vvOther c = 0 ∧ m.currentTime < c.nextSyncInterest ∧
    (observePropagationFeedback cfg m vvOther c).maxSuppressionTime <
      sampleSyncDelay cfg m (received cfg m vvOther c)

/-- `m_nextSyncInterest` says that the event is near while there is none within the
    suppression time. -/
def RememberedWrong (P : Platform) (cfg : Config) (m : Moment) (vvOther : VersionVector)
    (c : Core) : Prop :=
  c.nextSyncInterest ≤ m.currentTime + answerDelay P cfg m vvOther c * 1000 ∧
    ∀ t, c.retxEvent = some t →
      m.currentTime + 1000 * (observePropagationFeedback cfg m vvOther c).maxSuppressionTime < t

variable (P cfg) in
/-- The answer's delay never exceeds the suppression time. -/
theorem answerDelay_le_maxSuppressionTime (h : WindowBounded c) (m : Moment)
    (vvOther : VersionVector) :
    0 ≤ answerDelay P cfg m vvOther c ∧
      answerDelay P cfg m vvOther c ≤
        (observePropagationFeedback cfg m vvOther c).maxSuppressionTime := by
  obtain ⟨hlow, -⟩ : WindowBounded (observePropagationFeedback cfg m vvOther c) :=
    h.observePropagationFeedback m vvOther
  have hdraw := m.intrReply_mem (observePropagationFeedback cfg m vvOther c).maxSuppressionTime
    (by omega)
  exact suppressionCurve_mem P (by omega) hdraw.2

/-- A remembered time that is wrong is not that of the event: nothing was scheduled yet, or
    `1000 * delay` wrapped. -/
theorem RememberedWrong.retxEvent_ne (h : RememberedWrong P cfg m vvOther c) (hwin : WindowBounded c) :
    c.retxEvent ≠ some c.nextSyncInterest := by
  intro hevent
  obtain ⟨-, hle⟩ := answerDelay_le_maxSuppressionTime P cfg hwin m vvOther
  have hnear := h.1
  have hlate := h.2 _ hevent
  omega

/-- The event after a vector that is to be answered. -/
theorem retxEvent_processVector (hr : c.recordedVv = none)
    (hnew : (receiveResult cfg m vvOther c).myVectorNew = true) (face : UInt64) :
    (processVector P cfg m vvOther face c).1.retxEvent =
      if m.currentTime + answerDelay P cfg m vvOther c * 1000 < c.nextSyncInterest then
        (scheduleRetx cfg m (toUnsigned (answerDelay P cfg m vvOther c))
          { received cfg m vvOther c with recordedVv := some vvOther }).retxEvent
      else c.retxEvent := by
  rw [processVector_of_none P cfg m vvOther face hr, hnew,
    answerOrReset_true P cfg m vvOther ((received_recordedVv cfg m vvOther).trans hr),
    received_maxSuppressionTime, received_nextSyncInterest, ← answerDelay]
  dsimp only
  split
  · rfl
  · exact received_retxEvent cfg m vvOther

/-- A delay of 0 moves the event to a sampled time. -/
theorem retxEvent_of_delay_zero (hr : c.recordedVv = none)
    (hnew : (receiveResult cfg m vvOther c).myVectorNew = true)
    (hzero : answerDelay P cfg m vvOther c = 0) (hahead : m.currentTime < c.nextSyncInterest)
    (face : UInt64) :
    (processVector P cfg m vvOther face c).1.retxEvent =
      some (m.currentTime + 1000 * sampleSyncDelay cfg m (received cfg m vvOther c)) := by
  rw [retxEvent_processVector hr hnew face, hzero, if_pos (by omega)]
  rfl

/-- Any other delay moves the event to its end. -/
theorem retxEvent_of_delay_pos (hr : c.recordedVv = none)
    (hnew : (receiveResult cfg m vvOther c).myVectorNew = true)
    (hpos : 0 < answerDelay P cfg m vvOther c) (hmax : answerDelay P cfg m vvOther c ≤ 1200)
    (hfar : m.currentTime + answerDelay P cfg m vvOther c * 1000 < c.nextSyncInterest)
    (face : UInt64) :
    (processVector P cfg m vvOther face c).1.retxEvent =
      some (m.currentTime + 1000 * answerDelay P cfg m vvOther c) := by
  have hto : (toUnsigned (answerDelay P cfg m vvOther c) : Int) =
      answerDelay P cfg m vvOther c := by
    unfold toUnsigned
    omega
  have hne : toUnsigned (answerDelay P cfg m vvOther c) ≠ 0 := by omega
  rw [retxEvent_processVector hr hnew face, if_pos hfar, scheduleRetx_retxEvent cfg m hne, hto]

/-- An event that is near by the remembered time stays. -/
theorem repliesInTime_of_near (hr : c.recordedVv = none)
    (hnew : (receiveResult cfg m vvOther c).myVectorNew = true)
    (hnear : c.nextSyncInterest ≤ m.currentTime + answerDelay P cfg m vvOther c * 1000)
    (face : UInt64) :
    RepliesInTime P cfg m vvOther face c ↔ ¬RememberedWrong P cfg m vvOther c := by
  rw [RepliesInTime, retxEvent_processVector hr hnew face, if_neg (by omega),
    processVector_maxSuppressionTime m vvOther face c]
  constructor
  · intro hintime hwrong
    obtain ⟨t, ht, hle⟩ := hintime
    have := hwrong.2 t ht
    omega
  · intro hright
    by_contra hlate
    push Not at hlate
    exact hright ⟨hnear, hlate⟩

/-- A vector that is to be answered leaves the event within the suppression time, except
    where a delay of 0 is replaced by a longer sample, or the remembered time is wrong. -/
theorem repliesInTime_iff (hreach : Reachable P cfg c log) (hr : c.recordedVv = none)
    (hnew : (receiveResult cfg m vvOther c).myVectorNew = true) (face : UInt64) :
    RepliesInTime P cfg m vvOther face c ↔
      ¬DelayResampled P cfg m vvOther c ∧ ¬RememberedWrong P cfg m vvOther c := by
  have hwin := windowBounded_of_reachable hreach
  obtain ⟨hnonneg, hle⟩ := answerDelay_le_maxSuppressionTime P cfg hwin m vvOther
  have hmax : answerDelay P cfg m vvOther c ≤ 1200 := (answerDelay_mem hwin m vvOther).2
  by_cases hfar : m.currentTime + answerDelay P cfg m vvOther c * 1000 < c.nextSyncInterest
  · have hright : ¬RememberedWrong P cfg m vvOther c := fun h => by
      have := h.1
      omega
    rw [and_iff_left hright]
    rcases hnonneg.eq_or_lt with hzero | hpos
    · -- the event is moved to a sampled time
      have hahead : m.currentTime < c.nextSyncInterest := by omega
      rw [RepliesInTime, retxEvent_of_delay_zero hr hnew hzero.symm hahead face,
        processVector_maxSuppressionTime m vvOther face c, DelayResampled,
        and_iff_right hzero.symm, and_iff_right hahead]
      simp only [Option.some.injEq, exists_eq_left']
      omega
    · -- the event is moved to the end of the curved delay
      rw [RepliesInTime, retxEvent_of_delay_pos hr hnew hpos hmax hfar face,
        processVector_maxSuppressionTime m vvOther face c]
      constructor
      · exact fun _ h => hpos.ne' h.1
      · exact fun _ => ⟨_, rfl, by omega⟩
  · -- the event stays
    have hnot : ¬DelayResampled P cfg m vvOther c := fun h => by
      have h0 := h.1
      have hahead := h.2.1
      omega
    rw [and_iff_right hnot]
    exact repliesInTime_of_near hr hnew (by omega) face

/-- As `Moment.atMs`, with the highest draw for an answer. -/
def highestReply (ms : Int) : Moment :=
  { Moment.atMs ms with
    intrReply := fun hi => hi
    intrReply_mem := fun _ h => ⟨h, le_rfl⟩ }

/-- Node `a` has announced a publication, and long since. -/
def announcedNode : Core × List VersionVector :=
  run .plain nodeA [(.atMs 0, .start), (.atMs 100, .updateSeqNo 1 EMPTY_NODE_ID), (.atMs 101, .retx)]
    (init nodeA 0, [])

/-- A peer that knows nothing is answered after the whole period. -/
theorem not_repliesInTime :
    ¬∀ (P : Platform) (cfg : Config) (c : Core) (log : List VersionVector) (m : Moment)
      (vvOther : VersionVector) (face : UInt64), Reachable P cfg c log → c.recordedVv = none →
      (receiveResult cfg m vvOther c).myVectorNew = true →
      RepliesInTime P cfg m vvOther face c := by
  intro h
  obtain ⟨t, ht, hle⟩ := h .plain nodeA announcedNode.1 announcedNode.2 (highestReply 2000) .empty 0
    ((Reachable.init 0).run _) (by
      rw [← Option.isNone_iff_eq_none]
      decide +kernel) (by decide +kernel)
  have hlate : (processVector .plain nodeA (highestReply 2000) .empty 0
      announcedNode.1).1.retxEvent = some 25186000 := by
    decide +kernel
  have hwindow : (processVector .plain nodeA (highestReply 2000) .empty 0
      announcedNode.1).1.maxSuppressionTime = 331 := by
    decide +kernel
  have hnow : (highestReply 2000).currentTime = 2000000 := rfl
  rw [hlate, Option.some.injEq] at ht
  rw [hwindow, hnow] at hle
  omega

/-- With the lowest draw the same peer is answered within the suppression time. -/
theorem repliesInTime_lowestReply :
    RepliesInTime .plain nodeA (.atMs 2000) .empty 0 announcedNode.1 := by
  have hreach : Reachable .plain nodeA announcedNode.1 announcedNode.2 := (Reachable.init 0).run _
  have hsteady : announcedNode.1.recordedVv = none := by
    rw [← Option.isNone_iff_eq_none]
    decide +kernel
  refine (repliesInTime_iff hreach hsteady (by decide +kernel) 0).mpr ⟨?_, ?_⟩
  · intro hresampled
    exact absurd hresampled.1 (by decide +kernel)
  · intro hwrong
    have hevent : announcedNode.1.retxEvent = some announcedNode.1.nextSyncInterest := by decide +kernel
    exact hwrong.retxEvent_ne (windowBounded_of_reachable hreach) hevent

end Svs.Core
