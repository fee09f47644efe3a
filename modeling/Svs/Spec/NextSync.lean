import Svs.ForStd.Run
import Svs.Spec.Announcement
import Svs.Spec.SendGap
import Svs.Spec.TimerBounds

/-!
# The remembered time

`m_nextSyncInterest` is what a suppression reply is compared with, in place of the time
of the pending event.  Both are set at the end of `retxSyncInterest`, the event from the
delay and the remembered time from `1000 * delay` on `unsigned int`, which wraps from
4294968 milliseconds on.  Where the arithmetic on `long` overflows, nothing is said.

## Key results

- `schedules_step`: what a step makes of the event and of the remembered time
- `tellsTruth_iff`: the runs in which the remembered time is the time of the event
- `tellsTruth_of_fits`: configurations under which it always is
-/

namespace Svs.Core

open VersionVector

variable {P : Platform} {cfg : Config} {m : Moment} {c c' : Core}

/-! ## The delay of a step -/

/-- The rest of the minimum gap in milliseconds, as an `unsigned int`. -/
def gapRest (cfg : Config) (m : Moment) (c : Core) : Nat :=
  toUnsigned (max 1 ((c.lastSyncTxUs + minGapUs cfg c - m.currentTime + 999).tdiv 1000))

/-- A delay of 0 asks for a sampled one. -/
def orSampled (cfg : Config) (m : Moment) (delay : Nat) (c : Core) : Nat :=
  if delay = 0 then sampleSyncDelay cfg m c else delay

/-- The state after `updateSeqNo` has moved the period. -/
def updated (cfg : Config) (m : Moment) (seq : SeqNo) (nid : NodeID) (c : Core) : Core :=
  updateSyncInterval cfg m .LocalUpdate { c with vv := c.vv.set (targetNode cfg nid) seq m.now }

/-- The comparison of a reply with the remembered time is made. -/
def Compares (cfg : Config) (m : Moment) (e : Event) (c : Core) : Prop :=
  match e with
  | .syncInterest vvOther _ => c.recordedVv = none ∧ (receiveResult cfg m vvOther c).myVectorNew = true
  | .start | .retx | .updateSeqNo _ _ => False

/-- The delay that a step has in the end of `retxSyncInterest`, if it calls it, and the
    state that a delay of 0 is sampled in: the rest of the gap, the delay of a local update
    or of a reply, or 0. -/
def retxCall (P : Platform) (cfg : Config) (m : Moment) (e : Event) (c : Core) : Option (Nat × Core) :=
  match e with
  | .start | .retx => some (if withinGap cfg m c then gapRest cfg m c else 0, c)
  | .syncInterest vvOther _ =>
    if c.recordedVv.isSome then none
    else if !(receiveResult cfg m vvOther c).myVectorNew then some (0, received cfg m vvOther c)
    else if m.currentTime + answerDelay P cfg m vvOther c * 1000 < c.nextSyncInterest then
      some (toUnsigned (answerDelay P cfg m vvOther c), received cfg m vvOther c)
    else none
  | .updateSeqNo seq nid =>
    if c.vv.get (targetNode cfg nid) < seq then
      some (toUnsigned (localDelay cfg (updated cfg m seq nid c)), updated cfg m seq nid c)
    else none

/-- The delay in milliseconds that a step has `retxSyncInterest` wait, if it calls it. -/
def retxDelay (P : Platform) (cfg : Config) (m : Moment) (e : Event) (c : Core) : Option Nat :=
  (retxCall P cfg m e c).map fun call => orSampled cfg m call.1 call.2

/-- The event and the remembered time after waiting for the delay, if there is one. -/
def Schedules (m : Moment) (delay : Option Nat) (c c' : Core) : Prop :=
  match delay with
  | none => c'.retxEvent = c.retxEvent ∧ c'.nextSyncInterest = c.nextSyncInterest
  | some delay =>
    c'.retxEvent = some (m.currentTime + 1000 * delay) ∧
      c'.nextSyncInterest = m.currentTime + (1000 * delay % 2 ^ 32 : Nat)

theorem schedules_scheduleRetx (cfg : Config) (m : Moment) (delay : Nat) (c₀ c : Core) :
    Schedules m (some (orSampled cfg m delay c)) c₀ (scheduleRetx cfg m delay c) := ⟨rfl, rfl⟩

/-- Sending keeps what a sampled delay depends on. -/
theorem sampleSyncDelay_sendUnlessSuppressed (P : Platform) (cfg : Config) (m : Moment) (c : Core) :
    sampleSyncDelay cfg m (sendUnlessSuppressed P cfg m c).1 = sampleSyncDelay cfg m c := by
  cases hr : c.recordedVv with
  | none =>
    obtain ⟨_, _, _, _, _, _, hsend⟩ := sendSyncInterest_writes P cfg m c
    rw [sendUnlessSuppressed_of_none P cfg m hr, hsend]
    rfl
  | some r =>
    rw [sendUnlessSuppressed_of_some P cfg m hr]
    split
    · obtain ⟨_, _, _, _, _, _, hsend⟩ := sendSyncInterest_writes P cfg m (mergeStateVector m r c).1
      rw [hsend, mergeStateVector_fst]
      rfl
    · rw [mergeStateVector_fst]
      rfl

theorem schedules_retxSyncInterest (P : Platform) (cfg : Config) (m : Moment) (c₀ c : Core) :
    Schedules m (some (orSampled cfg m (if withinGap cfg m c then gapRest cfg m c else 0) c)) c₀
      (retxSyncInterest P cfg m true 0 c).1 := by
  cases hgap : withinGap cfg m c with
  | true =>
    rw [retxSyncInterest, if_pos rfl, if_pos hgap, if_pos rfl]
    exact schedules_scheduleRetx cfg m (gapRest cfg m c) c₀ c
  | false =>
    have hsample : orSampled cfg m 0 (sendUnlessSuppressed P cfg m c).1 = orSampled cfg m 0 c :=
      sampleSyncDelay_sendUnlessSuppressed P cfg m c
    rw [retxSyncInterest_pastGap P cfg m 0 hgap, if_neg Bool.false_ne_true, ← hsample]
    exact schedules_scheduleRetx cfg m 0 c₀ _

theorem schedules_processVector (P : Platform) (cfg : Config) (m : Moment) (vvOther : VersionVector)
    (face : UInt64) (c : Core) :
    Schedules m (retxDelay P cfg m (.syncInterest vvOther face) c) c
      (processVector P cfg m vvOther face c).1 := by
  cases hr : c.recordedVv with
  | some r =>
    have hnone : retxDelay P cfg m (.syncInterest vvOther face) c = none := by
      simp [retxDelay, retxCall, hr]
    rw [hnone, processVector_of_some P cfg m vvOther face hr]
    exact ⟨received_retxEvent cfg m vvOther, received_nextSyncInterest cfg m vvOther⟩
  | none =>
    rw [processVector_of_none P cfg m vvOther face hr]
    cases hnew : (receiveResult cfg m vvOther c).myVectorNew with
    | false =>
      have hsome : retxDelay P cfg m (.syncInterest vvOther face) c =
          some (orSampled cfg m 0 (received cfg m vvOther c)) := by
        simp [retxDelay, retxCall, hr, hnew]
      rw [hsome]
      exact schedules_scheduleRetx cfg m 0 c _
    | true =>
      rw [answerOrReset_true P cfg m vvOther ((received_recordedVv cfg m vvOther).trans hr),
        received_maxSuppressionTime, received_nextSyncInterest, ← answerDelay]
      dsimp only
      split
      · next hfar =>
        have hsome : retxDelay P cfg m (.syncInterest vvOther face) c =
            some (orSampled cfg m (toUnsigned (answerDelay P cfg m vvOther c))
              (received cfg m vvOther c)) := by
          simp [retxDelay, retxCall, hr, hnew, hfar]
        rw [hsome]
        exact schedules_scheduleRetx cfg m _ c { received cfg m vvOther c with recordedVv := some vvOther }
      · next hnear =>
        have hnone : retxDelay P cfg m (.syncInterest vvOther face) c = none := by
          simp [retxDelay, retxCall, hr, hnew, hnear]
        rw [hnone]
        exact ⟨received_retxEvent cfg m vvOther, rfl⟩

variable (P cfg) in
/-- What a step makes of the event and of the remembered time. -/
theorem schedules_step (m : Moment) (e : Event) (c : Core) :
    Schedules m (retxDelay P cfg m e c) c (step P cfg m e c).1 := by
  cases e with
  | start => exact schedules_retxSyncInterest P cfg m c { c with initialized := true }
  | syncInterest vvOther face => exact schedules_processVector P cfg m vvOther face c
  | retx => exact schedules_retxSyncInterest P cfg m c c
  | updateSeqNo seq nid =>
    rw [Core.step, Core.updateSeqNo, retxDelay, retxCall]
    dsimp only
    split
    · exact schedules_scheduleRetx cfg m _ c (updated cfg m seq nid c)
    · exact ⟨rfl, rfl⟩

/-! ## Runs -/

/-- The remembered time is the time at which the pending event fires. -/
def RemembersEvent (c : Core) : Prop := c.retxEvent = some c.nextSyncInterest

/-- The remembered time is right in a step: after a call of `retxSyncInterest`, while an
    event is pending, and where a reply is compared with it. -/
structure TellsTruth (P : Platform) (cfg : Config) (e : Moment × Event) (c : Core) : Prop where
  called : (retxDelay P cfg e.1 e.2 c).isSome → RemembersEvent (next P cfg e c)
  pending : (next P cfg e c).retxEvent.isSome → RemembersEvent (next P cfg e c)
  compared : Compares cfg e.1 e.2 c → RemembersEvent c

/-- The arithmetic of the gap in `retxSyncInterest` stays within `long`. -/
structure GapFits (cfg : Config) (m : Moment) (c : Core) : Prop where
  minSendInterval : IsLong (cfg.minSendInterval * 1000)
  nextTx : 0 < minGapUs cfg c → 0 < c.lastSyncTxUs → IsLong (c.lastSyncTxUs + minGapUs cfg c)
  rest : withinGap cfg m c = true → IsLong (c.lastSyncTxUs + minGapUs cfg c - m.currentTime + 999)

/-- If the step calls `retxSyncInterest`, the arithmetic there, and of `sampleSyncDelay`
    where a delay is sampled, stays within `long`. -/
structure LongsFit (P : Platform) (cfg : Config) (m : Moment) (e : Event) (c : Core) : Prop where
  gap : e = .start ∨ e = .retx → GapFits cfg m c
  ends : ∀ c', retxCall P cfg m e c = some (0, c') →
    IsLong (syncDelayEnds cfg c').1 ∧ IsLong (syncDelayEnds cfg c').2
  scheduled : ∀ delay, retxDelay P cfg m e c = some delay →
    IsLong (m.currentTime + (1000 * delay % 2 ^ 32 : Nat))

/-- The step waits longer than `1000 * delay` can tell in 32 bits. -/
def Overlong (P : Platform) (cfg : Config) (m : Moment) (e : Event) (c : Core) : Prop :=
  ∃ delay, retxDelay P cfg m e c = some delay ∧ 4294967 < delay

/-- The remembered time is that of the event, and without one nothing has been published
    or heard. -/
structure Remembers (c : Core) : Prop where
  event : c.retxEvent.isSome → RemembersEvent c
  recordedVv : c.retxEvent = none → c.recordedVv = none
  get : c.retxEvent = none → ∀ nid, c.vv.get nid = 0

theorem remembers_init (cfg : Config) (uninitialized : Int) : Remembers (init cfg uninitialized) := by
  obtain ⟨hvv, hrec, hevent, -⟩ := init_frame cfg uninitialized
  constructor
  · intro hsome
    rw [hevent] at hsome
    cases hsome
  · exact fun _ => hrec
  · intro _ nid
    rw [hvv, get_empty]

/-- A node that knows nothing has nothing newer than a received vector. -/
theorem myVectorNew_of_get_zero (hget : ∀ nid, c.vv.get nid = 0) (cfg : Config) (m : Moment)
    (vvOther : VersionVector) : (receiveResult cfg m vvOther c).myVectorNew = false := by
  rw [receiveResult, ← Bool.not_eq_true, myVectorNew_iff]
  intro hnew
  obtain ⟨nid, hlt, -⟩ := hnew
  rw [(sameSync_observePropagationFeedback cfg m c vvOther).vv, hget nid] at hlt
  exact absurd hlt UInt64.not_lt_zero

theorem Remembers.compared (h : Remembers c) {e : Event} (hcompares : Compares cfg m e c) :
    RemembersEvent c := by
  cases hevent : c.retxEvent with
  | some t => exact h.event (by rw [hevent]; rfl)
  | none =>
    cases e with
    | syncInterest vvOther face =>
      have hnew := hcompares.2
      rw [myVectorNew_of_get_zero (h.get hevent)] at hnew
      cases hnew
    | start | retx | updateSeqNo => exact hcompares.elim

/-- A step whose delay fits schedules the event for the remembered time. -/
theorem remembersEvent_of_fits {delay : Nat} (hs : Schedules m (some delay) c c')
    (hfits : delay ≤ 4294967) : RemembersEvent c' := by
  rw [RemembersEvent, hs.1, hs.2, Nat.mod_eq_of_lt (by omega)]
  push_cast
  rfl

theorem not_remembersEvent_of_overlong {delay : Nat} (hs : Schedules m (some delay) c c')
    (hlong : 4294967 < delay) : ¬RemembersEvent c' := by
  rw [RemembersEvent, hs.1, hs.2, Option.some.injEq]
  omega

/-- With no event pending, only an update that is no news schedules none. -/
theorem Remembers.update_of_none (h : Remembers c) (hevent : c.retxEvent = none) {e : Event}
    (hdelay : retxDelay P cfg m e c = none) :
    ∃ seq nid, e = .updateSeqNo seq nid ∧ ¬c.vv.get (targetNode cfg nid) < seq := by
  cases e with
  | start | retx => cases hdelay
  | syncInterest vvOther face =>
    -- the first vector is taken as news, and the timer is reset
    have hnew := myVectorNew_of_get_zero (h.get hevent) cfg m vvOther
    simp [retxDelay, retxCall, h.recordedVv hevent, hnew] at hdelay
  | updateSeqNo seq nid =>
    refine ⟨seq, nid, rfl, ?_⟩
    intro hlt
    rw [retxDelay, retxCall, if_pos hlt] at hdelay
    cases hdelay

theorem Remembers.step (h : Remembers c) {e : Event} (hfits : ¬Overlong P cfg m e c) :
    Remembers (step P cfg m e c).1 := by
  have hs := schedules_step P cfg m e c
  cases hdelay : retxDelay P cfg m e c with
  | some delay =>
    rw [hdelay] at hs
    have hevent : (Core.step P cfg m e c).1.retxEvent ≠ none := by
      rw [hs.1]
      exact Option.some_ne_none _
    constructor
    · intro _
      apply remembersEvent_of_fits hs
      by_contra hlong
      exact hfits ⟨delay, hdelay, by omega⟩
    · exact fun hnone => absurd hnone hevent
    · exact fun hnone => absurd hnone hevent
  | none =>
    rw [hdelay] at hs
    constructor
    · intro hsome
      rw [hs.1] at hsome
      rw [RemembersEvent, hs.1, hs.2]
      exact h.event hsome
    · intro hnone
      rw [hs.1] at hnone
      obtain ⟨seq, nid, rfl, -⟩ := h.update_of_none hnone hdelay
      exact (updateSeqNo_frame cfg m seq nid).2.1.trans (h.recordedVv hnone)
    · intro hnone nid'
      rw [hs.1] at hnone
      obtain ⟨seq, nid, rfl, hle⟩ := h.update_of_none hnone hdelay
      have hzero : seq = 0 := by
        rw [h.get hnone, UInt64.not_lt] at hle
        exact UInt64.le_zero_iff.mp hle
      rw [Core.step, (updateSeqNo_frame cfg m seq nid).1, get_set, hzero]
      split
      · rfl
      · exact h.get hnone nid'

theorem TellsTruth.not_overlong {e : Moment × Event} (h : TellsTruth P cfg e c) :
    ¬Overlong P cfg e.1 e.2 c := by
  rintro ⟨delay, hdelay, hlt⟩
  have hs := schedules_step P cfg e.1 e.2 c
  rw [hdelay] at hs
  exact not_remembersEvent_of_overlong hs hlt (h.called (by rw [hdelay]; rfl))

theorem Remembers.tellsTruth (h : Remembers c) {e : Moment × Event} (hshort : ¬Overlong P cfg e.1 e.2 c) :
    TellsTruth P cfg e c := by
  have hnext : Remembers (next P cfg e c) := h.step hshort
  constructor
  · intro hcalled
    apply hnext.event
    obtain ⟨delay, hdelay⟩ := Option.isSome_iff_exists.mp hcalled
    have hs := schedules_step P cfg e.1 e.2 c
    rw [hdelay] at hs
    rw [next, hs.1]
    rfl
  · exact hnext.event
  · exact h.compared

/-- Where no step is overlong, the remembered time is right in every step. -/
theorem always_tellsTruth {uninitialized : Int} {events : List (Moment × Event)}
    (h : Run.Always (next P cfg) (fun e c => LongsFit P cfg e.1 e.2 c ∧ ¬Overlong P cfg e.1 e.2 c)
      events (init cfg uninitialized)) :
    Run.Always (next P cfg) (fun e c => LongsFit P cfg e.1 e.2 c ∧ TellsTruth P cfg e c) events
      (init cfg uninitialized) :=
  h.imp (remembers_init cfg uninitialized) (fun _ _ hc h => hc.step h.2)
    fun _ _ hc h => ⟨h.1, hc.tellsTruth h.2⟩

/-- Nothing overflows and the remembered time is right in every step of a run just when
    nothing overflows and no step is overlong. -/
theorem tellsTruth_iff (P : Platform) (cfg : Config) (uninitialized : Int)
    (events : List (Moment × Event)) :
    Run.Always (next P cfg) (fun e c => LongsFit P cfg e.1 e.2 c ∧ TellsTruth P cfg e c) events
        (init cfg uninitialized) ↔
      Run.Always (next P cfg) (fun e c => LongsFit P cfg e.1 e.2 c ∧ ¬Overlong P cfg e.1 e.2 c) events
        (init cfg uninitialized) := by
  constructor
  · intro h
    exact h.imp (I := fun _ => True) trivial (fun _ _ _ _ => trivial)
      fun _ _ _ htells => ⟨htells.1, htells.2.not_overlong⟩
  · exact always_tellsTruth

/-- A local update that waits for 4294968 milliseconds is remembered as due in 704
    microseconds, and nothing overflows. -/
theorem not_tellsTruth :
    ¬∀ (P : Platform) (cfg : Config) (uninitialized : Int) (events : List (Moment × Event)),
      Run.Always (next P cfg) (fun e c => LongsFit P cfg e.1 e.2 c) events (init cfg uninitialized) →
        Run.Always (next P cfg) (TellsTruth P cfg) events (init cfg uninitialized) := by
  intro h
  have hdelay : retxDelay .plain { localUpdateDelay := 4294968 } (.atMs 1000) (.updateSeqNo 1 EMPTY_NODE_ID)
      (init { localUpdateDelay := 4294968 } 0) = some 4294968 := by
    decide +kernel
  have hfits : LongsFit .plain { localUpdateDelay := 4294968 } (.atMs 1000) (.updateSeqNo 1 EMPTY_NODE_ID)
      (init { localUpdateDelay := 4294968 } 0) := by
    constructor
    case gap => simp
    case ends =>
      -- no delay is sampled
      have hcall : (retxCall .plain { localUpdateDelay := 4294968 } (.atMs 1000)
          (.updateSeqNo 1 EMPTY_NODE_ID) (init { localUpdateDelay := 4294968 } 0)).map Prod.fst =
            some 4294968 := by
        decide +kernel
      intro c' hzero
      rw [hzero] at hcall
      cases hcall
    case scheduled =>
      intro delay hsome
      obtain rfl := Option.some.inj (hdelay.symm.trans hsome)
      decide
  have hright := ((h .plain { localUpdateDelay := 4294968 } 0
    [(.atMs 1000, .updateSeqNo 1 EMPTY_NODE_ID)] ⟨hfits, trivial⟩).1).called (by rw [hdelay]; rfl)
  have hwrong : ¬(next .plain { localUpdateDelay := 4294968 }
      (.atMs 1000, .updateSeqNo 1 EMPTY_NODE_ID) (init { localUpdateDelay := 4294968 } 0)).retxEvent =
        some (next .plain { localUpdateDelay := 4294968 }
          (.atMs 1000, .updateSeqNo 1 EMPTY_NODE_ID)
          (init { localUpdateDelay := 4294968 } 0)).nextSyncInterest := by
    decide +kernel
  exact hwrong hright

/-! ## Configurations whose delays fit -/

/-- The delays that the configuration leads to are below 4294968 milliseconds. -/
structure DelaysFit (cfg : Config) : Prop where
  abs_minSendInterval : |cfg.minSendInterval| ≤ 4294967
  localUpdateDelay : cfg.localUpdateDelay ≤ 4294967
  abs_jitter : |cfg.periodicSyncJitter| ≤ 142
  networkAwareMin : cfg.networkAwareMinPeriodicSyncTime ≤ 5000
  strategy : cfg.stateVectorStrategy ≠ .Full

theorem toUnsigned_le {x : Int} (hnonneg : 0 ≤ x) (hle : x ≤ 4294967) : toUnsigned x ≤ 4294967 := by
  unfold toUnsigned
  omega

theorem llround_le {x : ℚ} {n : Int} (h : x ≤ n) : llround x ≤ n := by
  unfold llround
  split
  · rw [← Int.lt_add_one_iff, Int.floor_lt]
    push_cast
    linarith
  · have hfloor : -n ≤ ⌊-x + 1 / 2⌋ := by
      rw [Int.le_floor]
      push_cast
      linarith
    omega

theorem llround_neg (x : ℚ) : llround (-x) = -llround x := by
  unfold llround
  rcases lt_trichotomy x 0 with hneg | rfl | hpos
  · rw [if_pos (by linarith), if_neg (by linarith), neg_neg]
  · norm_num
  · rw [if_neg (by linarith), if_pos hpos.le, neg_neg]

theorem le_llround {x : ℚ} {n : Int} (h : (n : ℚ) ≤ x) : n ≤ llround x := by
  have hneg : llround (-x) ≤ -n := llround_le (by push_cast; linarith)
  rw [llround_neg] at hneg
  omega

/-- The period is spread by the jitter, and by at most 13 percent more. -/
theorem syncDelayEnds_mem (h : DelaysFit cfg) (hperiod : c.periodicSyncTime ≤ maxPeriodicSyncTime) :
    (-4294967 ≤ (syncDelayEnds cfg c).1 ∧ (syncDelayEnds cfg c).1 ≤ 4294967) ∧
      -4294967 ≤ (syncDelayEnds cfg c).2 ∧ (syncDelayEnds cfg c).2 ≤ 4294967 := by
  obtain ⟨hjitter, hjitter'⟩ := abs_le.mp h.abs_jitter
  obtain ⟨hloss, hloss'⟩ : 0 ≤ cfg.linkLossRate ∧ cfg.linkLossRate ≤ 95 / 100 :=
    clamp_mem _ (by norm_num)
  obtain ⟨hpressure, hpressure'⟩ : 0 ≤ feedbackPressure c.feedbackDelayMs c.feedbackJitterMs ∧
      feedbackPressure c.feedbackDelayMs c.feedbackJitterMs ≤ 1 := clamp_mem _ zero_le_one
  have hbase : (1 : ℚ) ≤ (max 1 c.periodicSyncTime : Int) := by exact_mod_cast le_max_left _ _
  have hbase' : ((max 1 c.periodicSyncTime : Int) : ℚ) ≤ 30000 := by
    unfold maxPeriodicSyncTime at hperiod
    exact_mod_cast max_le (by norm_num) hperiod
  rw [syncDelayEnds]
  generalize hextra : (if cfg.timerMode = .NetworkAware then
      5 / 100 * cfg.linkLossRate + 8 / 100 * feedbackPressure c.feedbackDelayMs c.feedbackJitterMs
      else 0 : ℚ) = spread
  have hspread : 0 ≤ spread ∧ spread ≤ 13 / 100 := by
    rw [← hextra]
    split
    · constructor <;> linarith
    · norm_num
  obtain ⟨hspread, hspread'⟩ := hspread
  -- a period of at most 30 seconds, times at most 143.13
  refine ⟨⟨le_llround ?_, llround_le ?_⟩, le_llround ?_, llround_le ?_⟩ <;>
    push_cast at hbase hbase' ⊢ <;> nlinarith

theorem sampleSyncDelay_le (h : DelaysFit cfg) (hperiod : c.periodicSyncTime ≤ maxPeriodicSyncTime)
    (m : Moment) : sampleSyncDelay cfg m c ≤ 4294967 := by
  obtain ⟨⟨-, hlow⟩, -, hhigh⟩ := syncDelayEnds_mem h hperiod
  rw [sampleSyncDelay]
  obtain ⟨hdraw, hdraw'⟩ := m.syncDelay_mem _ _
    (le_max_left (max 1 (syncDelayEnds cfg c).1) (syncDelayEnds cfg c).2)
  exact toUnsigned_le (by omega) (hdraw'.trans (max_le (max_le (by norm_num) hlow) hhigh))

theorem orSampled_le (h : DelaysFit cfg) (hperiod : c.periodicSyncTime ≤ maxPeriodicSyncTime)
    {delay : Nat} (hle : delay ≤ 4294967) : orSampled cfg m delay c ≤ 4294967 := by
  unfold orSampled
  split
  · exact sampleSyncDelay_le h hperiod m
  · exact hle

/-- The clock has not gone back behind the last transmission. -/
theorem gapRest_le (h : DelaysFit cfg) (hcalm : Calm c) (hclock : c.lastSyncTxUs ≤ m.currentTime) :
    gapRest cfg m c ≤ 4294967 := by
  have hgap := (abs_le.mp h.abs_minSendInterval).2
  rw [gapRest, hcalm.minGapUs_eq]
  apply toUnsigned_le (by omega)
  apply max_le (by norm_num)
  exact Int.tdiv_le_tdiv (by norm_num : (0 : Int) < 1000) (by omega : _ ≤ (4294967999 : Int))

theorem localDelay_mem (h : DelaysFit cfg) (c : Core) :
    0 ≤ localDelay cfg c ∧ localDelay cfg c ≤ 4294967 := by
  have hdelay := h.localUpdateDelay
  have hhalf := Int.tdiv_eq_ediv_of_nonneg (a := max 1 cfg.localUpdateDelay) (b := 2) (by omega)
  unfold localDelay
  dsimp only
  split <;> omega

theorem retxCall_syncInterest (hwin : WindowBounded c) {vvOther : VersionVector} {face : UInt64}
    {call : Nat × Core} (hcall : retxCall P cfg m (.syncInterest vvOther face) c = some call) :
    call.1 ≤ 4294967 ∧ call.2 = received cfg m vvOther c := by
  rw [retxCall] at hcall
  split at hcall
  · cases hcall
  · split at hcall
    · rw [← Option.some.inj hcall]
      exact ⟨Nat.zero_le _, rfl⟩
    · split at hcall
      · -- a reply waits for 1200 milliseconds at most
        obtain ⟨hnonneg, hle⟩ : 0 ≤ answerDelay P cfg m vvOther c ∧
            answerDelay P cfg m vvOther c ≤ 1200 := answerDelay_mem hwin m vvOther
        rw [← Option.some.inj hcall]
        exact ⟨toUnsigned_le hnonneg (by omega), rfl⟩
      · cases hcall

/-- The period that a local update leaves is the one its delay was sampled from. -/
theorem periodicSyncTime_updateSeqNo {seq : SeqNo} {nid : NodeID}
    (hnews : c.vv.get (targetNode cfg nid) < seq) :
    (updateSeqNo cfg m seq nid c).periodicSyncTime = (updated cfg m seq nid c).periodicSyncTime := by
  rw [Core.updateSeqNo, if_pos hnews]
  rfl

/-- The scores, the suppression time and the period are bounded. -/
structure Bounded (c : Core) : Prop where
  calm : Calm c
  window : WindowBounded c
  timers : TimersBounded c

theorem Bounded.step (hc : Bounded c) (h : DelaysFit cfg) (P : Platform) (m : Moment) (e : Event) :
    Bounded (step P cfg m e c).1 := by
  refine ⟨hc.calm.step P cfg m e, hc.window.step P cfg m e, hc.timers.step h.networkAwareMin ?_⟩
  rw [hc.timers.validBounds_iff h.networkAwareMin]
  exact fun hfull => h.strategy hfull.2.1

/-- What a step has in a call of the end of `retxSyncInterest`, while the clock does not go
    back behind the last transmission. -/
theorem retxCall_le (h : DelaysFit cfg) (hc : Bounded c) {e : Event}
    (hclock : c.lastSyncTxUs ≤ m.currentTime) {call : Nat × Core}
    (hcall : retxCall P cfg m e c = some call) :
    call.1 ≤ 4294967 ∧ call.2.periodicSyncTime ≤ maxPeriodicSyncTime := by
  have hperiod : (step P cfg m e c).1.periodicSyncTime ≤ maxPeriodicSyncTime :=
    (hc.step h P m e).timers.le_max
  cases e with
  | start | retx =>
    rw [← Option.some.inj hcall]
    refine ⟨?_, hc.timers.le_max⟩
    dsimp only
    split
    · exact gapRest_le h hc.calm hclock
    · exact Nat.zero_le _
  | syncInterest vvOther face =>
    rw [Core.step, (sameTimers_processVector P cfg m vvOther face c).periodicSyncTime] at hperiod
    obtain ⟨hle, hstate⟩ := retxCall_syncInterest hc.window hcall
    exact ⟨hle, hstate ▸ hperiod⟩
  | updateSeqNo seq nid =>
    rw [retxCall] at hcall
    split at hcall
    · next hnews =>
      rw [Core.step, periodicSyncTime_updateSeqNo hnews] at hperiod
      obtain ⟨hnonneg, hle⟩ := localDelay_mem h (updated cfg m seq nid c)
      rw [← Option.some.inj hcall]
      exact ⟨toUnsigned_le hnonneg hle, hperiod⟩
    · cases hcall

/-- No step is overlong. -/
theorem not_overlong (h : DelaysFit cfg) (hc : Bounded c) {e : Event}
    (hclock : c.lastSyncTxUs ≤ m.currentTime) : ¬Overlong P cfg m e c := by
  rintro ⟨delay, hdelay, hlt⟩
  obtain ⟨call, hcall, rfl⟩ := Option.map_eq_some_iff.mp hdelay
  obtain ⟨hle, hperiod⟩ := retxCall_le h hc hclock hcall
  exact absurd (orSampled_le (m := m) h hperiod hle) (Nat.not_le.mpr hlt)

/-- The clock has not gone back behind the last transmission, nor come far. -/
def ClockFits (m : Moment) (c : Core) : Prop :=
  c.lastSyncTxUs ≤ m.currentTime ∧ 0 ≤ m.currentTime ∧ m.currentTime < 2 ^ 62

theorem longsFit (h : DelaysFit cfg) (hc : Bounded c) (hclock : ClockFits m c) (e : Event) :
    LongsFit P cfg m e c := by
  obtain ⟨hlast, hnonneg, hlt⟩ := hclock
  obtain ⟨hgap, hgap'⟩ := abs_le.mp h.abs_minSendInterval
  constructor
  case gap =>
    intro _
    constructor
    · unfold IsLong
      omega
    · intro hpos hsent
      rw [hc.calm.minGapUs_eq] at hpos ⊢
      unfold IsLong
      omega
    · intro hwithin
      rw [withinGap, hc.calm.minGapUs_eq, decide_eq_true_eq] at hwithin
      rw [hc.calm.minGapUs_eq]
      unfold IsLong
      omega
  case ends =>
    intro c' hcall
    have hperiod : c'.periodicSyncTime ≤ maxPeriodicSyncTime := (retxCall_le h hc hlast hcall).2
    obtain ⟨⟨hlow, hlow'⟩, hhigh, hhigh'⟩ := syncDelayEnds_mem h hperiod
    unfold IsLong
    omega
  case scheduled =>
    intro delay _
    unfold IsLong
    omega

/-- Under a configuration whose delays fit, nothing overflows and the remembered time is
    right in every run in which the clock fits. -/
theorem tellsTruth_of_fits (P : Platform) (h : DelaysFit cfg) (uninitialized : Int)
    {events : List (Moment × Event)}
    (hclock : Run.Always (next P cfg) (fun e c => ClockFits e.1 c) events (init cfg uninitialized)) :
    Run.Always (next P cfg) (fun e c => LongsFit P cfg e.1 e.2 c ∧ TellsTruth P cfg e c) events
      (init cfg uninitialized) := by
  apply always_tellsTruth
  have hinit : Bounded (init cfg uninitialized) :=
    ⟨(calm_init cfg uninitialized).1, windowBounded_init uninitialized,
      timersBounded_init h.networkAwareMin uninitialized⟩
  apply hclock.imp hinit
  · intro e c hc _
    exact hc.step h P e.1 e.2
  · intro e c hc hclock
    exact ⟨longsFit h hc hclock e.2, not_overlong h hc hclock.1⟩

-- the default configuration is one of them
example : DelaysFit {} := by
  constructor
  · norm_num
  · norm_num
  · norm_num [abs_le]
  · norm_num
  · decide

end Svs.Core
