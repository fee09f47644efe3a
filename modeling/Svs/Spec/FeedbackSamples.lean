import Svs.ForStd.Run
import Svs.Spec.StepCorrect

/-!
# One propagation sample for each publication

A number waits in `m_pendingFeedbackSeqs` from its transmission until a received vector
echoes it.  `recordPropagationFeedbackSend` looks for duplicates at the back of the queue
only, so once an echo has emptied the queue, a periodic transmission of the same number
lets it wait again, and the next echo yields a second sample.

## Key results

- `pendingFeedbackSeqs_step`: what a transition does to the queue
- `SampledOnce.next_iff`: the transitions that put an echoed number back
- `sampledOnce_iff`: the runs in which no number is sampled twice
-/

namespace Svs.Core

open VersionVector

variable {P : Platform} {cfg : Config} {m : Moment} {c c' : Core}

/-! ## What touches the queue -/

/-- The queue and the number of samples stay as they are. -/
structure SameFeedback (c c' : Core) : Prop where
  pendingFeedbackSeqs : c'.pendingFeedbackSeqs = c.pendingFeedbackSeqs
  feedbackSamples : c'.feedbackSamples = c.feedbackSamples

theorem SameFeedback.refl (c : Core) : SameFeedback c c := ⟨rfl, rfl⟩

theorem SameFeedback.trans {c₁ c₂ c₃ : Core} (h₁ : SameFeedback c₁ c₂) (h₂ : SameFeedback c₂ c₃) :
    SameFeedback c₁ c₃ :=
  ⟨h₂.pendingFeedbackSeqs.trans h₁.pendingFeedbackSeqs,
    h₂.feedbackSamples.trans h₁.feedbackSamples⟩

theorem sameFeedback_refreshNetworkAwareTimerState (cfg : Config) (clampCurrentPeriod : Bool)
    (c : Core) : SameFeedback c (refreshNetworkAwareTimerState cfg clampCurrentPeriod c) := by
  obtain ⟨_, _, _, hrefresh⟩ := refreshNetworkAwareTimerState_writes cfg c clampCurrentPeriod
  rw [hrefresh]
  exact ⟨rfl, rfl⟩

theorem sameFeedback_updateSyncInterval (cfg : Config) (m : Moment) (signal : SyncSignal) (c : Core) :
    SameFeedback c (updateSyncInterval cfg m signal c) := by
  obtain ⟨_, _, _, hinterval⟩ := updateSyncInterval_writes cfg m c signal
  rw [hinterval]
  exact ⟨rfl, rfl⟩

theorem sameFeedback_mergeStateVector (m : Moment) (vvOther : VersionVector) (c : Core) :
    SameFeedback c (mergeStateVector m vvOther c).1 := by
  rw [mergeStateVector_fst]
  exact ⟨rfl, rfl⟩

theorem sameFeedback_buildSyncVector (P : Platform) (cfg : Config) (m : Moment) (c : Core) :
    SameFeedback c (buildSyncVector P cfg m c).1 := by
  obtain ⟨_, _, _, _, hbuild⟩ := buildSyncVector_writes P cfg m c
  rw [hbuild]
  exact ⟨rfl, rfl⟩

theorem sameFeedback_updateSeqNo (cfg : Config) (m : Moment) (seq : SeqNo) (nid : NodeID) (c : Core) :
    SameFeedback c (updateSeqNo cfg m seq nid c) := by
  obtain ⟨_, _, _, _, _, hupdate⟩ := updateSeqNo_writes cfg m c seq nid
  rw [hupdate]
  exact ⟨rfl, rfl⟩

/-- A received vector moves the queue as the feedback step does. -/
theorem sameFeedback_processVector (P : Platform) (cfg : Config) (m : Moment) (vvOther : VersionVector)
    (face : UInt64) (c : Core) :
    SameFeedback (observePropagationFeedback cfg m vvOther c)
      (processVector P cfg m vvOther face c).1 := by
  have hreceived : SameFeedback (observePropagationFeedback cfg m vvOther c)
      (received cfg m vvOther c) :=
    (sameFeedback_mergeStateVector m vvOther _).trans (sameFeedback_updateSyncInterval cfg m _ _)
  obtain ⟨_, _, _, hprocess⟩ := processVector_writes P cfg m vvOther face (c := c)
  rw [hprocess]
  exact hreceived.trans ⟨rfl, rfl⟩

theorem pendingFeedbackSeqs_init (cfg : Config) (uninitialized : Int) :
    (init cfg uninitialized).pendingFeedbackSeqs = [] ∧
      (init cfg uninitialized).feedbackSamples = 0 := by
  unfold init
  dsimp only
  split
  · have hsame := sameFeedback_refreshNetworkAwareTimerState cfg true
    exact ⟨(hsame _).pendingFeedbackSeqs, (hsame _).feedbackSamples⟩
  · exact ⟨rfl, rfl⟩

/-! ## Transmissions -/

/-- The state in which a firing of the timer transmits, if it does. -/
def sending (cfg : Config) (m : Moment) (c : Core) : Option Core :=
  if withinGap cfg m c || !c.initialized then none
  else
    match c.recordedVv with
    | none => some c
    | some recorded =>
      let (c, result) := mergeStateVector m recorded c
      if result.myVectorNew then some c else none

/-- The own sequence number that a transition transmits, if it transmits: 0 if the vector
    does not have the own entry. -/
def ownSent (P : Platform) (cfg : Config) (m : Moment) (e : Event) (c : Core) : Option SeqNo :=
  let fired : Option Core :=
    match e with
    | .start => sending cfg m { c with initialized := true }
    | .retx => sending cfg m c
    | _ => none
  fired.map fun c => (buildSyncVector P cfg m c).2.get cfg.id

/-- The queue after the transmission of a number. -/
def pushed (localSeq : SeqNo) (sendTimeUs : Int) (pending : List (SeqNo × Int)) : List (SeqNo × Int) :=
  if localSeq = 0 ∨ pending.getLast?.any (fun p => p.1 ≥ localSeq) then pending
  else (pending ++ [(localSeq, sendTimeUs)]).drop ((pending ++ [(localSeq, sendTimeUs)]).length - 32)

section

variable (hmode : cfg.timerMode = .NetworkAware)
include hmode

theorem pendingFeedbackSeqs_recordPropagationFeedbackSend (localSeq : SeqNo) (sendTimeUs : Int)
    (c : Core) :
    (recordPropagationFeedbackSend cfg localSeq sendTimeUs c).pendingFeedbackSeqs =
        pushed localSeq sendTimeUs c.pendingFeedbackSeqs ∧
      (recordPropagationFeedbackSend cfg localSeq sendTimeUs c).feedbackSamples =
        c.feedbackSamples := by
  unfold recordPropagationFeedbackSend pushed
  by_cases hzero : localSeq = 0
  · simp [hzero]
  · rw [if_neg (by simp [hmode, hzero])]
    cases c.pendingFeedbackSeqs.getLast?.any (fun p => p.1 ≥ localSeq) with
    | true => simp
    | false => simp [hzero]

/-- A transmission pushes the own number that it sends. -/
theorem pendingFeedbackSeqs_sendSyncInterest (hinit : c.initialized = true) :
    (sendSyncInterest P cfg m c).1.pendingFeedbackSeqs =
        pushed ((buildSyncVector P cfg m c).2.get cfg.id) m.currentTime c.pendingFeedbackSeqs ∧
      (sendSyncInterest P cfg m c).1.feedbackSamples = c.feedbackSamples := by
  have hbuild := sameFeedback_buildSyncVector P cfg m c
  have hrecord := pendingFeedbackSeqs_recordPropagationFeedbackSend hmode
    ((buildSyncVector P cfg m c).2.get cfg.id) m.currentTime
    { (buildSyncVector P cfg m c).1 with lastSyncTxUs := m.currentTime }
  unfold sendSyncInterest
  rw [hinit, Bool.not_true, if_neg Bool.false_ne_true]
  refine ⟨hrecord.1.trans ?_, hrecord.2.trans hbuild.feedbackSamples⟩
  rw [← hbuild.pendingFeedbackSeqs]

/-- A firing of the timer. -/
theorem pendingFeedbackSeqs_retxSyncInterest (P : Platform) (m : Moment) (c : Core) :
    (retxSyncInterest P cfg m true 0 c).1.pendingFeedbackSeqs =
        (match (sending cfg m c).map fun c => (buildSyncVector P cfg m c).2.get cfg.id with
        | none => c.pendingFeedbackSeqs
        | some localSeq => pushed localSeq m.currentTime c.pendingFeedbackSeqs) ∧
      (retxSyncInterest P cfg m true 0 c).1.feedbackSamples = c.feedbackSamples := by
  unfold sending
  cases hgap : withinGap cfg m c with
  | true =>
    obtain ⟨delay', hretx⟩ := retxSyncInterest_withinGap P cfg m 0 hgap
    rw [hretx]
    exact ⟨rfl, rfl⟩
  | false =>
    rw [retxSyncInterest_pastGap P cfg m 0 hgap]
    cases hr : c.recordedVv with
    | none =>
      rw [sendUnlessSuppressed_of_none P cfg m hr]
      cases hinit : c.initialized with
      | true => exact pendingFeedbackSeqs_sendSyncInterest hmode hinit
      | false =>
        rw [sendSyncInterest, hinit]
        exact ⟨rfl, rfl⟩
    | some r =>
      have hmerge := sameFeedback_mergeStateVector m r c
      have hsame : (mergeStateVector m r c).1.initialized = c.initialized := by
        rw [mergeStateVector_fst]
      rw [sendUnlessSuppressed_of_some P cfg m hr]
      cases hnew : (mergeStateVector m r c).2.myVectorNew with
      | false =>
        simp only [hnew]
        cases c.initialized <;> exact ⟨hmerge.pendingFeedbackSeqs, hmerge.feedbackSamples⟩
      | true =>
        simp only [hnew]
        cases hinit : c.initialized with
        | true =>
          obtain ⟨hpending, hsamples⟩ :=
            pendingFeedbackSeqs_sendSyncInterest (P := P) (m := m) hmode (hsame.trans hinit)
          rw [hmerge.pendingFeedbackSeqs] at hpending
          exact ⟨hpending, hsamples.trans hmerge.feedbackSamples⟩
        | false =>
          rw [sendSyncInterest, hsame, hinit]
          exact ⟨hmerge.pendingFeedbackSeqs, hmerge.feedbackSamples⟩

end

/-! ## Echoes -/

/-- The number whose transmission a received vector gives a sample of: the last one that it
    echoes, unless the clock says that no time has passed. -/
def sampledSeq (cfg : Config) (m : Moment) (vvOther : VersionVector) (c : Core) : Option SeqNo :=
  if vvOther.get cfg.id = 0 then none
  else
    (c.pendingFeedbackSeqs.takeWhile fun p => p.1 ≤ vvOther.get cfg.id).getLast?.bind fun p =>
      if p.2 = 0 ∨ m.currentTime ≤ p.2 then none else some p.1

/-- An echo takes the echoed numbers off the queue, and is counted if it gives a sample. -/
theorem pendingFeedbackSeqs_observePropagationFeedback (hmode : cfg.timerMode = .NetworkAware)
    (m : Moment) (vvOther : VersionVector) (c : Core) :
    (observePropagationFeedback cfg m vvOther c).pendingFeedbackSeqs =
        (if vvOther.get cfg.id = 0 then c.pendingFeedbackSeqs
        else c.pendingFeedbackSeqs.dropWhile fun p => p.1 ≤ vvOther.get cfg.id) ∧
      (observePropagationFeedback cfg m vvOther c).feedbackSamples =
        c.feedbackSamples + (sampledSeq cfg m vvOther c).toList.length := by
  unfold observePropagationFeedback sampledSeq
  rw [if_neg (by simp [hmode])]
  dsimp only
  split
  · exact ⟨rfl, rfl⟩
  · cases hlast : (c.pendingFeedbackSeqs.takeWhile fun p => p.1 ≤ vvOther.get cfg.id).getLast? with
    | none => exact ⟨rfl, rfl⟩
    | some p =>
      simp only [Option.map_some, Option.getD_some, Option.bind_some]
      split
      · exact ⟨rfl, rfl⟩
      · have hsame := sameFeedback_refreshNetworkAwareTimerState cfg true
        refine ⟨(hsame _).pendingFeedbackSeqs.trans ?_, (hsame _).feedbackSamples.trans ?_⟩
        · split <;> rfl
        · split <;> rfl

/-! ## Histories -/

/-- A node, the own numbers that received vectors have echoed, and those that have given a
    sample. -/
structure FeedbackHistory where
  node : Core
  echoed : List SeqNo := []
  sampled : List SeqNo := []

/-! ## Queues in order -/

/-- In an ordered queue nothing is greater than the back. -/
theorem lt_of_getLast?_lt {pending : List (SeqNo × Int)} (hsorted : pending.Pairwise fun p q => p.1 < q.1)
    {localSeq : SeqNo} (hback : ∀ p ∈ pending.getLast?, p.1 < localSeq) :
    ∀ p ∈ pending, p.1 < localSeq := by
  intro p hp
  cases hlast : pending.getLast? with
  | none =>
    rw [List.getLast?_eq_none_iff.mp hlast] at hp
    cases hp
  | some q =>
    have hq := hback q hlast
    obtain ⟨front, rfl⟩ := List.getLast?_eq_some_iff.mp hlast
    rcases List.mem_append.mp hp with hp | hp
    · exact UInt64.lt_trans ((List.pairwise_append.mp hsorted).2.2 p hp q (List.mem_singleton_self q)) hq
    · rwa [List.mem_singleton.mp hp]

/-- What an echo leaves of an ordered queue is greater than the echo. -/
theorem lt_of_mem_dropWhile {pending : List (SeqNo × Int)}
    (hsorted : pending.Pairwise fun p q => p.1 < q.1) {echoedSeq : SeqNo} :
    ∀ p ∈ pending.dropWhile (fun p => p.1 ≤ echoedSeq), echoedSeq < p.1 := by
  induction pending with
  | nil => exact fun p hp => by cases hp
  | cons q pending ih =>
    obtain ⟨hfirst, hrest⟩ := List.pairwise_cons.mp hsorted
    rw [List.dropWhile_cons]
    split
    · exact ih hrest
    · next hgreater =>
      rw [decide_eq_true_eq, UInt64.not_le] at hgreater
      intro p hp
      rcases List.mem_cons.mp hp with rfl | hp
      · exact hgreater
      · exact UInt64.lt_trans hgreater (hfirst p hp)

/-- A number is not pushed again while the queue has it or a greater one. -/
theorem pushed_cases (localSeq : SeqNo) (sendTimeUs : Int) (pending : List (SeqNo × Int)) :
    pushed localSeq sendTimeUs pending = pending ∧ (localSeq = 0 ∨ pending ≠ []) ∨
      localSeq ≠ 0 ∧ (∀ p ∈ pending.getLast?, p.1 < localSeq) ∧
        pushed localSeq sendTimeUs pending = (pending ++ [(localSeq, sendTimeUs)]).drop
          ((pending ++ [(localSeq, sendTimeUs)]).length - 32) := by
  unfold pushed
  split
  · next hskip =>
    refine Or.inl ⟨rfl, hskip.imp_right ?_⟩
    intro hback hnil
    rw [hnil] at hback
    cases hback
  · next hpush =>
    rw [not_or] at hpush
    refine Or.inr ⟨hpush.1, ?_, rfl⟩
    intro p hp
    rw [Option.mem_def.mp hp, Option.any_some, decide_eq_true_eq, ge_iff_le, UInt64.not_le] at hpush
    exact hpush.2

theorem pairwise_pushed {pending : List (SeqNo × Int)} (hsorted : pending.Pairwise fun p q => p.1 < q.1)
    (localSeq : SeqNo) (sendTimeUs : Int) :
    (pushed localSeq sendTimeUs pending).Pairwise fun p q => p.1 < q.1 := by
  rcases pushed_cases localSeq sendTimeUs pending with ⟨heq, -⟩ | ⟨-, hback, heq⟩
  · rw [heq]
    exact hsorted
  · rw [heq]
    apply List.Pairwise.sublist (List.drop_sublist _ _)
    rw [List.pairwise_append]
    refine ⟨hsorted, List.pairwise_singleton _ _, ?_⟩
    intro p hp q hq
    rw [List.mem_singleton.mp hq]
    exact lt_of_getLast?_lt hsorted hback p hp

/-- A transmission keeps the queue above the echoes unless the queue is empty and the number
    is not above them. -/
theorem lt_of_mem_pushed_iff {pending : List (SeqNo × Int)} {echoed : List SeqNo}
    (hsorted : pending.Pairwise fun p q => p.1 < q.1) (habove : ∀ p ∈ pending, ∀ s ∈ echoed, s < p.1)
    (localSeq : SeqNo) (sendTimeUs : Int) :
    (∀ p ∈ pushed localSeq sendTimeUs pending, ∀ s ∈ echoed, s < p.1) ↔
      ¬(pending = [] ∧ localSeq ≠ 0 ∧ ∃ s ∈ echoed, localSeq ≤ s) := by
  rcases pushed_cases localSeq sendTimeUs pending with ⟨heq, hskip⟩ | ⟨hzero, hback, heq⟩
  · rw [heq]
    refine iff_of_true habove ?_
    intro hbad
    obtain ⟨hnil, hne, -⟩ := hbad
    exact hskip.elim hne (absurd hnil)
  · rw [heq]
    constructor
    · intro hpushed hbad
      obtain ⟨rfl, -, s, hs, hle⟩ := hbad
      exact UInt64.not_lt.mpr hle (hpushed (localSeq, sendTimeUs) (by simp) s hs)
    · intro hgood p hp s hs
      rcases List.mem_append.mp (List.mem_of_mem_drop hp) with hp | hp
      · exact habove p hp s hs
      · rw [List.mem_singleton.mp hp]
        cases pending with
        | nil =>
          rw [← UInt64.not_le]
          exact fun hle => hgood ⟨rfl, hzero, s, hs, hle⟩
        | cons q rest =>
          -- the number is greater than what is pending, which is greater than the echo
          have hq := lt_of_getLast?_lt hsorted hback q List.mem_cons_self
          exact UInt64.lt_trans (habove q List.mem_cons_self s hs) hq

/-- A sample is of a pending number that is echoed. -/
theorem sampledSeq_eq_some {vvOther : VersionVector} {localSeq : SeqNo}
    (h : sampledSeq cfg m vvOther c = some localSeq) :
    vvOther.get cfg.id ≠ 0 ∧ localSeq ≤ vvOther.get cfg.id ∧
      ∃ p ∈ c.pendingFeedbackSeqs, p.1 = localSeq := by
  unfold sampledSeq at h
  split at h
  · cases h
  · next hecho =>
    obtain ⟨p, hp, h⟩ := Option.bind_eq_some_iff.mp h
    split at h
    · cases h
    · have hmem := List.mem_of_getLast? hp
      have hle := List.mem_takeWhile_imp hmem
      rw [decide_eq_true_eq] at hle
      rw [← Option.some.inj h]
      exact ⟨hecho, hle, p, (List.takeWhile_sublist _).mem hmem, rfl⟩

namespace FeedbackHistory

/-- The own number that an event echoes; an absent entry echoes nothing. -/
def echoedBy (cfg : Config) (e : Event) : List SeqNo :=
  match e with
  | .syncInterest vvOther _ => if vvOther.get cfg.id = 0 then [] else [vvOther.get cfg.id]
  | _ => []

/-- The number that an event gives a sample of. -/
def sampledBy (cfg : Config) (m : Moment) (e : Event) (c : Core) : List SeqNo :=
  match e with
  | .syncInterest vvOther _ => (sampledSeq cfg m vvOther c).toList
  | _ => []

/-- One step. -/
def next (P : Platform) (cfg : Config) (e : Moment × Event) (h : FeedbackHistory) : FeedbackHistory where
  node := (step P cfg e.1 e.2 h.node).1
  echoed := h.echoed ++ echoedBy cfg e.2
  sampled := h.sampled ++ sampledBy cfg e.1 e.2 h.node

/-- A pending number is greater than all that have been echoed, and none has given two
    samples. -/
structure SampledOnce (h : FeedbackHistory) : Prop where
  pending : ∀ p ∈ h.node.pendingFeedbackSeqs, ∀ s ∈ h.echoed, s < p.1
  nodup : h.sampled.Nodup

/-- The step transmits an own number that has been echoed, or a smaller one, while nothing is
    pending. -/
def Reannounces (P : Platform) (cfg : Config) (e : Moment × Event) (h : FeedbackHistory) : Prop :=
  h.node.pendingFeedbackSeqs = [] ∧
    ∃ localSeq ∈ ownSent P cfg e.1 e.2 h.node, localSeq ≠ 0 ∧ ∃ s ∈ h.echoed, localSeq ≤ s

instance (P : Platform) (cfg : Config) (e : Moment × Event) (h : FeedbackHistory) :
    Decidable (Reannounces P cfg e h) :=
  inferInstanceAs (Decidable (_ ∧ ∃ localSeq ∈ ownSent P cfg e.1 e.2 h.node, _))

/-- What holds whether or not numbers are sampled twice. -/
structure Ordered (h : FeedbackHistory) : Prop where
  sorted : h.node.pendingFeedbackSeqs.Pairwise fun p q => p.1 < q.1
  sampled_le : ∀ s ∈ h.sampled, ∃ s' ∈ h.echoed, s ≤ s'
  counted : h.node.feedbackSamples = h.sampled.length

section

variable (P : Platform) (hmode : cfg.timerMode = .NetworkAware)
include hmode

/-- A transition moves the queue by an echo or by a transmission. -/
theorem pendingFeedbackSeqs_step (m : Moment) (e : Event) (c : Core) :
    (step P cfg m e c).1.pendingFeedbackSeqs =
        (match e with
        | .syncInterest vvOther _ =>
          if vvOther.get cfg.id = 0 then c.pendingFeedbackSeqs
          else c.pendingFeedbackSeqs.dropWhile fun p => p.1 ≤ vvOther.get cfg.id
        | _ =>
          match ownSent P cfg m e c with
          | none => c.pendingFeedbackSeqs
          | some localSeq => pushed localSeq m.currentTime c.pendingFeedbackSeqs) ∧
      (step P cfg m e c).1.feedbackSamples = c.feedbackSamples + (sampledBy cfg m e c).length := by
  cases e with
  | start => exact pendingFeedbackSeqs_retxSyncInterest hmode P m { c with initialized := true }
  | retx => exact pendingFeedbackSeqs_retxSyncInterest hmode P m c
  | updateSeqNo seq nid =>
    have hsame := sameFeedback_updateSeqNo cfg m seq nid c
    exact ⟨hsame.pendingFeedbackSeqs, hsame.feedbackSamples⟩
  | syncInterest vvOther face =>
    have hsame := sameFeedback_processVector P cfg m vvOther face c
    obtain ⟨hpending, hsamples⟩ := pendingFeedbackSeqs_observePropagationFeedback hmode m vvOther c
    exact ⟨hsame.pendingFeedbackSeqs.trans hpending, hsame.feedbackSamples.trans hsamples⟩

theorem Ordered.next {h : FeedbackHistory} (hI : Ordered h) (e : Moment × Event) :
    Ordered (next P cfg e h) := by
  obtain ⟨hpending, hsamples⟩ := pendingFeedbackSeqs_step P hmode e.1 e.2 h.node
  obtain ⟨m, e⟩ := e
  constructor
  · show ((step P cfg m e h.node).1.pendingFeedbackSeqs).Pairwise _
    rw [hpending]
    cases e with
    | syncInterest vvOther face =>
      dsimp only
      split
      · exact hI.sorted
      · exact hI.sorted.sublist (List.dropWhile_sublist _)
    | start | retx | updateSeqNo =>
      dsimp only
      split
      · exact hI.sorted
      · exact pairwise_pushed hI.sorted _ _
  · intro s hs
    rcases List.mem_append.mp hs with hs | hs
    · obtain ⟨s', hs', hle⟩ := hI.sampled_le s hs
      exact ⟨s', List.mem_append_left _ hs', hle⟩
    · cases e with
      | syncInterest vvOther face =>
        obtain ⟨hecho, hle, -⟩ := sampledSeq_eq_some (Option.mem_toList.mp hs)
        refine ⟨vvOther.get cfg.id, List.mem_append_right _ ?_, hle⟩
        simp [echoedBy, hecho]
      | start | retx | updateSeqNo => cases hs
  · show (step P cfg m e h.node).1.feedbackSamples = (h.sampled ++ sampledBy cfg m e h.node).length
    rw [hsamples, hI.counted, List.length_append]

omit hmode in
/-- An echo puts nothing back, and samples a number that is greater than all before. -/
theorem SampledOnce.nodup_next {h : FeedbackHistory} (hs : SampledOnce h) (hI : Ordered h)
    (e : Moment × Event) : (FeedbackHistory.next P cfg e h).sampled.Nodup := by
  obtain ⟨m, e⟩ := e
  cases e with
  | start | retx | updateSeqNo =>
    show (h.sampled ++ []).Nodup
    rw [List.append_nil]
    exact hs.nodup
  | syncInterest vvOther face =>
    show (h.sampled ++ (sampledSeq cfg m vvOther h.node).toList).Nodup
    cases hsampled : sampledSeq cfg m vvOther h.node with
    | none =>
      rw [Option.toList_none, List.append_nil]
      exact hs.nodup
    | some localSeq =>
      obtain ⟨-, -, p, hp, rfl⟩ := sampledSeq_eq_some hsampled
      rw [Option.toList_some, List.nodup_append]
      refine ⟨hs.nodup, List.nodup_singleton _, ?_⟩
      intro s hmem s' hs' heq
      obtain ⟨echo, hecho, hle⟩ := hI.sampled_le s hmem
      have hlt := hs.pending p hp echo hecho
      rw [heq, List.mem_singleton.mp hs'] at hle
      exact UInt64.not_lt.mpr hle hlt

/-- A step after which numbers are still sampled once is one that does not transmit an echoed
    number while nothing is pending. -/
theorem SampledOnce.next_iff {h : FeedbackHistory} (hs : SampledOnce h) (hI : Ordered h)
    (e : Moment × Event) : SampledOnce (FeedbackHistory.next P cfg e h) ↔ ¬Reannounces P cfg e h := by
  have hnodup : (FeedbackHistory.next P cfg e h).sampled.Nodup := hs.nodup_next P hI e
  obtain ⟨hpending, -⟩ := pendingFeedbackSeqs_step P hmode e.1 e.2 h.node
  have hiff : SampledOnce (FeedbackHistory.next P cfg e h) ↔
      ∀ p ∈ (step P cfg e.1 e.2 h.node).1.pendingFeedbackSeqs,
        ∀ s ∈ h.echoed ++ echoedBy cfg e.2, s < p.1 :=
    ⟨SampledOnce.pending, fun habove => ⟨habove, hnodup⟩⟩
  rw [hiff, hpending]
  obtain ⟨m, e⟩ := e
  cases e with
  | syncInterest vvOther face =>
    have hnone : ¬Reannounces P cfg (m, .syncInterest vvOther face) h := by
      intro hre
      obtain ⟨-, localSeq, hsent, -⟩ := hre
      cases hsent
    refine iff_of_true ?_ hnone
    dsimp only [echoedBy]
    split
    · rw [List.append_nil]
      exact hs.pending
    · intro p hp s hmem
      rcases List.mem_append.mp hmem with hmem | hmem
      · exact hs.pending p ((List.dropWhile_sublist _).mem hp) s hmem
      · rw [List.mem_singleton.mp hmem]
        exact lt_of_mem_dropWhile hI.sorted p hp
  | start | retx | updateSeqNo =>
    dsimp only [echoedBy]
    rw [List.append_nil]
    unfold Reannounces
    dsimp only
    cases hsent : ownSent P cfg m _ h.node with
    | none => simpa using hs.pending
    | some localSeq => simpa using lt_of_mem_pushed_iff hI.sorted hs.pending localSeq m.currentTime

/-- In every run from the constructor each pending number is greater than all that have been
    echoed and none gives two samples, just when no step transmits an echoed own number, or a
    smaller one, while nothing is pending. -/
theorem sampledOnce_iff (uninitialized : Int) (events : List (Moment × Event)) :
    Run.Always (FeedbackHistory.next P cfg)
        (fun e h => SampledOnce (FeedbackHistory.next P cfg e h)) events
        { node := init cfg uninitialized } ↔
      Run.Always (FeedbackHistory.next P cfg) (fun e h => ¬Reannounces P cfg e h) events
        { node := init cfg uninitialized } := by
  obtain ⟨hpending, hsamples⟩ := pendingFeedbackSeqs_init cfg uninitialized
  have hordered : Ordered { node := init cfg uninitialized } := by
    refine ⟨?_, fun s hs => (List.not_mem_nil hs).elim, hsamples⟩
    rw [hpending]
    exact .nil
  have honce : SampledOnce { node := init cfg uninitialized } :=
    ⟨fun _ _ s hs => (List.not_mem_nil hs).elim, .nil⟩
  constructor
  · intro hall
    apply hall.imp (I := fun h => SampledOnce h ∧ Ordered h) ⟨honce, hordered⟩
    · intro e h hI hnext
      exact ⟨hnext, hI.2.next P hmode e⟩
    · intro e h hI hnext
      exact (hI.1.next_iff P hmode hI.2 e).mp hnext
  · intro hall
    apply hall.imp (I := fun h => SampledOnce h ∧ Ordered h) ⟨honce, hordered⟩
    · intro e h hI hgood
      exact ⟨(hI.1.next_iff P hmode hI.2 e).mpr hgood, hI.2.next P hmode e⟩
    · intro e h hI hgood
      exact (hI.1.next_iff P hmode hI.2 e).mpr hgood

end

/-- A vector in which node `a` has published once. -/
def echoOfA : VersionVector := (VersionVector.empty.set (.ofBytes [[97]]) 1 0).wire

/-- Node `a` publishes and transmits, receives an echo, transmits the same number again when
    its timer fires, and receives another echo: one publication gives two samples. -/
theorem not_sampledOnce :
    ¬∀ (P : Platform) (cfg : Config), cfg.timerMode = .NetworkAware →
      ∀ (uninitialized : Int) (events : List (Moment × Event)),
        Run.Always (FeedbackHistory.next P cfg)
          (fun e h => SampledOnce (FeedbackHistory.next P cfg e h)) events
          { node := init cfg uninitialized } := by
  intro h
  have hruns := h .plain { id := .ofBytes [[97]] } rfl 0
    [(.atMs 1, .updateSeqNo 1 EMPTY_NODE_ID), (.atMs 2, .start), (.atMs 10, .syncInterest echoOfA 0),
      (.atMs 4000, .retx), (.atMs 4010, .syncInterest echoOfA 0)]
  exact absurd hruns.2.2.2.2.1.nodup (by decide +kernel)

/-- The same node, which publishes again before its timer fires. -/
theorem sampledOnce_iff_twice :
    Run.Always (FeedbackHistory.next .plain { id := .ofBytes [[97]] })
      (fun e h => SampledOnce (FeedbackHistory.next .plain { id := .ofBytes [[97]] } e h))
      [(.atMs 1, .updateSeqNo 1 EMPTY_NODE_ID), (.atMs 2, .start), (.atMs 10, .syncInterest echoOfA 0),
        (.atMs 3000, .updateSeqNo 2 EMPTY_NODE_ID), (.atMs 3001, .retx)]
      { node := init { id := .ofBytes [[97]] } 0 } :=
  (sampledOnce_iff .plain rfl 0 _).mpr (by decide +kernel)

end FeedbackHistory

end Svs.Core
