import Svs.Spec.ExactlyOnce
import Svs.Spec.Suppression

/-!
# The decision at the end of a suppression period

In a run in which local updates only raise entries, the firing that ends a suppression
period decides by what was heard in the period and by the ages of the entries, and its
merge is without effect.

## Key results

- `HearingRun.recordedBelow`: the recorded vector stays below the local one
- `sendUnlessSuppressed_of_below`: the decision, with the merge gone
- `suppression_decision`: what a firing does in suppression
-/

namespace Svs.Core

open VersionVector

variable {P : Platform} {cfg : Config} {m : Moment} {c : Core} {log : List VersionVector}

/-- A run from the start in which local updates raise entries, with the vectors heard in
    the current suppression period. -/
inductive HearingRun (P : Platform) (cfg : Config) : Core → List VersionVector → Prop
  | init (uninitialized : Int) : HearingRun P cfg (init cfg uninitialized) []
  | step {c : Core} {log : List VersionVector} (m : Moment) (e : Event) :
      HearingRun P cfg c log → Raises cfg e c →
      HearingRun P cfg (step P cfg m e c).1 (suppressionLog e (step P cfg m e c).1 log)

theorem HearingRun.reachable (h : HearingRun P cfg c log) : Reachable P cfg c log := by
  induction h with
  | init uninitialized => exact .init uninitialized
  | step m e _ _ ih => exact ih.step m e

theorem HearingRun.recordedBelow (h : HearingRun P cfg c log) : RecordedBelow c := by
  induction h with
  | init uninitialized => exact recordedBelow_init cfg uninitialized
  | step m e _ hraise ih => exact ih.step m e hraise

/-- Some entry is ahead of what was heard and was last updated at least
    `m_maxSuppressionTime` ago. -/
def AheadOf (m : Moment) (heard : NodeID → ℕ) (c : Core) : Prop :=
  ∃ n, heard n < c.vv.knows n ∧ c.maxSuppressionTime * 1000000 ≤ m.now - c.vv.getLastUpdate n

/-- Where everything recorded is known, the firing decides by the recorded vector and the
    ages of the entries, and merges nothing. -/
theorem sendUnlessSuppressed_of_below (P : Platform) (cfg : Config) (m : Moment) {r : VersionVector}
    (hbelow : RecordedBelow c) (hr : c.recordedVv = some r) :
    (AheadOf m r.knows c → sendUnlessSuppressed P cfg m c =
        ({ (sendSyncInterest P cfg m c).1 with recordedVv := none }, (sendSyncInterest P cfg m c).2)) ∧
      (¬AheadOf m r.knows c → sendUnlessSuppressed P cfg m c = ({ c with recordedVv := none }, [])) := by
  have hmerge : (mergeStateVector m r c).1 = c := (mergeStateVector_of_le (hbelow r hr)).1
  have hnew : (mergeStateVector m r c).2.myVectorNew = true ↔ AheadOf m r.knows c := by
    rw [myVectorNew_iff]
    apply exists_congr
    intro n
    rw [UInt64.lt_iff_toNat_lt, updatedRecently, decide_eq_false_iff_not, not_lt]
    rfl
  rw [sendUnlessSuppressed_of_some P cfg m hr, hmerge]
  constructor
  · intro hahead
    rw [if_pos (hnew.mpr hahead)]
  · intro hahead
    rw [if_neg (mt hnew.mp hahead)]

/-- The state in which the event calls `retxSyncInterest(true, 0)`, if it does. -/
def firingState (e : Event) (c : Core) : Option Core :=
  match e with
  | .start => some { c with initialized := true }
  | .retx => some c
  | .syncInterest _ _ | .updateSeqNo _ _ => none

theorem step_of_firingState (P : Platform) (cfg : Config) (m : Moment) {e : Event} {c₁ : Core}
    (h : firingState e c = some c₁) :
    step P cfg m e c = retxSyncInterest P cfg m true 0 c₁ ∧ c₁.vv = c.vv ∧
      c₁.recordedVv = c.recordedVv ∧ c₁.maxSuppressionTime = c.maxSuppressionTime := by
  cases e with
  | start | retx =>
    obtain rfl := Option.some.inj h
    exact ⟨rfl, rfl, rfl, rfl⟩
  | syncInterest vvOther face => cases h
  | updateSeqNo seq nid => cases h

/-- In suppression a firing past the minimum gap finds in the recorded vector the maximum
    of the vectors heard since the node entered suppression.  It calls `sendSyncInterest`
    iff some entry is ahead of that maximum and was last updated at least
    `m_maxSuppressionTime` ago, which an initialized node shows by transmitting.
    Afterwards the node is in steady state, with the vector it had. -/
theorem suppression_decision {e : Event} {c₁ : Core} {r : VersionVector}
    (hrun : HearingRun P cfg c log) (hfire : firingState e c = some c₁)
    (hgap : withinGap cfg m c₁ = false) (hr : c.recordedVv = some r) :
    (log ≠ [] ∧ r.knows = joinKnows log) ∧
      (AheadOf m (joinKnows log) c → step P cfg m e c =
        (scheduleRetx cfg m 0 { (sendSyncInterest P cfg m c₁).1 with recordedVv := none },
          (sendSyncInterest P cfg m c₁).2)) ∧
      (¬AheadOf m (joinKnows log) c → step P cfg m e c =
        (scheduleRetx cfg m 0 { c₁ with recordedVv := none }, [])) ∧
      (c₁.initialized = true → ((∃ sent, Effect.expressInterest sent ∈ (step P cfg m e c).2) ↔
        AheadOf m (joinKnows log) c)) ∧
      (step P cfg m e c).1.recordedVv = none ∧ (step P cfg m e c).1.vv = c.vv := by
  obtain ⟨hstep, hvv, hrec, hmax⟩ := step_of_firingState P cfg m hfire
  obtain ⟨hne, hknows⟩ := (recordsLog_of_reachable hrun.reachable).of_some hr
  have hbelow : RecordedBelow c₁ := by
    intro r' hr'
    rw [hvv]
    exact hrun.recordedBelow r' (hrec ▸ hr')
  obtain ⟨hsend, hquiet⟩ := sendUnlessSuppressed_of_below P cfg m hbelow (hrec.trans hr)
  have hahead : AheadOf m r.knows c₁ ↔ AheadOf m (joinKnows log) c := by
    rw [AheadOf, AheadOf, hknows, hvv, hmax]
  rw [hahead] at hsend hquiet
  have hretx := retxSyncInterest_pastGap P cfg m 0 hgap
  refine ⟨⟨hne, hknows⟩, ?_, ?_, ?_, ?_, ?_⟩
  · intro h
    rw [hstep, hretx, hsend h]
  · intro h
    rw [hstep, hretx, hquiet h]
  · intro hinit
    rw [hstep, hretx]
    by_cases h : AheadOf m (joinKnows log) c
    · simp [hsend h, sendSyncInterest_snd, hinit, h]
    · simp [hquiet h, h]
  · rw [hstep, hretx]
    exact sendUnlessSuppressed_recordedVv P cfg m
  · rw [hstep, hbelow.retxSyncInterest_vv, hvv]

/-- Two vectors are heard that lack the entry of node `a`; a second after its update the
    firing transmits it. -/
theorem suppression_decision_twoHeard :
    ∃ (c : Core) (log : List VersionVector), HearingRun .plain nodeA c log ∧ log.length = 2 ∧
      ∃ sent, Effect.expressInterest sent ∈ (step .plain nodeA (.atMs 1200) .retx c).2 := by
  have hinit : HearingRun .plain nodeA (init nodeA 0) [] := .init 0
  have hrun := (((((hinit.step
    (.atMs 0) .start trivial).step
    (.atMs 100) (.updateSeqNo 1 EMPTY_NODE_ID) (by decide)).step
    (.atMs 101) .retx trivial).step
    (.atMs 1000) (.syncInterest (VersionVector.empty.set (.ofBytes [[98]]) 1 0).wire 0) trivial).step
    (.atMs 1100) (.syncInterest (VersionVector.empty.set (.ofBytes [[99]]) 2 0).wire 0) trivial)
  refine ⟨_, _, hrun, ?_, ?_⟩
  · decide +kernel
  · have hdecide := suppression_decision (m := .atMs 1200) (e := .retx) hrun rfl (by decide)
      (Option.some_get (by decide +kernel)).symm
    refine (hdecide.2.2.2.1 (by decide +kernel)).mpr ⟨.ofBytes [[97]], ?_, by decide +kernel⟩
    decide +kernel

end Svs.Core
