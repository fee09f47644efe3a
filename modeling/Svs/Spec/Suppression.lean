import Svs.Spec.StepCorrect

/-!
# The suppression period

`RecordsLog` ties the recorded vector to the vectors that arrived in the current
suppression period: it is their pointwise maximum.  With it the decision of
`retxSyncInterest` is a statement about what was heard.

## Key results

- `recordsLog_of_reachable`: the recorded vector is the maximum of what was heard
- `announcement_sent_iff`: when the firing that announces a local update transmits
-/

namespace Svs.Core

open VersionVector

variable {P : Platform} {cfg : Config} {m : Moment} {c : Core} {log : List VersionVector}

/-! ## What was heard -/

/-- What the vectors of a log know together. -/
def joinKnows (log : List VersionVector) : NodeID → ℕ := log.foldl (fun k vv => k ⊔ vv.knows) ⊥

theorem joinKnows_append (log : List VersionVector) (vv : VersionVector) :
    joinKnows (log ++ [vv]) = joinKnows log ⊔ vv.knows := by
  simp [joinKnows]

theorem joinKnows_lt_iff (log : List VersionVector) (nid : NodeID) (k : ℕ) :
    joinKnows log nid < k ↔ 0 < k ∧ ∀ vv ∈ log, vv.knows nid < k := by
  -- generalised over what was heard before the log
  have key : ∀ k₀ : NodeID → ℕ, log.foldl (fun k vv => k ⊔ vv.knows) k₀ nid < k ↔
      k₀ nid < k ∧ ∀ vv ∈ log, vv.knows nid < k := by
    induction log with
    | nil => simp
    | cons vv log ih =>
      intro k₀
      rw [List.foldl_cons, ih, Pi.sup_apply, max_lt_iff, List.forall_mem_cons, and_assoc]
  exact key ⊥

/-- The recorded vector is the maximum of the vectors of the log; in steady state the
    log is empty. -/
def RecordsLog (c : Core) (log : List VersionVector) : Prop :=
  match c.recordedVv with
  | none => log = []
  | some r => log ≠ [] ∧ r.knows = joinKnows log

theorem RecordsLog.of_some {r : VersionVector} (h : RecordsLog c log) (hr : c.recordedVv = some r) :
    log ≠ [] ∧ r.knows = joinKnows log := by
  rwa [RecordsLog, hr] at h

/-- Events other than a received vector keep the log, or leave suppression. -/
theorem RecordsLog.of_recordedVv (h : RecordsLog c log) {e : Event} {c' : Core}
    (he : ∀ vv face, e ≠ .syncInterest vv face)
    (hrec : c'.recordedVv = c.recordedVv ∨ c'.recordedVv = none) :
    RecordsLog c' (suppressionLog e c' log) := by
  cases hr : c'.recordedVv with
  | none => simp only [RecordsLog, hr, suppressionLog]
  | some r =>
    have hc : c.recordedVv = some r := by
      rcases hrec with hrec | hrec
      · rw [← hrec, hr]
      · rw [hr] at hrec
        cases hrec
    simp only [RecordsLog, hr, suppressionLog]
    cases e with
    | syncInterest vv face => exact absurd rfl (he vv face)
    | start | retx | updateSeqNo => exact h.of_some hc

theorem retxSyncInterest_recordedVv (delay : Nat) (c : Core) :
    (retxSyncInterest P cfg m true delay c).1.recordedVv = c.recordedVv ∨
      (retxSyncInterest P cfg m true delay c).1.recordedVv = none := by
  cases hgap : withinGap cfg m c with
  | true =>
    obtain ⟨delay', hretx⟩ := retxSyncInterest_withinGap P cfg m delay hgap
    rw [hretx]
    exact Or.inl rfl
  | false =>
    rw [retxSyncInterest_pastGap P cfg m delay hgap]
    exact Or.inr (sendUnlessSuppressed_recordedVv P cfg m)

theorem RecordsLog.processVector (h : RecordsLog c log) (m : Moment) (vvOther : VersionVector)
    (face : UInt64) :
    RecordsLog (processVector P cfg m vvOther face c).1
      (suppressionLog (.syncInterest vvOther face) (processVector P cfg m vvOther face c).1 log) := by
  have hrec := processVector_recordedVv P cfg m vvOther face (c := c)
  cases hr : c.recordedVv with
  | some r =>
    -- in suppression: the vector is joined to the recorded one
    simp only [hr] at hrec
    simp only [RecordsLog, suppressionLog, hrec]
    constructor
    · simp
    · rw [knows_raiseEntries, (h.of_some hr).2, joinKnows_append]
  | none =>
    -- in steady state: it is the first of a new period, or nothing is recorded
    simp only [hr] at hrec
    simp only [RecordsLog, hr] at h
    subst h
    split at hrec
    · simp only [RecordsLog, suppressionLog, hrec]
      constructor
      · simp
      · rw [joinKnows_append]
        exact (bot_sup_eq _).symm
    · simp only [RecordsLog, suppressionLog, hrec]

/-- In every reachable state the recorded vector is the maximum of what was heard since
    the node entered suppression. -/
theorem recordsLog_of_reachable (h : Reachable P cfg c log) : RecordsLog c log := by
  induction h with
  | init uninitialized =>
    rw [RecordsLog, (init_frame cfg uninitialized).2.1]
  | @step c log m e _ ih =>
    cases e with
    | syncInterest vvOther face => exact ih.processVector m vvOther face
    | start =>
      exact ih.of_recordedVv (by simp)
        (retxSyncInterest_recordedVv 0 { c with initialized := true })
    | retx => exact ih.of_recordedVv (by simp) (retxSyncInterest_recordedVv 0 c)
    | updateSeqNo seq nid =>
      exact ih.of_recordedVv (by simp) (Or.inl (updateSeqNo_frame cfg m seq nid).2.1)

/-- The recorded vector is below a positive number iff everything heard is. -/
theorem RecordsLog.get_lt_iff {r : VersionVector} (h : RecordsLog c log)
    (hr : c.recordedVv = some r) (nid : NodeID) (s : SeqNo) :
    r.get nid < s ↔ ∀ vv ∈ log, vv.get nid < s := by
  obtain ⟨hne, hknows⟩ := h.of_some hr
  have hjoin := joinKnows_lt_iff log nid s.toNat
  rw [← hknows] at hjoin
  simp only [UInt64.lt_iff_toNat_lt]
  refine hjoin.trans ⟨And.right, fun hall => ⟨?_, hall⟩⟩
  -- something was heard, and it is below the number, so the number is positive
  obtain ⟨vv, hvv⟩ := List.exists_mem_of_ne_nil log hne
  exact (Nat.zero_le _).trans_lt (hall vv hvv)

/-! ## The firing after a local update -/

/-- Past the minimum gap an initialized node transmits in steady state, or if some entry
    is ahead of the recorded vector and was not updated recently. -/
theorem sent_iff (hinit : c.initialized = true) (hgap : withinGap cfg m c = false) (delay : Nat) :
    (∃ sent, Effect.expressInterest sent ∈ (retxSyncInterest P cfg m true delay c).2) ↔
      ∀ r, c.recordedVv = some r →
        ∃ nid, r.get nid < c.vv.get nid ∧ updatedRecently m c nid = false := by
  rw [retxSyncInterest_pastGap P cfg m delay hgap]
  cases hr : c.recordedVv with
  | none =>
    rw [sendUnlessSuppressed_of_none P cfg m hr, sendSyncInterest_snd, if_pos hinit]
    simp
  | some r =>
    -- the firing decides by `myVectorNew` of a merge, which keeps `initialized`
    have hmerged : (mergeStateVector m r c).1.initialized = true := by
      rw [mergeStateVector_fst]
      exact hinit
    simp only [Option.some.injEq, forall_eq']
    rw [← myVectorNew_iff, sendUnlessSuppressed_of_some P cfg m hr]
    split
    · next hnew =>
      simp only [sendSyncInterest_snd, if_pos hmerged]
      simp [hnew]
    · next hnew => simp [hnew]

/-- `updatedRecently` after a local update: the raised entry counts as updated then. -/
theorem updatedRecently_updateSeqNo (m₀ m₁ : Moment) (seq : SeqNo) (nid n : NodeID) :
    updatedRecently m₁ (updateSeqNo cfg m₀ seq nid c) n =
      if targetNode cfg nid = n then decide (m₁.now - m₀.now < c.maxSuppressionTime * 1000000)
      else updatedRecently m₁ c n := by
  obtain ⟨hvv, -, -, hmax⟩ := updateSeqNo_frame cfg m₀ (c := c) seq nid
  rw [updatedRecently, hvv, hmax, getLastUpdate_set]
  split <;> rfl

/-- The firing that announces a local update transmits iff the node is in steady state,
    the suppression time has passed since the update, or some other entry, ahead of
    everything heard, is old enough. -/
theorem announcement_sent_iff {m₀ m₁ : Moment} {seq : SeqNo} {nid : NodeID}
    (hreach : Reachable P cfg c log) (hinit : c.initialized = true)
    (hgap : withinGap cfg m₁ (updateSeqNo cfg m₀ seq nid c) = false)
    (hheard : ∀ vv ∈ log, vv.get (targetNode cfg nid) < seq) :
    (∃ sent, Effect.expressInterest sent ∈
        (retxSyncInterest P cfg m₁ true 0 (updateSeqNo cfg m₀ seq nid c)).2) ↔
      c.recordedVv = none ∨ c.maxSuppressionTime * 1000000 ≤ m₁.now - m₀.now ∨
        ∃ n, n ≠ targetNode cfg nid ∧ (∀ vv ∈ log, vv.get n < c.vv.get n) ∧
          updatedRecently m₁ c n = false := by
  have hlog := recordsLog_of_reachable hreach
  obtain ⟨hvv, hrec, hinit', -⟩ := updateSeqNo_frame cfg m₀ (c := c) seq nid
  rw [sent_iff (hinit'.trans hinit) hgap, hrec, hvv]
  cases hr : c.recordedVv with
  | none => simp
  | some r =>
    simp only [Option.some.injEq, forall_eq', reduceCtorEq, false_or, get_set,
      updatedRecently_updateSeqNo]
    constructor
    · intro hahead
      obtain ⟨n, hlt, hold⟩ := hahead
      by_cases hn : targetNode cfg nid = n
      · -- the raised entry counts only once it is old enough
        rw [if_pos hn, decide_eq_false_iff_not, not_lt] at hold
        exact Or.inl hold
      · rw [if_neg hn] at hlt hold
        exact Or.inr ⟨n, Ne.symm hn, (hlog.get_lt_iff hr n _).mp hlt, hold⟩
    · intro hcond
      rcases hcond with hlate | ⟨n, hn, hlt, hold⟩
      · -- nothing heard carries the new number, and the update is no longer recent
        refine ⟨targetNode cfg nid, ?_, ?_⟩
        · rw [if_pos rfl]
          exact (hlog.get_lt_iff hr _ seq).mpr hheard
        · rw [if_pos rfl, decide_eq_false_iff_not, not_lt]
          exact hlate
      · refine ⟨n, ?_, ?_⟩
        · rw [if_neg (Ne.symm hn)]
          exact (hlog.get_lt_iff hr n _).mpr hlt
        · rw [if_neg (Ne.symm hn)]
          exact hold

/-- The configuration of node `a`, otherwise with the defaults. -/
def nodeA : Config := { id := .ofBytes [[97]] }

/-- Node `a` publishes; a second later it hears a node that lacks its entry, and enters
    suppression. -/
def suppressedNode : Core × List VersionVector :=
  run .plain nodeA
    [(.atMs 0, .start),
      (.atMs 100, .updateSeqNo 1 EMPTY_NODE_ID),
      (.atMs 101, .retx),
      (.atMs 1000, .syncInterest (VersionVector.empty.set (.ofBytes [[98]]) 1 0).wire 0)]
    (init nodeA 0, [])

theorem suppressedNode_heard :
    ∀ vv ∈ suppressedNode.2, vv.get (targetNode nodeA EMPTY_NODE_ID) < 2 := by
  have hall : suppressedNode.2.all fun vv => vv.get (targetNode nodeA EMPTY_NODE_ID) < 2 := by
    decide +kernel
  exact fun vv hvv => of_decide_eq_true (List.all_eq_true.mp hall vv hvv)

/-- A second publication in that suppression period is not announced. -/
theorem not_announcement_sent :
    ¬∀ (P : Platform) (cfg : Config) (c : Core) (log : List VersionVector) (m₀ m₁ : Moment)
      (seq : SeqNo) (nid : NodeID), Reachable P cfg c log → c.initialized = true →
      getSeqNo cfg nid c < seq →
      (updateSeqNo cfg m₀ seq nid c).retxEvent = some m₁.currentTime →
      withinGap cfg m₁ (updateSeqNo cfg m₀ seq nid c) = false →
      (∀ vv ∈ log, vv.get (targetNode cfg nid) < seq) →
      ∃ sent, Effect.expressInterest sent ∈
        (retxSyncInterest P cfg m₁ true 0 (updateSeqNo cfg m₀ seq nid c)).2 := by
  intro h
  obtain ⟨sent, hsent⟩ := h .plain nodeA suppressedNode.1 suppressedNode.2 (.atMs 1100)
    (.atMs 1101) 2 EMPTY_NODE_ID ((Reachable.init 0).run _) (by decide +kernel)
    (by decide +kernel) (by decide +kernel) (by decide +kernel)
    suppressedNode_heard
  have hnil : (retxSyncInterest .plain nodeA (.atMs 1101) true 0
      (updateSeqNo nodeA (.atMs 1100) 2 EMPTY_NODE_ID suppressedNode.1)).2.isEmpty := by
    decide +kernel
  rw [List.isEmpty_iff.mp hnil] at hsent
  cases hsent

/-- Once the suppression time has passed it would be. -/
theorem announcement_sent_late :
    ∃ sent, Effect.expressInterest sent ∈
      (retxSyncInterest .plain nodeA (.atMs 3000) true 0
        (updateSeqNo nodeA (.atMs 1100) 2 EMPTY_NODE_ID suppressedNode.1)).2 :=
  (announcement_sent_iff ((Reachable.init 0).run _) (by decide +kernel) (by decide +kernel)
    suppressedNode_heard).mpr (Or.inr (Or.inl (by decide +kernel)))

end Svs.Core
