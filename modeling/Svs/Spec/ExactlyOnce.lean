import Svs.Spec.StepCorrect
import Svs.ForStd.List

/-!
# Every sequence number is reported exactly once

A run in which local updates only raise entries keeps the recorded vector below the
local one (`RecordedBelow`), so the merge that `retxSyncInterest` throws away never
changes the local vector.  `knows_step` says what a step makes a node know, and
`exactly_once` that the ranges reported for a node, with those raised locally, tile
the numbers from 1 to its entry.
-/

namespace Svs.Core

open Std VersionVector

variable {P : Platform} {cfg : Config} {c : Core}

/-! ## The recorded vector stays below the local one -/

/-- Everything recorded in the current suppression period is known. -/
def RecordedBelow (c : Core) : Prop :=
  ∀ r, c.recordedVv = some r → r.knows ≤ c.vv.knows

/-- Nothing is recorded at the start. -/
theorem recordedBelow_init (cfg : Config) (uninitialized : Int) :
    RecordedBelow (init cfg uninitialized) := by
  intro r hr
  rw [(init_frame cfg uninitialized).2.1] at hr
  cases hr

/-- The event, if it is a local update, raises the entry. -/
def Raises (cfg : Config) (e : Event) (c : Core) : Prop :=
  match e with
  | .updateSeqNo seq nid => getSeqNo cfg nid c < seq
  | _ => True

instance (cfg : Config) (e : Event) (c : Core) : Decidable (Raises cfg e c) :=
  match e with
  | .updateSeqNo seq nid => inferInstanceAs (Decidable (getSeqNo cfg nid c < seq))
  | .start | .syncInterest _ _ | .retx => inferInstanceAs (Decidable True)

/-- A firing of the timer leaves the vector of such a state alone. -/
theorem RecordedBelow.retxSyncInterest_vv (h : RecordedBelow c) (m : Moment) (delay : Nat) :
    (retxSyncInterest P cfg m true delay c).1.vv = c.vv := by
  cases hgap : withinGap cfg m c with
  | true =>
    -- too early: the firing only moves the event
    obtain ⟨delay', hretx⟩ := retxSyncInterest_withinGap P cfg m delay hgap
    rw [hretx]
    rfl
  | false =>
    rw [retxSyncInterest_pastGap P cfg m delay hgap, scheduleRetx_vv, sendUnlessSuppressed_vv]
    split
    · rfl
    · -- the merge that ends suppression raises nothing
      next r hr => exact raiseEntries_of_le m (h r hr)

theorem RecordedBelow.retxSyncInterest (h : RecordedBelow c) (m : Moment) (delay : Nat) :
    RecordedBelow (retxSyncInterest P cfg m true delay c).1 := by
  intro r hr
  rw [h.retxSyncInterest_vv]
  cases hgap : withinGap cfg m c with
  | true =>
    obtain ⟨delay', hretx⟩ := retxSyncInterest_withinGap P cfg m delay hgap
    rw [hretx] at hr
    exact h r hr
  | false =>
    rw [retxSyncInterest_pastGap P cfg m delay hgap, scheduleRetx_recordedVv,
      sendUnlessSuppressed_recordedVv] at hr
    cases hr

theorem RecordedBelow.processVector (h : RecordedBelow c) (m : Moment) (vvOther : VersionVector)
    (face : UInt64) : RecordedBelow (processVector P cfg m vvOther face c).1 := by
  intro r hr
  rw [processVector_recordedVv] at hr
  rw [processVector_vv, knows_raiseEntries]
  -- both the local and the recorded vector are joined with `vvOther`
  cases hrec : c.recordedVv with
  | some r' =>
    simp only [hrec, Option.some.injEq] at hr
    rw [← hr, knows_raiseEntries]
    exact sup_le_sup_right (h r' hrec) _
  | none =>
    -- entering suppression records `vvOther`, which has just been merged
    simp only [hrec] at hr
    split at hr
    · rw [← Option.some.inj hr]
      exact le_sup_right
    · cases hr

theorem knows_set (vv : VersionVector) (nid : NodeID) (seq : SeqNo) (now : TimePoint) :
    (vv.set nid seq now).knows = Function.update vv.knows nid seq.toNat := by
  funext n
  rw [VersionVector.knows, get_set, Function.update_apply]
  split
  · next h => rw [if_pos h.symm]
  · next h => rw [if_neg (Ne.symm h)]; rfl

theorem RecordedBelow.updateSeqNo (h : RecordedBelow c) (m : Moment) {seq : SeqNo} {nid : NodeID}
    (hraise : getSeqNo cfg nid c < seq) : RecordedBelow (updateSeqNo cfg m seq nid c) := by
  obtain ⟨hvv, hrec, -, -⟩ := updateSeqNo_frame cfg m (c := c) seq nid
  intro r hr
  rw [hrec] at hr
  rw [hvv, knows_set]
  apply (h r hr).trans
  rw [le_update_iff]
  exact ⟨(UInt64.lt_iff_toNat_lt.mp hraise).le, fun _ _ => le_rfl⟩

/-- Every step of a run in which updates raise entries keeps the recorded vector below. -/
theorem RecordedBelow.step (h : RecordedBelow c) (m : Moment) (e : Event)
    (hraise : Raises cfg e c) : RecordedBelow (step P cfg m e c).1 := by
  cases e with
  | start =>
    have hinit : RecordedBelow { c with initialized := true } := h
    exact hinit.retxSyncInterest m 0
  | syncInterest vvOther face => exact h.processVector m vvOther face
  | retx => exact h.retxSyncInterest m 0
  | updateSeqNo seq nid => exact h.updateSeqNo m hraise

/-- What a node knows after an event. -/
def knowsAfter (cfg : Config) (e : Event) (c : Core) : NodeID → ℕ :=
  match e with
  | .syncInterest vvOther _ => c.vv.knows ⊔ vvOther.knows
  | .updateSeqNo seq nid => Function.update c.vv.knows (targetNode cfg nid) seq.toNat
  | _ => c.vv.knows

/-- Received vectors are joined, local updates set one entry, nothing else moves. -/
theorem RecordedBelow.knows_step (h : RecordedBelow c) (m : Moment) (e : Event) :
    (Core.step P cfg m e c).1.vv.knows = knowsAfter cfg e c := by
  cases e with
  | start =>
    have hinit : RecordedBelow { c with initialized := true } := h
    exact congrArg VersionVector.knows (hinit.retxSyncInterest_vv (P := P) m 0)
  | syncInterest vvOther face =>
    exact (congrArg VersionVector.knows (processVector_vv P cfg m vvOther face)).trans
      (knows_raiseEntries m c.vv vvOther)
  | retx => exact congrArg VersionVector.knows (h.retxSyncInterest_vv m 0)
  | updateSeqNo seq nid =>
    exact (congrArg VersionVector.knows (updateSeqNo_frame cfg m seq nid).1).trans
      (knows_set c.vv _ seq m.now)

/-- Timers and state vectors do not lower an entry. -/
theorem RecordedBelow.get_le_step (h : RecordedBelow c) (m : Moment) {e : Event}
    (he : ∀ seq nid, e ≠ .updateSeqNo seq nid) (nid : NodeID) :
    c.vv.get nid ≤ (Core.step P cfg m e c).1.vv.get nid := by
  have hknows : c.vv.knows nid ≤ (Core.step P cfg m e c).1.vv.knows nid := by
    rw [h.knows_step m e]
    cases e with
    | start | retx => exact le_rfl
    | syncInterest vvOther face => exact le_max_left _ _
    | updateSeqNo seq nid' => exact absurd rfl (he seq nid')
  exact UInt64.le_iff_toNat_le.mpr hknows

/-! ## Reported ranges -/

/-- The numbers of a range `[low, high]`. -/
def rangeNumbers (r : SeqNo × SeqNo) : List ℕ :=
  List.range' r.1.toNat (r.2.toNat + 1 - r.1.toNat)

/-- The ranges that an effect reports for a node. -/
def effectRanges (n : NodeID) : Effect → List (SeqNo × SeqNo)
  | .onUpdate missingInfo =>
    (missingInfo.filter (·.nodeId = n)).map fun info => (info.low, info.high)
  | .expressInterest _ => []

/-- The range `(prev, seq]` that a local update of a node raises. -/
def raisedRanges (cfg : Config) (n : NodeID) (e : Event) (c : Core) : List (SeqNo × SeqNo) :=
  match e with
  | .updateSeqNo seq nid => if targetNode cfg nid = n then [(c.vv.get n + 1, seq)] else []
  | _ => []

/-- The ranges a step adds for a node: raised locally, or passed to `m_onUpdate`. -/
def stepRanges (cfg : Config) (n : NodeID) (e : Event) (c : Core) (effects : List Effect) :
    List (SeqNo × SeqNo) :=
  raisedRanges cfg n e c ++ effects.flatMap (effectRanges n)

/-- A run from the start in which local updates raise entries, with the ranges added
    for each node so far. -/
inductive RaisingRun (P : Platform) (cfg : Config) :
    Core → (NodeID → List (SeqNo × SeqNo)) → Prop
  | init (uninitialized : Int) : RaisingRun P cfg (init cfg uninitialized) fun _ => []
  | step {c : Core} {ranges : NodeID → List (SeqNo × SeqNo)} (m : Moment) (e : Event) :
      RaisingRun P cfg c ranges → Raises cfg e c →
      RaisingRun P cfg (step P cfg m e c).1 fun n =>
        ranges n ++ stepRanges cfg n e c (step P cfg m e c).2

/-- A merge reports for a node the range it is behind by, if it is. -/
theorem filter_missingInfo (m : Moment) (vvOther : VersionVector) (c : Core) (n : NodeID) :
    (mergeStateVector m vvOther c).2.missingInfo.filter (·.nodeId = n) =
      if c.vv.get n < vvOther.get n then [missingRange c.vv (n, vvOther.get n)] else [] := by
  rw [missingInfo_mergeStateVector, List.filter_map, List.filter_filter]
  -- filter by the node first: at most one entry is left
  have hswap : (vvOther.entries.filter fun e =>
        (decide ((missingRange c.vv e).nodeId = n)) && decide (c.vv.get e.1 < e.2)) =
      (vvOther.entries.filter (·.1 = n)).filter fun e => c.vv.get e.1 < e.2 := by
    rw [List.filter_filter]
    exact List.filter_congr fun e _ => Bool.and_comm _ _
  apply (congrArg (List.map (missingRange c.vv)) hswap).trans
  cases hm : vvOther.map[n]? with
  | none =>
    have hnil : vvOther.entries.filter (·.1 = n) = [] := by
      rw [List.filter_eq_nil_iff]
      intro e he hk
      obtain ⟨k, s⟩ := e
      obtain rfl : k = n := of_decide_eq_true hk
      simp [(mem_entries vvOther k s).mp he] at hm
    have hge : ¬c.vv.get n < vvOther.get n := by
      simp [VersionVector.get, hm, UInt64.lt_iff_toNat_lt]
    rw [hnil, if_neg hge]
    rfl
  | some s =>
    have hone := List.filter_key_eq (entries_keys_nodup vvOther)
      ((mem_entries vvOther n s).mpr hm)
    rw [get_of_getElem? hm, hone]
    by_cases hlt : c.vv.get n < s <;> simp [hlt]

/-- What a received vector reports for a node. -/
theorem effectRanges_processVector (m : Moment) (vvOther : VersionVector) (face : UInt64)
    (n : NodeID) :
    (processVector P cfg m vvOther face c).2.flatMap (effectRanges n) =
      if c.vv.get n < vvOther.get n then [(c.vv.get n + 1, vvOther.get n)] else [] := by
  have hfilter := filter_missingInfo m vvOther (observePropagationFeedback cfg m vvOther c) n
  rw [(sameSync_observePropagationFeedback cfg m c vvOther).vv] at hfilter
  rw [effects_processVector, receiveEffects]
  split
  · -- nothing is reported, so this node is not behind either
    next hnil =>
    rw [List.isEmpty_iff, receiveResult] at hnil
    rw [hnil, List.filter_nil] at hfilter
    split
    · next hlt => simp [hlt] at hfilter
    · rfl
  · -- the face is written into the ranges after the merge and changes no number
    have hface : ∀ l : List MissingDataInfo,
        ((l.map fun e => { e with incomingFace := face }).filter (·.nodeId = n)).map
          (fun info => (info.low, info.high)) =
        (l.filter (·.nodeId = n)).map fun info => (info.low, info.high) := by
      intro l
      rw [List.filter_map, List.map_map]
      rfl
    rw [List.flatMap_singleton, effectRanges, hface, receiveResult, hfilter]
    split <;> rfl

/-- A firing reports nothing. -/
theorem effectRanges_retxSyncInterest (m : Moment) (delay : Nat) (n : NodeID) :
    (retxSyncInterest P cfg m true delay c).2.flatMap (effectRanges n) = [] := by
  rcases effects_retxSyncInterest P cfg m (c := c) delay with hnone | ⟨c', hsent, -⟩
  · rw [hnone]
    rfl
  · rw [hsent]
    rfl

/-- The range added when an entry is raised continues the numbers up to the old entry. -/
theorem append_rangeNumbers {old new : SeqNo} (h : old < new) :
    List.range' 1 old.toNat ++ rangeNumbers (old + 1, new) = List.range' 1 new.toNat ∧
      old + 1 ≤ new := by
  have hlt : old.toNat < new.toNat := UInt64.lt_iff_toNat_lt.mp h
  -- `old` is below another number, so its successor does not wrap
  have hsucc : (old + 1).toNat = old.toNat + 1 := by
    have hnew := new.toNat_lt
    rw [UInt64.toNat_add, UInt64.toNat_one, Nat.mod_eq_of_lt (by omega)]
  constructor
  · rw [rangeNumbers, hsucc]
    exact List.range'_append_range' hlt.le
  · rw [UInt64.le_iff_toNat_le, hsucc]
    exact hlt

/-- One step adds for a node at most one range, which continues the numbers up to the
    node's entry. -/
theorem stepRanges_spec (hbelow : RecordedBelow c) (m : Moment) (e : Event)
    (hraise : Raises cfg e c) (n : NodeID) :
    List.range' 1 (c.vv.get n).toNat ++
        (stepRanges cfg n e c (step P cfg m e c).2).flatMap rangeNumbers =
      List.range' 1 ((step P cfg m e c).1.vv.get n).toNat ∧
    ∀ r ∈ stepRanges cfg n e c (step P cfg m e c).2, r.1 ≤ r.2 := by
  have hknows : ((step P cfg m e c).1.vv.get n).toNat = knowsAfter cfg e c n :=
    congrFun (hbelow.knows_step m e) n
  rw [hknows]
  cases e with
  | start =>
    rw [stepRanges, step, effectRanges_retxSyncInterest]
    simp [raisedRanges, knowsAfter, VersionVector.knows]
  | retx =>
    rw [stepRanges, step, effectRanges_retxSyncInterest]
    simp [raisedRanges, knowsAfter, VersionVector.knows]
  | updateSeqNo seq nid =>
    simp only [stepRanges, raisedRanges, step, List.flatMap_nil, List.append_nil, knowsAfter,
      Function.update_apply]
    by_cases hn : targetNode cfg nid = n
    · subst hn
      obtain ⟨happend, hle⟩ := append_rangeNumbers hraise
      simpa using ⟨happend, hle⟩
    · simp [hn, Ne.symm hn, VersionVector.knows]
  | syncInterest vvOther face =>
    rw [stepRanges, step, effectRanges_processVector]
    simp only [raisedRanges, List.nil_append, knowsAfter, Pi.sup_apply, VersionVector.knows]
    by_cases hlt : c.vv.get n < vvOther.get n
    · obtain ⟨happend, hle⟩ := append_rangeNumbers hlt
      rw [max_eq_right (UInt64.lt_iff_toNat_lt.mp hlt).le]
      simpa [hlt] using ⟨happend, hle⟩
    · rw [max_eq_left (UInt64.le_iff_toNat_le.mp (UInt64.not_lt.mp hlt))]
      simp [hlt]

theorem recordedBelow_of_raisingRun {ranges : NodeID → List (SeqNo × SeqNo)}
    (h : RaisingRun P cfg c ranges) : RecordedBelow c := by
  induction h with
  | init uninitialized => exact recordedBelow_init cfg uninitialized
  | step m e _ hraise ih => exact ih.step m e hraise

/-- In every run in which local updates raise entries, the ranges passed to
    `m_onUpdate` for a node and those raised locally are non-empty and tile, in order,
    the numbers from 1 to the node's entry; and merging the recorded vector, as
    `retxSyncInterest` does, changes nothing. -/
theorem exactly_once {ranges : NodeID → List (SeqNo × SeqNo)} (h : RaisingRun P cfg c ranges) :
    (∀ n, (ranges n).flatMap rangeNumbers = List.range' 1 (c.vv.get n).toNat ∧
      ∀ r ∈ ranges n, r.1 ≤ r.2) ∧
    ∀ m r, c.recordedVv = some r → (mergeStateVector m r c).1 = c := by
  refine ⟨?_, fun m r hr => (mergeStateVector_of_le (recordedBelow_of_raisingRun h r hr)).1⟩
  -- each step appends to both sides the numbers by which the entry grew
  induction h with
  | init uninitialized =>
    intro n
    simp [(init_frame cfg uninitialized).1]
  | step m e hrun hraise ih =>
    intro n
    obtain ⟨htile, hne⟩ := stepRanges_spec (P := P) (recordedBelow_of_raisingRun hrun) m e hraise n
    rw [List.flatMap_append, (ih n).1]
    refine ⟨htile, fun r hr => ?_⟩
    rcases List.mem_append.mp hr with hr | hr
    · exact (ih n).2 r hr
    · exact hne r hr

/-- A node learns three numbers of a peer, then raises its own entry to 2. -/
theorem exactly_once_twoUpdates :
    ∃ (c : Core) (ranges : NodeID → List (SeqNo × SeqNo)),
      RaisingRun .plain { id := .ofBytes [[97]] } c ranges ∧
      ranges (.ofBytes [[98]]) = [(1, 3)] ∧
      (ranges (.ofBytes [[98]])).flatMap rangeNumbers =
        List.range' 1 (c.vv.get (.ofBytes [[98]])).toNat := by
  have hinit : RaisingRun .plain { id := .ofBytes [[97]] } (init { id := .ofBytes [[97]] } 0)
      fun _ => [] := .init 0
  have hrun := (((hinit.step
    (.atMs 0) .start trivial).step
    (.atMs 100) (.syncInterest ((VersionVector.empty.set (.ofBytes [[98]]) 3 0).wire) 0)
      trivial).step
    (.atMs 200) (.updateSeqNo 2 EMPTY_NODE_ID) (by decide +kernel))
  refine ⟨_, _, hrun, ?_, ((exactly_once hrun).1 _).1⟩
  decide

end Svs.Core
