import Svs.ForStd.Run
import Svs.Native.Receive
import Svs.Spec.SubsetCorrect
import Svs.Spec.Suppression
import Svs.Spec.TimerBounds
import Svs.Spec.VectorCodec

/-!
# Update times

`set` and `addEntry` give an entry its update time; decoding gives none.  The merge
subtracts the update times of `m_vv`, which is only ever set.

## Key results

- `built_selectSubset`: every strategy selects by calls of `addEntry` alone
- `Timed.step`: an event keeps the update times of `m_vv`
- `updateTimes`: which vectors of a run have update times
-/

namespace Svs

open Std VersionVector

/-- Every entry has an update time, and it is one of `times`. -/
def Timed (times : List TimePoint) (vv : VersionVector) : Prop :=
  ∀ nid, vv.has nid = true → ∃ t ∈ times, vv.lastUpdate[nid]? = some t

/-- No entry has an update time. -/
def Untimed (vv : VersionVector) : Prop := ∀ nid : NodeID, vv.lastUpdate[nid]? = none

theorem timed_empty (times : List TimePoint) : Timed times .empty := by
  intro nid hhas
  rw [has_empty] at hhas
  exact Bool.noConfusion hhas

theorem Timed.mono {times times' : List TimePoint} {vv : VersionVector} (h : Timed times vv)
    (hsub : times ⊆ times') : Timed times' vv := by
  intro nid hhas
  obtain ⟨t, ht, hlast⟩ := h nid hhas
  exact ⟨t, hsub ht, hlast⟩

/-- A set entry has the reading of the clock. -/
theorem Timed.set {times : List TimePoint} {vv : VersionVector} (h : Timed times vv) (nid : NodeID)
    (seqNo : SeqNo) {now : TimePoint} (hnow : now ∈ times) : Timed times (vv.set nid seqNo now) := by
  intro nid' hhas
  rw [VersionVector.set, ExtTreeMap.getElem?_insert']
  split
  · exact ⟨now, hnow, rfl⟩
  · next hne => exact h nid' (((has_set vv nid nid' seqNo now).mp hhas).resolve_left hne)

/-! ## Selections -/

section

variable {P : Platform} {vv : VersionVector} {a : SubsetArgs} {sel sel' : VersionVector}

/-- The selection is the result of calls of `addEntry`. -/
def Built (vv sel sel' : VersionVector) : Prop :=
  Relation.ReflTransGen (fun s s' => ∃ nid, s' = (addEntry vv nid s).1) sel sel'

/-- A phase that selects by calls of `addEntry`. -/
def Builds (vv sel : VersionVector) (r : Option VersionVector) : Prop := ∀ s, r = some s → Built vv sel s

theorem Built.addEntry (nid : NodeID) : Built vv sel (addEntry vv nid sel).1 := .single ⟨nid, rfl⟩

theorem Built.trans {sel'' : VersionVector} (h : Built vv sel sel') (h' : Built vv sel' sel'') :
    Built vv sel sel'' :=
  Relation.ReflTransGen.trans h h'

theorem Built.builds (h : Built vv sel sel') : Builds vv sel (some sel') := by
  intro s hs
  rw [← Option.some.inj hs]
  exact h

/-- One phase after another. -/
theorem Builds.bind {r : Option VersionVector} {f : VersionVector → Option VersionVector}
    (hr : Builds vv sel r) (hf : ∀ s, Builds vv s (f s)) : Builds vv sel (r >>= f) := by
  intro s' hs'
  obtain ⟨s, hs, hfs⟩ := Option.bind_eq_some_iff.mp hs'
  exact (hr s hs).trans (hf s s' hfs)

/-- A number that is computed first selects nothing. -/
theorem builds_bind {β : Type} {r : Option β} {f : β → Option VersionVector}
    (hf : ∀ b, Builds vv sel (f b)) : Builds vv sel (r >>= f) := by
  intro s' hs'
  obtain ⟨b, -, hfb⟩ := Option.bind_eq_some_iff.mp hs'
  exact hf b s' hfb

theorem builds_ite {p : Prop} [Decidable p] {r r' : Option VersionVector} (hr : Builds vv sel r)
    (hr' : Builds vv sel r') : Builds vv sel (if p then r else r') := by
  split
  · exact hr
  · exact hr'

theorem builds_refl : Builds vv sel (some sel) := Built.builds .refl

theorem built_addEntries (l : List NodeID) (budget : Nat) : Built vv sel (addEntries vv a l budget sel) := by
  induction l generalizing budget sel with
  | nil => exact .refl
  | cons nid rest ih =>
    rw [addEntries]
    split
    · exact .refl
    · have hadd : Built vv sel (addEntry vv nid sel).1 := .addEntry nid
      split
      · next s hs =>
        rw [hs] at hadd
        exact hadd.trans (ih _)
      · next s hs =>
        rw [hs] at hadd
        exact hadd.trans (ih _)

theorem built_addUnseenClusters (l : List NodeID) (clusters : List (List Char)) (budget : Nat) :
    Built vv sel (addUnseenClusters P vv a l clusters budget sel).1 := by
  induction l generalizing clusters budget sel with
  | nil => exact .refl
  | cons nid rest ih =>
    rw [addUnseenClusters]
    split
    · exact .refl
    · split
      · exact ih _ _
      · have hadd : Built vv sel (addEntry vv nid sel).1 := .addEntry nid
        split
        · next s hs =>
          rw [hs] at hadd
          exact hadd.trans (ih _ _)
        · next s hs =>
          rw [hs] at hadd
          exact hadd.trans (ih _ _)

theorem built_addClusterRecentEntries (budget : Nat) :
    Built vv sel (addClusterRecentEntries P vv a budget sel) := by
  rw [addClusterRecentEntries]
  split
  · exact .refl
  · have hunseen : Built vv sel (addUnseenClusters P vv a (recentNodes vv)
        (sel.nodes.map (clusterKey P)) budget sel).1 := built_addUnseenClusters _ _ _
    dsimp only
    split
    · exact hunseen.trans (built_addEntries _ _)
    · exact hunseen

theorem builds_addScored {score : NodeID → Nat → Option ℚ} {before : Candidate → Candidate → Bool}
    (budget : Nat) : Builds vv sel (addScored vv a score before budget sel) :=
  builds_ite builds_refl (builds_bind fun _ => (built_addEntries _ _).builds)

theorem builds_addBestClusters (budget : Nat) (clusters : List (List Char)) :
    Builds vv sel (addBestClusters P vv a budget clusters sel) := by
  induction budget generalizing sel clusters with
  | zero => exact builds_refl
  | succ budget ih =>
    rw [addBestClusters]
    refine builds_ite (builds_bind fun best => builds_ite builds_refl ?_) builds_refl
    have hadd : Built vv sel (addEntry vv best.bestNid sel).1 := .addEntry _
    split
    · next s hs =>
      rw [hs] at hadd
      exact hadd.builds.bind fun s => ih _
    · next s hs =>
      rw [hs] at hadd
      exact hadd.builds

theorem builds_addIntoRoom {add : Nat → VersionVector → Option VersionVector}
    (hadd : ∀ s room, Builds vv s (add room s)) : Builds vv sel (addIntoRoom a add sel) :=
  builds_ite (builds_bind fun room => hadd sel room) builds_refl

theorem builds_addIfAny {add : Nat → VersionVector → Option VersionVector}
    (hadd : ∀ s budget, Builds vv s (add budget s)) (budget : Nat) : Builds vv sel (addIfAny add budget sel) :=
  builds_ite (hadd sel budget) builds_refl

theorem builds_addFairEntries (reserve : Nat) : Builds vv sel (addFairEntries vv a reserve sel) :=
  builds_ite (builds_bind fun _ => (built_addEntries _ _).builds) builds_refl

theorem builds_fillRoundRobin : Builds vv sel (fillRoundRobin vv a sel) :=
  builds_addIntoRoom fun _ _ => (built_addEntries _ _).builds

theorem builds_recent : Builds vv sel (selectRecent vv a sel) :=
  builds_bind fun _ => Built.builds (Built.trans (built_addEntries _ _) (built_addEntries _ _))

theorem builds_stickyRecent : Builds vv sel (selectStickyRecent vv a sel) :=
  builds_bind fun _ => builds_bind fun _ =>
    (Built.builds (Built.trans (built_addEntries _ _) (built_addEntries _ _))).bind fun _ =>
      builds_fillRoundRobin

theorem builds_quota {addQuota : Nat → VersionVector → VersionVector}
    (hadd : ∀ s budget, Built vv s (addQuota budget s)) : Builds vv sel (selectQuota vv a addQuota sel) := by
  refine builds_bind fun _ => builds_bind fun budget => ?_
  refine (builds_addIfAny (fun _ _ => (built_addEntries _ _).builds) budget).bind fun s => ?_
  refine Builds.bind (builds_ite (builds_bind fun _ => (hadd s _).builds) builds_refl) fun s => ?_
  exact (builds_addIntoRoom fun _ _ => (built_addEntries _ _).builds).bind fun _ => builds_fillRoundRobin

theorem builds_scoredWithReserve {add : Nat → VersionVector → Option VersionVector}
    (hadd : ∀ s budget, Builds vv s (add budget s)) :
    Builds vv sel (selectScoredWithReserve vv a add sel) := by
  refine builds_bind fun reserve => builds_bind fun budget => ?_
  refine (builds_addIfAny hadd budget).bind fun s => (builds_addFairEntries reserve).bind fun s => ?_
  exact (builds_addIntoRoom hadd).bind fun _ => builds_fillRoundRobin

theorem builds_hybrid : Builds vv sel (selectHybrid vv a sel) := by
  refine builds_bind fun reserve => builds_bind fun target => ?_
  refine Builds.bind (builds_ite (builds_bind fun _ => (built_addEntries _ _).builds) builds_refl) fun s => ?_
  refine (builds_addFairEntries reserve).bind fun s => ?_
  exact (builds_addIntoRoom fun _ _ => (built_addEntries _ _).builds).bind fun _ => builds_fillRoundRobin

theorem builds_clusterHybrid : Builds vv sel (selectClusterHybrid P vv a sel) := by
  refine builds_bind fun reserve => builds_bind fun budget => ?_
  refine (builds_addIfAny (fun _ _ => (built_addClusterRecentEntries _).builds) _).bind fun s => ?_
  refine (builds_addFairEntries reserve).bind fun s => ?_
  exact (builds_addIntoRoom fun _ _ => (built_addClusterRecentEntries _).builds).bind fun _ =>
    builds_fillRoundRobin

theorem builds_byStrategy : Builds vv sel (selectByStrategy P vv a sel) := by
  rw [selectByStrategy]
  cases a.strategy with
  | Recent => exact builds_recent
  | StickyRecent => exact builds_stickyRecent
  | RecentNoveltyQuota | RecentRandomQuota => exact builds_quota fun _ _ => built_addEntries _ _
  | AdaptiveRecentScore | RoundRobin | Full => exact (built_addEntries _ _).builds
  | Random =>
    dsimp only
    rw [addUntilFull_eq]
    exact (built_addEntries _ _).builds
  | Score => exact builds_bind fun room => builds_addScored room
  | AgeScore | DeficitScore => exact builds_scoredWithReserve fun _ budget => builds_addScored budget
  | ClusterScore => exact builds_scoredWithReserve fun _ budget => builds_addBestClusters budget _
  | Hybrid => exact builds_hybrid
  | ClusterHybrid => exact builds_clusterHybrid

theorem built_selectPreferred : Built vv .empty (selectPreferred vv a) := by
  rw [selectPreferred]
  split
  · exact .refl
  · exact .addEntry _

variable (P) in
/-- A selection is the vector itself, or comes from calls of `addEntry`. -/
theorem built_selectSubset : selectSubset P vv a = vv ∨ Built vv .empty (selectSubset P vv a) := by
  by_cases h₁ : a.maxEntries = 0 ∨ vv.size = 0
  · rw [selectSubset_eq_empty P h₁]
    exact .inr .refl
  · by_cases h₂ : a.strategy = .Full ∨ vv.size ≤ a.maxEntries
    · exact .inl (selectSubset_eq_self P h₁ h₂)
    · have hsome := selectSubset?_eq_some P vv a
      rw [selectSubset?, if_neg h₁, if_neg h₂] at hsome
      exact .inr (built_selectPreferred.trans (builds_byStrategy _ hsome))

/-- What `addEntry` adds has the update time of the vector. -/
theorem Timed.addEntry {times : List TimePoint} (hvv : Timed times vv) (hsel : Timed times sel)
    (nid : NodeID) : Timed times (addEntry vv nid sel).1 := by
  rw [Svs.addEntry]
  split
  · exact hsel
  · next seqNo hseqNo =>
    split
    · exact hsel
    · obtain ⟨t, ht, hlast⟩ := hvv nid ((has_iff vv nid).mpr ⟨seqNo, hseqNo⟩)
      have hreads : vv.getLastUpdate nid = t := by rw [getLastUpdate, hlast, Option.getD_some]
      rw [hreads]
      exact hsel.set nid seqNo ht

theorem Timed.built {times : List TimePoint} (hvv : Timed times vv) (hsel : Timed times sel)
    (h : Built vv sel sel') : Timed times sel' := by
  induction h with
  | refl => exact hsel
  | tail _ hadd ih =>
    obtain ⟨nid, rfl⟩ := hadd
    exact hvv.addEntry ih nid

variable (P a) in
theorem Timed.selectSubset {times : List TimePoint} (hvv : Timed times vv) :
    Timed times (selectSubset P vv a) := by
  have hcases : Svs.selectSubset P vv a = vv ∨ Built vv .empty (Svs.selectSubset P vv a) :=
    built_selectSubset P
  rcases hcases with heq | hbuilt
  · rw [heq]
    exact hvv
  · exact hvv.built (timed_empty times) hbuilt

end

/-! ## Decoded vectors -/

/-- The decoder sets no update time. -/
theorem untimed_decode {codec : Codec} {block : Block} {vv : VersionVector}
    (h : VersionVector.decode codec block = .ok vv) : Untimed vv := by
  intro nid
  rw [decode_lastUpdate h]
  rfl

namespace Core

variable {P : Platform} {cfg : Config} {m : Moment} {c : Core} {times : List TimePoint}

/-! ## Merges -/

/-- A raised entry has the reading of the merge. -/
theorem Timed.raiseEntries {vv : VersionVector} (h : Timed times vv) (hnow : m.now ∈ times)
    (vvOther : VersionVector) : Timed times (raiseEntries m vv vvOther) := by
  refine List.foldlRecOn vvOther.entries (recordEntry m) h ?_
  intro vv hvv entry _
  rw [recordEntry]
  split
  · exact hvv.set entry.1 entry.2 hnow
  · exact hvv

theorem entries_wire (vv : VersionVector) : vv.wire.entries = vv.entries := rfl

/-- A merge reads the entries of the other vector alone. -/
theorem mergeStateVector_wire (m : Moment) (vvOther : VersionVector) (c : Core) :
    mergeStateVector m vvOther.wire c = mergeStateVector m vvOther c := by
  rw [mergeStateVector, mergeStateVector, entries_wire]
  rfl

/-! ## Recorded vectors -/

/-- Each entry of the vector with an update time has it, and its number, from a received
    vector of the run. -/
def TimedByRecord (events : List (Moment × Event)) (r : VersionVector) : Prop :=
  ∀ nid t, r.lastUpdate[nid]? = some t →
    ∃ m vvOther face, (m, .syncInterest vvOther face) ∈ events ∧ m.now = t ∧
      vvOther.get nid = r.get nid

theorem TimedByRecord.of_untimed {events : List (Moment × Event)} {r : VersionVector}
    (h : Untimed r) : TimedByRecord events r := by
  intro nid t ht
  rw [h nid] at ht
  cases ht

theorem TimedByRecord.raiseEntries {events : List (Moment × Event)} {r : VersionVector}
    (h : TimedByRecord events r) {vvOther : VersionVector} {face : UInt64}
    (hmem : (m, .syncInterest vvOther face) ∈ events) :
    TimedByRecord events (raiseEntries m r vvOther) := by
  refine List.foldlRecOn vvOther.entries (recordEntry m) h ?_
  intro r hr entry hentry
  rw [recordEntry]
  split
  · intro nid t ht
    rw [VersionVector.set, ExtTreeMap.getElem?_insert'] at ht
    split at ht
    · next heq =>
      -- the entry raised now
      subst heq
      rw [get_set_self, ← get_of_getElem? ((mem_entries vvOther _ _).mp hentry)]
      exact ⟨m, vvOther, face, hmem, Option.some.inj ht, rfl⟩
    · next hne =>
      rw [get_set, if_neg hne]
      exact hr nid t ht
  · exact hr

/-! ## Runs -/

/-- The readings of the system clock in a run. -/
def readings (events : List (Moment × Event)) : List TimePoint := events.map (·.1.now)

/-- The vectors received in a run have no update times. -/
def ReceivesUntimed (events : List (Moment × Event)) : Prop :=
  ∀ m vvOther face, (m, .syncInterest vvOther face) ∈ events → Untimed vvOther

variable (P cfg) in
theorem Timed.retxSyncInterest (h : Timed times c.vv) (hnow : m.now ∈ times) (delay : Nat) :
    Timed times (retxSyncInterest P cfg m true delay c).1.vv := by
  cases hgap : withinGap cfg m c with
  | true =>
    obtain ⟨delay', hretx⟩ := retxSyncInterest_withinGap P cfg m delay hgap
    rw [hretx]
    exact h
  | false =>
    have hvv : (scheduleRetx cfg m delay (sendUnlessSuppressed P cfg m c).1).vv =
        (sendUnlessSuppressed P cfg m c).1.vv := rfl
    rw [retxSyncInterest_pastGap P cfg m delay hgap, hvv, sendUnlessSuppressed_vv]
    split
    · exact h
    · exact Timed.raiseEntries h hnow _

/-- An event that reads one of the times keeps `m_vv` timed. -/
theorem Timed.step (h : Timed times c.vv) (hnow : m.now ∈ times) (e : Event) :
    Timed times (step P cfg m e c).1.vv := by
  cases e with
  | start => exact Timed.retxSyncInterest P cfg (c := { c with initialized := true }) h hnow 0
  | syncInterest vvOther face =>
    rw [Core.step, processVector_vv]
    exact Timed.raiseEntries h hnow vvOther
  | retx => exact Timed.retxSyncInterest P cfg h hnow 0
  | updateSeqNo seq nid =>
    rw [Core.step, (updateSeqNo_frame cfg m seq nid).1]
    exact h.set _ seq hnow

/-- What is recorded after a firing was recorded before. -/
theorem recorded_of_retxSyncInterest {delay : Nat} {r : VersionVector}
    (hr : (Core.retxSyncInterest P cfg m true delay c).1.recordedVv = some r) :
    c.recordedVv = some r := by
  have hcases : (Core.retxSyncInterest P cfg m true delay c).1.recordedVv = c.recordedVv ∨
      (Core.retxSyncInterest P cfg m true delay c).1.recordedVv = none :=
    retxSyncInterest_recordedVv delay c
  rcases hcases with hsame | hnone
  · exact hsame.symm.trans hr
  · rw [hnone] at hr
    cases hr

/-- An event of a run keeps what is recorded timed by records. -/
theorem TimedByRecord.step {events : List (Moment × Event)} {e : Event}
    (huntimed : ReceivesUntimed events) (hmem : (m, e) ∈ events)
    (h : ∀ r, c.recordedVv = some r → TimedByRecord events r) :
    ∀ r, (step P cfg m e c).1.recordedVv = some r → TimedByRecord events r := by
  intro r hr
  cases e with
  | start =>
    have hrec : { c with initialized := true }.recordedVv = some r := recorded_of_retxSyncInterest hr
    exact h r hrec
  | syncInterest vvOther face =>
    rw [Core.step, processVector_recordedVv] at hr
    cases hrec : c.recordedVv with
    | none =>
      -- what a node enters suppression with is the received vector itself
      rw [hrec] at hr
      dsimp only at hr
      split at hr
      · rw [← Option.some.inj hr]
        exact .of_untimed (huntimed m vvOther face hmem)
      · cases hr
    | some recorded =>
      rw [hrec] at hr
      rw [← Option.some.inj hr]
      exact (h recorded hrec).raiseEntries hmem
  | retx => exact h r (recorded_of_retxSyncInterest hr)
  | updateSeqNo seq nid => exact h r ((updateSeqNo_frame cfg m seq nid).2.1.symm.trans hr)

theorem timed_run (P : Platform) (cfg : Config) (uninitialized : Int)
    (events : List (Moment × Event)) :
    Timed (readings events) (Run.state (next P cfg) events (init cfg uninitialized)).vv := by
  have hreads : Run.Always (next P cfg) (fun e _ => e.1.now ∈ readings events) events
      (init cfg uninitialized) := by
    refine Run.always_iff.mpr fun before e after heq => ?_
    rw [readings, heq]
    exact List.mem_map_of_mem List.mem_append_cons_self
  refine hreads.invariant (I := fun c => Timed (readings events) c.vv) ?_ ?_
  · rw [(init_frame cfg uninitialized).1]
    exact timed_empty _
  · intro e c hc hnow
    exact Timed.step hc hnow e.2

theorem timedByRecord_run (P : Platform) (cfg : Config) (uninitialized : Int)
    {events : List (Moment × Event)} (huntimed : ReceivesUntimed events) (r : VersionVector)
    (hr : (Run.state (next P cfg) events (init cfg uninitialized)).recordedVv = some r) :
    TimedByRecord events r := by
  have hmem : Run.Always (next P cfg) (fun e _ => e ∈ events) events (init cfg uninitialized) := by
    refine Run.always_iff.mpr fun before e after heq => ?_
    rw [heq]
    exact List.mem_append_cons_self
  refine hmem.invariant (I := fun c => ∀ r, c.recordedVv = some r → TimedByRecord events r) ?_ ?_
    r hr
  · intro r hr
    rw [(init_frame cfg uninitialized).2.1] at hr
    cases hr
  · intro e c hc hmem
    exact TimedByRecord.step huntimed hmem hc

/-- The update times after a run that ends in `c`; `recorded` says which ones a recorded
    vector has. -/
structure UpdateTimes (P : Platform) (events : List (Moment × Event)) (c : Core)
    (recorded : VersionVector → Prop) : Prop where
  vv : Timed (readings events) c.vv
  subset : ∀ a, Timed (readings events) (selectSubset P c.vv a)
  /-- The second loop of a merge subtracts readings of the clock alone. -/
  merge : ∀ m vvOther c', c'.vv = c.vv →
    Timed (m.now :: readings events) (mergeStateVector m vvOther c').1.vv
  /-- It makes no difference to a merge which update times the other vector has. -/
  other : ∀ m vvOther c', mergeStateVector m vvOther.wire c' = mergeStateVector m vvOther c'
  decoded : ∀ codec block vvOther, decode codec block = .ok vvOther → Untimed vvOther
  recorded : ReceivesUntimed events → ∀ r, c.recordedVv = some r → recorded r

/-- Node `a` publishes, hears a node that lacks its entry, and in that suppression period
    a third one. -/
def recordingEvents : List (Moment × Event) :=
  [(.atMs 0, .start),
    (.atMs 100, .updateSeqNo 1 EMPTY_NODE_ID),
    (.atMs 101, .retx),
    (.atMs 1000, .syncInterest (VersionVector.empty.set (.ofBytes [[98]]) 1 0).wire 0),
    (.atMs 1050, .syncInterest (VersionVector.empty.set (.ofBytes [[99]]) 1 0).wire 0)]

theorem receivesUntimed_recordingEvents : ReceivesUntimed recordingEvents := by
  intro m vvOther face hmem nid
  have hwire : ∃ vv : VersionVector, vvOther = vv.wire := by
    simp only [recordingEvents, List.mem_cons, Prod.mk.injEq, reduceCtorEq, and_false, false_or,
      Event.syncInterest.injEq, List.not_mem_nil, or_false] at hmem
    rcases hmem with ⟨-, rfl, -⟩ | ⟨-, rfl, -⟩
    · exact ⟨_, rfl⟩
    · exact ⟨_, rfl⟩
  obtain ⟨vv, rfl⟩ := hwire
  rfl

end Core

end Svs
