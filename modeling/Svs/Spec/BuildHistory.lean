import Svs.Spec.ScoreCoverage
import Svs.Spec.StepCorrect

/-!
# The history of `buildSyncVector` calls

Between two calls the local vector may gain nodes and anything may happen to update
times, sequence numbers, scores and the cursor (`Grows`).  `BuildRun` collects what each
call found and returned, and `Bookkept` says what `m_lastSelectedNodes` and
`m_scoreUnselectedRounds` remember of that.

## Key results

- `BuildRun.bookkept`: the bookkeeping in every state of a run
- `buildRun_of_reachable`: the runs of a node are such runs
- `starvation_counters`: the counters are the rounds missed in a row
-/

namespace Svs.Core

open VersionVector

variable {P : Platform} {cfg : Config} {m : Moment} {c c' : Core}

/-! ## Runs -/

/-- One call of `buildSyncVector`: the local vector it found, and what it returned. -/
structure Build where
  vv : VersionVector
  sent : VersionVector

/-- The call returned less than the whole vector. -/
def Build.isPartial (b : Build) : Bool := decide (b.sent.size < b.vv.size)

/-- The node was there, and was not sent. -/
def Build.misses (nid : NodeID) (b : Build) : Bool := b.vv.has nid && !b.sent.has nid

/-- What may happen between two calls: the vector gains nodes, and the bookkeeping of the
    selections stays. -/
structure Grows (c c' : Core) : Prop where
  has : ∀ nid, c.vv.has nid = true → c'.vv.has nid = true
  lastSelectedNodes : c'.lastSelectedNodes = c.lastSelectedNodes
  scoreUnselectedRounds : c'.scoreUnselectedRounds = c.scoreUnselectedRounds

/-- A node starts with no entries, so its vector may become any other. -/
theorem grows_init (cfg : Config) (uninitialized : Int) (vv : VersionVector) :
    Grows (init cfg uninitialized) { init cfg uninitialized with vv := vv } := by
  refine ⟨?_, rfl, rfl⟩
  intro nid hn
  rw [(init_frame cfg uninitialized).1, has_empty] at hn
  cases hn

/-- A call of `buildSyncVector` as the history has it. -/
def buildOf (P : Platform) (cfg : Config) (m : Moment) (c : Core) : Build :=
  ⟨c.vv, (buildSyncVector P cfg m c).2⟩

/-- Runs of calls with growth in between, the last call first. -/
inductive BuildRun (P : Platform) (cfg : Config) : Core → List Build → Prop
  | init (uninitialized : Int) : BuildRun P cfg (init cfg uninitialized) []
  | grow {c c' : Core} {builds : List Build} : BuildRun P cfg c builds → Grows c c' →
      BuildRun P cfg c' builds
  | build {c : Core} {builds : List Build} (m : Moment) : BuildRun P cfg c builds →
      BuildRun P cfg (buildSyncVector P cfg m c).1 (buildOf P cfg m c :: builds)

/-- The nodes of the last partial vector; none before the first. -/
def previousNodes (builds : List Build) : List NodeID :=
  match builds.find? Build.isPartial with
  | none => []
  | some b => b.sent.nodes

/-- How many of the last calls in a row had the node and did not send it. -/
def missedRounds (builds : List Build) (nid : NodeID) : Nat :=
  (builds.takeWhile (Build.misses nid)).length

theorem missedRounds_cons (b : Build) (builds : List Build) (nid : NodeID) :
    missedRounds (b :: builds) nid = if b.misses nid then missedRounds builds nid + 1 else 0 := by
  rw [missedRounds, List.takeWhile_cons]
  split <;> rfl

theorem previousNodes_cons (b : Build) (builds : List Build) :
    previousNodes (b :: builds) = if b.isPartial then b.sent.nodes else previousNodes builds := by
  cases hb : b.isPartial with
  | true => rw [previousNodes, List.find?_cons_of_pos hb, if_pos rfl]
  | false =>
    rw [previousNodes, List.find?_cons_of_neg (by simp [hb]), if_neg Bool.false_ne_true]
    rfl

/-! ## One call -/

theorem isPartial_buildOf_iff :
    (buildOf P cfg m c).isPartial = true ↔ syncLimit cfg c < c.vv.size := by
  rw [Build.isPartial, decide_eq_true_eq, buildOf, size_buildSyncVector]

theorem lastSelectedNodes_buildSyncVector (h : syncLimit cfg c < c.vv.size) :
    (buildSyncVector P cfg m c).1.lastSelectedNodes.Perm (buildSyncVector P cfg m c).2.nodes := by
  rw [buildSyncVector_selected P m h]
  exact sortBy_perm _ _

theorem vv_buildSyncVector : (buildSyncVector P cfg m c).1.vv = c.vv :=
  (sameWindow_buildSyncVector P cfg m c).vv

/-- Counters that start anew: every node of the vector has 0. -/
theorem getElem?_foldl_nodes (vv : VersionVector) (nid : NodeID) :
    (vv.nodes.foldl (fun rounds nid => rounds.insert nid 0)
      (∅ : Std.ExtTreeMap NodeID Nat))[nid]? = if vv.has nid then some 0 else none := by
  have hfold : (vv.nodes.foldl (fun rounds nid => rounds.insert nid 0)
      (∅ : Std.ExtTreeMap NodeID Nat))[nid]? =
        ((vv.nodes.reverse.find? (· == nid)).map fun _ => 0).or
          (∅ : Std.ExtTreeMap NodeID Nat)[nid]? :=
    Std.ExtTreeMap.getElem?_foldl_insert (fun _ => beq_iff_eq) vv.nodes ∅
  rw [hfold, Std.ExtTreeMap.getElem?_empty, Option.or_none]
  cases hfind : vv.nodes.reverse.find? (· == nid) with
  | none =>
    rw [List.find?_eq_none] at hfind
    have hnot : ¬vv.has nid = true := by
      rw [← mem_nodes, ← List.mem_reverse]
      exact fun hmem => hfind nid hmem (beq_iff_eq.mpr rfl)
    rw [if_neg hnot]
    rfl
  | some n =>
    obtain rfl : n = nid := by simpa using List.find?_some hfind
    have hmem := List.mem_of_find?_eq_some hfind
    rw [List.mem_reverse, mem_nodes] at hmem
    rw [if_pos hmem]
    rfl

/-- The counters after a call. -/
theorem getElem?_scoreUnselectedRounds (nid : NodeID) :
    (buildSyncVector P cfg m c).1.scoreUnselectedRounds[nid]? =
      if c.vv.has nid then
        some (if (buildSyncVector P cfg m c).2.has nid then 0
          else c.scoreUnselectedRounds[nid]?.getD 0 + 1)
      else none := by
  rcases (syncLimit_le_size cfg c).lt_or_eq with hpart | hwhole
  · cases hn : c.vv.has nid with
    | true => exact scoreUnselectedRounds_buildSyncVector P hpart m hn
    | false =>
      -- a node outside the vector gets no counter
      have hnot : nid ∉ c.vv.nodes := by
        rw [mem_nodes, hn]
        exact Bool.false_ne_true
      rw [buildSyncVector_selected P m hpart]
      apply (getElem?_countUnselected_of_notMem hnot _ _).trans
      rw [getElem?_scoreCompensationRounds, hn]
      rfl
  · rw [buildSyncVector_whole P m hwhole]
    apply (getElem?_foldl_nodes c.vv nid).trans
    cases hn : c.vv.has nid with
    | true => simp
    | false => rfl

/-! ## The bookkeeping -/

/-- What the core remembers of the calls so far. -/
structure Bookkept (c : Core) (builds : List Build) : Prop where
  selected : c.lastSelectedNodes.Perm (previousNodes builds)
  known : ∀ nid ∈ previousNodes builds, c.vv.has nid = true
  counted : ∀ nid, c.scoreUnselectedRounds[nid]?.getD 0 = missedRounds builds nid

theorem bookkept_init (cfg : Config) (uninitialized : Int) : Bookkept (init cfg uninitialized) [] := by
  have hframe : (init cfg uninitialized).lastSelectedNodes = [] ∧
      (init cfg uninitialized).scoreUnselectedRounds = ∅ := by
    unfold init
    dsimp only
    split
    · obtain ⟨_, _, _, hrefresh⟩ := refreshNetworkAwareTimerState_writes cfg _ true
      rw [hrefresh]
      exact ⟨rfl, rfl⟩
    · exact ⟨rfl, rfl⟩
  constructor
  · rw [hframe.1]
    exact .refl _
  · exact fun nid hn => by cases hn
  · intro nid
    rw [hframe.2, Std.ExtTreeMap.getElem?_empty]
    rfl

theorem Bookkept.grow {builds : List Build} (h : Bookkept c builds) (hgrows : Grows c c') :
    Bookkept c' builds := by
  constructor
  · rw [hgrows.lastSelectedNodes]
    exact h.selected
  · exact fun nid hn => hgrows.has nid (h.known nid hn)
  · rw [hgrows.scoreUnselectedRounds]
    exact h.counted

theorem Bookkept.build {builds : List Build} (h : Bookkept c builds) (P : Platform) (cfg : Config)
    (m : Moment) : Bookkept (buildSyncVector P cfg m c).1 (buildOf P cfg m c :: builds) := by
  have hsub := subVector_buildSyncVector P cfg m c
  constructor
  · rw [previousNodes_cons]
    split
    · next hpart => exact lastSelectedNodes_buildSyncVector (isPartial_buildOf_iff.mp hpart)
    · next hwhole =>
      rw [isPartial_buildOf_iff, not_lt] at hwhole
      rw [buildSyncVector_whole P m ((syncLimit_le_size cfg c).antisymm hwhole)]
      exact h.selected
  · rw [vv_buildSyncVector, previousNodes_cons]
    split
    · exact fun nid hn => hsub.has ((mem_nodes _ nid).mp hn)
    · exact h.known
  · intro nid
    rw [getElem?_scoreUnselectedRounds, missedRounds_cons, ← h.counted nid, Build.misses, buildOf]
    dsimp only
    cases hn : c.vv.has nid with
    | true =>
      cases (buildSyncVector P cfg m c).2.has nid with
      | true => rfl
      | false => rfl
    | false => rfl

/-- The bookkeeping in every state of a run. -/
theorem BuildRun.bookkept {builds : List Build} (h : BuildRun P cfg c builds) : Bookkept c builds := by
  induction h with
  | init uninitialized => exact bookkept_init cfg uninitialized
  | grow _ hgrows ih => exact ih.grow hgrows
  | build m _ ih => exact ih.build P cfg m

/-! ## The runs of a node -/

theorem Grows.refl (c : Core) : Grows c c := ⟨fun _ hn => hn, rfl, rfl⟩

theorem Grows.trans {c₁ c₂ c₃ : Core} (h₁ : Grows c₁ c₂) (h₂ : Grows c₂ c₃) : Grows c₁ c₃ :=
  ⟨fun nid hn => h₂.has nid (h₁.has nid hn), h₂.lastSelectedNodes.trans h₁.lastSelectedNodes,
    h₂.scoreUnselectedRounds.trans h₁.scoreUnselectedRounds⟩

/-- Only the vector and the selection state count. -/
theorem Grows.of_eq (hvv : c'.vv = c.vv) (hlast : c'.lastSelectedNodes = c.lastSelectedNodes)
    (hrounds : c'.scoreUnselectedRounds = c.scoreUnselectedRounds) : Grows c c' :=
  ⟨fun nid hn => by rw [hvv]; exact hn, hlast, hrounds⟩

theorem grows_observePropagationFeedback (cfg : Config) (m : Moment) (vvOther : VersionVector)
    (c : Core) : Grows c (observePropagationFeedback cfg m vvOther c) := by
  obtain ⟨_, _, _, _, _, _, _, hobserve⟩ := observePropagationFeedback_writes cfg m c vvOther
  rw [hobserve]
  exact .of_eq rfl rfl rfl

theorem grows_recordPropagationFeedbackSend (cfg : Config) (localSeq : SeqNo) (sendTimeUs : Int)
    (c : Core) : Grows c (recordPropagationFeedbackSend cfg localSeq sendTimeUs c) := by
  obtain ⟨_, hrecord⟩ := recordPropagationFeedbackSend_writes cfg c localSeq sendTimeUs
  rw [hrecord]
  exact .of_eq rfl rfl rfl

theorem grows_updateSyncInterval (cfg : Config) (m : Moment) (signal : SyncSignal) (c : Core) :
    Grows c (updateSyncInterval cfg m signal c) := by
  obtain ⟨_, _, _, hinterval⟩ := updateSyncInterval_writes cfg m c signal
  rw [hinterval]
  exact .of_eq rfl rfl rfl

theorem grows_mergeStateVector (m : Moment) (vvOther : VersionVector) (c : Core) :
    Grows c (mergeStateVector m vvOther c).1 := by
  rw [mergeStateVector_fst]
  exact ⟨fun nid hn => ((raiseEntries_spec m c.vv vvOther nid).2.2).mpr (Or.inl hn), rfl, rfl⟩

theorem grows_updateSeqNo (cfg : Config) (m : Moment) (seq : SeqNo) (nid : NodeID) (c : Core) :
    Grows c (updateSeqNo cfg m seq nid c) := by
  obtain ⟨_, _, _, _, _, hupdate⟩ := updateSeqNo_writes cfg m c seq nid
  rw [hupdate]
  exact ⟨fun n hn => (has_set _ _ n _ _).mpr (Or.inr hn), rfl, rfl⟩

theorem grows_processVector (P : Platform) (cfg : Config) (m : Moment) (vvOther : VersionVector)
    (face : UInt64) (c : Core) : Grows c (processVector P cfg m vvOther face c).1 := by
  have hreceived : Grows c (received cfg m vvOther c) :=
    (grows_observePropagationFeedback cfg m vvOther c).trans
      ((grows_mergeStateVector m vvOther _).trans (grows_updateSyncInterval cfg m _ _))
  obtain ⟨_, _, _, hprocess⟩ := processVector_writes P cfg m vvOther face (c := c)
  rw [hprocess]
  exact hreceived.trans (.of_eq rfl rfl rfl)

/-- Some history of calls ends in the state. -/
def HasHistory (P : Platform) (cfg : Config) (c : Core) : Prop := ∃ builds, BuildRun P cfg c builds

theorem HasHistory.grow (h : HasHistory P cfg c) (hgrows : Grows c c') : HasHistory P cfg c' := by
  obtain ⟨builds, hrun⟩ := h
  exact ⟨builds, hrun.grow hgrows⟩

theorem HasHistory.sendSyncInterest (h : HasHistory P cfg c) (m : Moment) :
    HasHistory P cfg (sendSyncInterest P cfg m c).1 := by
  obtain ⟨builds, hrun⟩ := h
  unfold Core.sendSyncInterest
  split
  · exact ⟨builds, hrun⟩
  · have hbuild : HasHistory P cfg (buildSyncVector P cfg m c).1 := ⟨_, hrun.build m⟩
    have hstored : HasHistory P cfg
        { (buildSyncVector P cfg m c).1 with lastSyncTxUs := m.currentTime } :=
      hbuild.grow (.of_eq rfl rfl rfl)
    exact hstored.grow (grows_recordPropagationFeedbackSend cfg _ _ _)

theorem HasHistory.retxSyncInterest (h : HasHistory P cfg c) (m : Moment) (delay : Nat) :
    HasHistory P cfg (retxSyncInterest P cfg m true delay c).1 := by
  cases hgap : withinGap cfg m c with
  | true =>
    obtain ⟨delay', hretx⟩ := retxSyncInterest_withinGap P cfg m delay hgap
    rw [hretx]
    exact h.grow (.of_eq rfl rfl rfl)
  | false =>
    rw [retxSyncInterest_pastGap P cfg m delay hgap]
    have hsend : HasHistory P cfg (sendUnlessSuppressed P cfg m c).1 := by
      cases hr : c.recordedVv with
      | none =>
        rw [sendUnlessSuppressed_of_none P cfg m hr]
        exact h.sendSyncInterest m
      | some r =>
        have hmerged := h.grow (grows_mergeStateVector m r c)
        rw [sendUnlessSuppressed_of_some P cfg m hr]
        split
        · exact (hmerged.sendSyncInterest m).grow (.of_eq rfl rfl rfl)
        · exact hmerged.grow (.of_eq rfl rfl rfl)
    exact hsend.grow (.of_eq rfl rfl rfl)

/-- The runs of a node are runs of calls with growth in between. -/
theorem buildRun_of_reachable {log : List VersionVector} (h : Reachable P cfg c log) :
    ∃ builds, BuildRun P cfg c builds := by
  induction h with
  | init uninitialized => exact ⟨[], .init uninitialized⟩
  | @step c log m e _ ih =>
    have hc : HasHistory P cfg c := ih
    cases e with
    | start =>
      have hstarted : HasHistory P cfg { c with initialized := true } :=
        hc.grow (.of_eq rfl rfl rfl)
      exact hstarted.retxSyncInterest m 0
    | retx => exact hc.retxSyncInterest m 0
    | syncInterest vvOther face => exact hc.grow (grows_processVector P cfg m vvOther face c)
    | updateSeqNo seq nid => exact hc.grow (grows_updateSeqNo cfg m seq nid c)

/-! ## The counters -/

/-- After every call the counters are those of the nodes of the vector, each the number of
    last calls in a row that had the node and did not send it. -/
theorem starvation_counters {builds : List Build} (h : BuildRun P cfg c builds) (m : Moment) :
    (∀ nid, nid ∈ (buildSyncVector P cfg m c).1.scoreUnselectedRounds ↔
      (buildSyncVector P cfg m c).1.vv.has nid = true) ∧
    ∀ nid, (buildSyncVector P cfg m c).1.vv.has nid = true →
      (buildSyncVector P cfg m c).1.scoreUnselectedRounds[nid]? =
        some (missedRounds (buildOf P cfg m c :: builds) nid) := by
  have hcount := (h.bookkept.build P cfg m).counted
  constructor
  · intro nid
    rw [Std.ExtTreeMap.mem_iff_exists_getElem?, vv_buildSyncVector, getElem?_scoreUnselectedRounds]
    cases c.vv.has nid <;> simp
  · intro nid hn
    rw [vv_buildSyncVector] at hn
    have hsome : (buildSyncVector P cfg m c).1.scoreUnselectedRounds[nid]? = _ :=
      getElem?_scoreUnselectedRounds nid
    rw [if_pos hn] at hsome
    rw [← hcount nid, hsome]
    rfl

/-- Three nodes and room for two: after two calls node `c` has missed two rounds. -/
theorem starvation_counters_three :
    let cfg : Config :=
      { id := .ofBytes [[97]], maxStateVectorEntries := 2, stateVectorStrategy := .Recent }
    let known : VersionVector := ((VersionVector.empty.set (.ofBytes [[97]]) 1 0).set
      (.ofBytes [[98]]) 1 0).set (.ofBytes [[99]]) 1 0
    let c₀ : Core := { init cfg 0 with vv := known }
    let c₁ := (buildSyncVector .plain cfg (.atMs 1) c₀).1
    let c₂ := (buildSyncVector .plain cfg (.atMs 2) c₁).1
    missedRounds [buildOf .plain cfg (.atMs 2) c₁, buildOf .plain cfg (.atMs 1) c₀]
        (.ofBytes [[99]]) = 2 ∧
      (∀ nid, nid ∈ c₂.scoreUnselectedRounds ↔ c₂.vv.has nid = true) ∧
      ∀ nid, c₂.vv.has nid = true →
        c₂.scoreUnselectedRounds[nid]? =
          some (missedRounds [buildOf .plain cfg (.atMs 2) c₁, buildOf .plain cfg (.atMs 1) c₀]
            nid) := by
  intro cfg known c₀ c₁ c₂
  have hgrows : Grows (init cfg 0) c₀ := grows_init cfg 0 known
  have hrun : BuildRun .plain cfg c₁ [buildOf .plain cfg (.atMs 1) c₀] :=
    .build (.atMs 1) (.grow (.init 0) hgrows)
  exact ⟨by decide +kernel, starvation_counters hrun (.atMs 2)⟩

end Svs.Core
