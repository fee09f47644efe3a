import Svs.Spec.RoundRobin
import Svs.Spec.StepCorrect

/-!
# What a partial vector tells its receiver

`mergeStateVector` reads an omitted entry as sequence number 0.  So a partial vector
from an equally informed peer makes the receiver look newer exactly when a positive
entry was left out, and an answer built under a limit repairs the peer for sure only
while fewer entries than the limit are already known to it.
-/

namespace Svs

open Std VersionVector

/-- The selection leaves out nothing but entries with sequence number 0. -/
def OmitsOnlyZeros (vv sel : VersionVector) : Prop :=
  ∀ nid, sel.has nid = false → vv.get nid = 0

theorem omitsOnlyZeros_refl (vv : VersionVector) : OmitsOnlyZeros vv vv :=
  fun _ => get_of_not_has

theorem SubVector.get_lt_iff {vv sel : VersionVector} (h : SubVector vv sel) (nid : NodeID) :
    sel.get nid < vv.get nid ↔ sel.has nid = false ∧ vv.get nid ≠ 0 := by
  cases hn : sel.has nid with
  | true => simp [h.get_eq hn]
  | false =>
    rw [get_of_not_has hn, UInt64.lt_iff_toNat_lt, UInt64.toNat_zero, Nat.pos_iff_ne_zero,
      ← UInt64.toNat_zero, Ne, UInt64.toNat_inj]
    simp

/-- Under any budget too small for the vector some arguments leave a given node out: a
    walk that starts behind the node meets it last. -/
theorem exists_args_omitting (P : Platform) {vv : VersionVector} {nid : NodeID}
    (hn : vv.has nid = true) {k : Nat} (hpos : 1 ≤ k) (hbig : k < vv.size) :
    ∃ a : SubsetArgs, a.maxEntries = k ∧ (selectSubset P vv a).has nid = false := by
  let a : SubsetArgs :=
    { maxEntries := k, strategy := .RoundRobin, startIndex := vv.nodes.idxOf nid + 1 }
  have hempty : selectPreferred vv a = .empty := selectPreferred_of_isEmpty rfl
  have hidx : (roundRobinNodes vv a).idxOf nid = vv.size - 1 := by
    apply idxOf_roundRobinNodes hn (by omega)
    have hsum : a.startIndex + (vv.size - 1) = vv.nodes.idxOf nid + vv.size := by
      simp only [a]
      omega
    rw [hsum]
    exact Nat.add_modEq_right
  have hbefore : unselectedBefore (roundRobinNodes vv a) .empty nid = vv.size - 1 := by
    have hlen : (roundRobinNodes vv a).length = vv.size :=
      (roundRobinNodes_perm vv a).length_eq.trans (length_nodes vv)
    simp [unselectedBefore, hidx, hlen]
  -- all other nodes come first, and they use up the budget
  refine ⟨a, rfl, ?_⟩
  rw [selectSubset_roundRobin P rfl hpos hbig, hempty, ← Bool.not_eq_true]
  intro hhas
  have hlt := (has_addEntries_iff (roundRobinNodes_perm vv a) hn (has_empty nid)).mp hhas
  rw [hbefore, size_empty] at hlt
  simp only [a] at hlt
  omega

namespace Core

variable {P : Platform} {cfg : Config} {m : Moment} {c : Core}

/-- Merging the vector neither makes the receiver behind nor ahead of its sender. -/
def LooksCurrent (m : Moment) (vvOther : VersionVector) (c : Core) : Prop :=
  (mergeStateVector m vvOther c).2.otherVectorNew = false ∧
    (mergeStateVector m vvOther c).2.myVectorNew = false

instance (m : Moment) (vvOther : VersionVector) (c : Core) :
    Decidable (LooksCurrent m vvOther c) :=
  inferInstanceAs (Decidable (_ ∧ _))

/-- A sub-vector of what the receiver holds looks current iff it omits only zeros. -/
theorem looksCurrent_wire_iff {vv sel : VersionVector} (hsub : SubVector vv sel)
    (hmap : c.vv.map = vv.map)
    (hold : ∀ nid, c.vv.has nid = true → updatedRecently m c nid = false) :
    LooksCurrent m sel.wire c ↔ OmitsOnlyZeros vv sel := by
  have hget : ∀ nid, c.vv.get nid = vv.get nid := fun nid => by
    rw [VersionVector.get, hmap, VersionVector.get]
  have hother : (mergeStateVector m sel.wire c).2.otherVectorNew = false := by
    rw [← Bool.not_eq_true, otherVectorNew_iff]
    intro hahead
    obtain ⟨nid, hlt⟩ := hahead
    rw [hget] at hlt
    exact UInt64.not_lt.mpr (hsub.get_le nid) hlt
  rw [LooksCurrent, hother, ← Bool.not_eq_true (MergeResult.myVectorNew _), myVectorNew_iff]
  simp only [get_wire, hget, hsub.get_lt_iff, true_and, not_exists, not_and]
  constructor
  · intro h nid hn
    by_contra hne
    refine h nid ⟨hn, hne⟩ (hold nid (has_of_get_ne_zero ?_))
    rwa [hget]
  · intro h nid hn
    exact absurd (h nid hn.1) hn.2

/-- A selection that is the whole vector leaves nothing out. -/
theorem omitsOnlyZeros_of_whole {vv : VersionVector} {a : SubsetArgs} (hpos : 1 ≤ a.maxEntries)
    (h : a.strategy = .Full ∨ vv.size ≤ a.maxEntries) :
    OmitsOnlyZeros vv (selectSubset P vv a) := by
  by_cases hsize : vv.size = 0
  · -- an empty vector has only absent entries, which read as 0
    intro nid _
    apply get_of_not_has
    rw [← Bool.not_eq_true, ← mem_nodes]
    intro hn
    have hlen := List.length_pos_of_mem hn
    rw [length_nodes] at hlen
    omega
  · rw [selectSubset_eq_self P (by omega) h]
    exact omitsOnlyZeros_refl vv

/-- When the receiver of a partial vector from an equally informed peer sees nothing new
    on either side.  For a vector without zero entries: exactly when the strategy is
    `Full` or the vector fits the budget.  For any vector, whatever the strategy and the
    other arguments: exactly when it fits the budget or has no positive entry.  For any
    vector and a single selection: exactly when that leaves out zero entries only. -/
theorem looksCurrent_selectSubset_iff {vv : VersionVector} (hmap : c.vv.map = vv.map)
    (hold : ∀ nid, c.vv.has nid = true → updatedRecently m c nid = false) :
    (∀ a : SubsetArgs, 1 ≤ a.maxEntries → (∀ nid, vv.has nid = true → vv.get nid ≠ 0) →
      (LooksCurrent m (selectSubset P vv a).wire c ↔
        a.strategy = .Full ∨ vv.size ≤ a.maxEntries)) ∧
    (∀ k, 1 ≤ k →
      ((∀ a : SubsetArgs, a.maxEntries = k → LooksCurrent m (selectSubset P vv a).wire c) ↔
        vv.size ≤ k ∨ ∀ nid, vv.get nid = 0)) ∧
    ∀ a : SubsetArgs, LooksCurrent m (selectSubset P vv a).wire c ↔
      OmitsOnlyZeros vv (selectSubset P vv a) := by
  have hiff : ∀ a, LooksCurrent m (selectSubset P vv a).wire c ↔
      OmitsOnlyZeros vv (selectSubset P vv a) := fun a =>
    looksCurrent_wire_iff (subVector_selectSubset P vv a) hmap hold
  refine ⟨fun a hpos hne => ?_, fun k hpos => ?_, hiff⟩
  · rw [hiff]
    constructor
    · intro h
      by_contra hpart
      rw [not_or] at hpart
      -- a proper selection omits an entry, which is positive
      have hsize := size_selectSubset P vv hpart.1
      have hlt : (selectSubset P vv a).size < vv.size := by omega
      obtain ⟨nid, hn, homit⟩ := exists_omitted hlt
      exact hne nid hn (h nid homit)
    · exact omitsOnlyZeros_of_whole hpos
  · simp only [hiff]
    constructor
    · intro h
      by_contra hpart
      push Not at hpart
      obtain ⟨hbig, nid, hne⟩ := hpart
      -- some arguments leave out this very entry
      obtain ⟨a, ha, homit⟩ := exists_args_omitting P (has_of_get_ne_zero hne) hpos hbig
      exact hne (h a ha nid homit)
    · intro h a ha
      rcases h with hfits | hzero
      · exact omitsOnlyZeros_of_whole (by omega) (Or.inr (by omega))
      · exact fun nid _ => hzero nid

/-- Two entries that peer and receiver share. -/
def sharedPair : VersionVector :=
  (VersionVector.empty.set (.ofBytes [[97]]) 4 0).set (.ofBytes [[98]]) 9 0

/-- A node that has held those entries for a long time. -/
def pairHolder : Core := { init {} 0 with vv := sharedPair }

theorem pairHolder_settled (nid : NodeID) (hn : pairHolder.vv.has nid = true) :
    updatedRecently (.atMs 10000) pairHolder nid = false := by
  have hall : ∀ n ∈ pairHolder.vv.nodes, updatedRecently (.atMs 10000) pairHolder n = false := by
    decide +kernel
  exact hall nid ((mem_nodes _ nid).mpr hn)

/-- With a budget of one entry an equally informed receiver looks newer. -/
theorem not_looksCurrent_selectSubset :
    ¬∀ (P : Platform) (vv : VersionVector) (a : SubsetArgs) (m : Moment) (c : Core),
      c.vv.map = vv.map → (∀ nid, c.vv.has nid = true → updatedRecently m c nid = false) →
      1 ≤ a.maxEntries → LooksCurrent m (selectSubset P vv a).wire c := by
  intro h
  have hcur := h .plain sharedPair
    { maxEntries := 1, strategy := .Recent, preferredNode := .ofBytes [[97]] }
    (.atMs 10000) pairHolder rfl pairHolder_settled le_rfl
  revert hcur
  decide +kernel

/-- `looksCurrent_selectSubset_iff` for that budget. -/
theorem looksCurrent_selectSubset_iff_sharedPair :
    LooksCurrent (.atMs 10000) (selectSubset .plain sharedPair
        { maxEntries := 1, strategy := .Recent, preferredNode := .ofBytes [[97]] }).wire pairHolder ↔
      SubsetStrategy.Recent = .Full ∨ sharedPair.size ≤ 1 :=
  (looksCurrent_selectSubset_iff rfl pairHolder_settled).1 _ (by decide) fun nid hn => by
    have hall : ∀ n ∈ sharedPair.nodes, sharedPair.get n ≠ 0 := by decide
    exact hall nid ((mem_nodes _ nid).mpr hn)

/-! ## Answers to a lagging peer -/

/-- The vector has an entry that is ahead of the recorded one. -/
def CarriesRepair (recorded sent : VersionVector) : Prop :=
  ∃ entry ∈ sent.entries, recorded.get entry.1 < entry.2

instance (recorded sent : VersionVector) : Decidable (CarriesRepair recorded sent) :=
  inferInstanceAs (Decidable (∃ _ ∈ _, _))

theorem carriesRepair_iff {recorded sent : VersionVector} :
    CarriesRepair recorded sent ↔ ∃ nid, recorded.get nid < sent.get nid :=
  sent.exists_entry_lt_iff recorded.get

/-- The nodes of the local vector on which the recorded one lacks nothing. -/
def coveredNodes (recorded : VersionVector) (c : Core) : List NodeID :=
  c.vv.nodes.filter fun nid => c.vv.get nid ≤ recorded.get nid

/-- A built vector larger than the covered nodes has an entry that is not covered. -/
theorem carriesRepair_of_covered_lt {r : VersionVector}
    (h : (coveredNodes r c).length < syncLimit cfg c) :
    CarriesRepair r (buildSyncVector P cfg m c).2 := by
  have hsub := subVector_buildSyncVector P cfg m c
  rw [carriesRepair_iff]
  by_contra hnone
  push Not at hnone
  -- otherwise all its nodes are covered ones, and there are too few of these
  have hcovered : (buildSyncVector P cfg m c).2.nodes ⊆ coveredNodes r c := by
    intro nid hn
    rw [mem_nodes] at hn
    rw [coveredNodes, List.mem_filter, mem_nodes, decide_eq_true_eq, ← hsub.get_eq hn]
    exact ⟨hsub.has hn, UInt64.not_lt.mp (hnone nid)⟩
  have hle := (List.subperm_of_subset (nodes_nodup _) hcovered).length_le
  rw [length_nodes, size_buildSyncVector] at hle
  omega

/-- A transmission out of suppression sends what the merged state builds. -/
theorem sent_of_recorded {r sent : VersionVector} {delay : Nat} (hr : c.recordedVv = some r)
    (hsent : Effect.expressInterest sent ∈ (retxSyncInterest P cfg m true delay c).2) :
    (mergeStateVector m r c).2.myVectorNew = true ∧
      sent = (buildSyncVector P cfg m (mergeStateVector m r c).1).2 := by
  cases hgap : withinGap cfg m c with
  | true =>
    obtain ⟨delay', hretx⟩ := retxSyncInterest_withinGap P cfg m delay hgap
    simp [hretx] at hsent
  | false =>
    rw [retxSyncInterest_pastGap P cfg m delay hgap,
      sendUnlessSuppressed_of_some P cfg m hr] at hsent
    split at hsent
    · -- an uninitialized node would send nothing here either
      next hnew =>
      simp only [sendSyncInterest_snd] at hsent
      split at hsent
      · exact ⟨hnew, Effect.expressInterest.inj (List.mem_singleton.mp hsent)⟩
      · cases hsent
    · cases hsent

/-- A node that has something newer has an entry that is not covered. -/
theorem length_coveredNodes_lt {r : VersionVector} (hnew : (mergeStateVector m r c).2.myVectorNew = true) :
    (coveredNodes r (mergeStateVector m r c).1).length < (mergeStateVector m r c).1.vv.size := by
  obtain ⟨nid, hlt, -⟩ := (myVectorNew_iff m r c).mp hnew
  have hle : c.vv.get nid ≤ (mergeStateVector m r c).1.vv.get nid := by
    rw [mergeStateVector_fst]
    dsimp only
    rw [(raiseEntries_spec m c.vv r nid).1]
    split
    · next hraised => exact UInt64.le_of_lt hraised
    · exact UInt64.le_refl _
  have hahead : r.get nid < (mergeStateVector m r c).1.vv.get nid := UInt64.lt_of_lt_of_le hlt hle
  rw [coveredNodes, ← length_nodes, List.length_filter_lt_length_iff_exists]
  refine ⟨nid, (mem_nodes _ nid).mpr (has_of_lt_get hahead), ?_⟩
  rw [decide_eq_true_eq, UInt64.not_le]
  exact hahead

/-- An answer repairs its peer if the node's own entry is ahead of the recorded vector, if
    fewer entries than the limit are covered by it, or if the whole vector is sent. -/
theorem carriesRepair_of_sent {r sent : VersionVector} {delay : Nat}
    (hr : c.recordedVv = some r)
    (hlimit : 1 ≤ syncLimit cfg (mergeStateVector m r c).1)
    (hcond : (cfg.id.isEmpty = false ∧
        r.get cfg.id < (mergeStateVector m r c).1.vv.get cfg.id) ∨
      (coveredNodes r (mergeStateVector m r c).1).length <
        syncLimit cfg (mergeStateVector m r c).1 ∨
      cfg.stateVectorStrategy = .Full ∨
      syncLimit cfg (mergeStateVector m r c).1 = (mergeStateVector m r c).1.vv.size)
    (hsent : Effect.expressInterest sent ∈ (retxSyncInterest P cfg m true delay c).2) :
    CarriesRepair r sent := by
  obtain ⟨hnew, rfl⟩ := sent_of_recorded hr hsent
  have hwhole : syncLimit cfg (mergeStateVector m r c).1 = (mergeStateVector m r c).1.vv.size →
      CarriesRepair r (buildSyncVector P cfg m (mergeStateVector m r c).1).2 := by
    intro hsize
    apply carriesRepair_of_covered_lt
    rw [hsize]
    exact length_coveredNodes_lt hnew
  rcases hcond with ⟨hid, hlt⟩ | hlt | hfull | hsize
  · -- the own entry is always sent
    have hown := has_buildSyncVector_own P m hlimit hid (has_of_lt_get hlt)
    rw [carriesRepair_iff]
    exists cfg.id
    rwa [(subVector_buildSyncVector P cfg m _).get_eq hown]
  · exact carriesRepair_of_covered_lt hlt
  · exact hwhole (syncLimit_of_full _ _ hfull)
  · exact hwhole hsize

/-- A node that sends its two most recent entries. -/
def twoRecent : Config where
  id := .ofBytes [[97]]
  stateVectorStrategy := .Recent
  maxStateVectorEntries := 2
  enableCoordinatedSync := false

/-- The node publishes, learns an entry of `b`, then one of `c`; later a peer is heard. -/
def laggingPeer (peer : VersionVector) : Core × List VersionVector :=
  run .plain twoRecent
    [(.atMs 0, .start),
      (.atMs 100, .updateSeqNo 1 EMPTY_NODE_ID),
      (.atMs 101, .retx),
      (.atMs 1000, .syncInterest (VersionVector.empty.set (.ofBytes [[98]]) 1 0).wire 0),
      (.atMs 1330, .retx),
      (.atMs 2000, .syncInterest (VersionVector.empty.set (.ofBytes [[99]]) 1 0).wire 0),
      (.atMs 2330, .retx),
      (.atMs 4000, .syncInterest peer.wire 0)]
    (init twoRecent 0, [])

/-- A peer that lacks the entry of `b`, and one that lacks those of `b` and `c`. -/
def lacksOne : VersionVector := (VersionVector.empty.set (.ofBytes [[97]]) 1 0).set (.ofBytes [[99]]) 1 0
def lacksTwo : VersionVector := VersionVector.empty.set (.ofBytes [[97]]) 1 0

/-- What the node has recorded of that peer. -/
def laggingPeerVector (peer : VersionVector) : VersionVector :=
  (laggingPeer peer).1.recordedVv.getD .empty

theorem laggingPeer_recordedVv {peer : VersionVector} (h : (laggingPeer peer).1.recordedVv.isSome) :
    (laggingPeer peer).1.recordedVv = some (laggingPeerVector peer) := by
  obtain ⟨r, hr⟩ := Option.isSome_iff_exists.mp h
  rw [laggingPeerVector, hr]
  rfl

/-- The vectors among the effects of a handler. -/
def sentVectors (effects : List Effect) : List VersionVector :=
  effects.filterMap fun
    | .expressInterest vv => some vv
    | .onUpdate _ => none

theorem mem_sentVectors {effects : List Effect} {vv : VersionVector} :
    vv ∈ sentVectors effects ↔ Effect.expressInterest vv ∈ effects := by
  rw [sentVectors, List.mem_filterMap]
  constructor
  · intro h
    obtain ⟨e, he, hvv⟩ := h
    cases e with
    | expressInterest vv' => rwa [← Option.some.inj hvv]
    | onUpdate missingInfo => cases hvv
  · exact fun he => ⟨_, he, rfl⟩

/-- A node answers a lagging peer with a vector that repairs nothing. -/
theorem not_carriesRepair_of_sent :
    ¬∀ (P : Platform) (cfg : Config) (c : Core) (log : List VersionVector) (m : Moment)
      (r sent : VersionVector), Reachable P cfg c log → c.recordedVv = some r →
      1 ≤ syncLimit cfg (mergeStateVector m r c).1 →
      (mergeStateVector m r c).2.myVectorNew = true →
      Effect.expressInterest sent ∈ (retxSyncInterest P cfg m true 0 c).2 →
      CarriesRepair r sent := by
  intro h
  have hsent : ∃ sent ∈ sentVectors
      (retxSyncInterest .plain twoRecent (.atMs 5199) true 0 (laggingPeer lacksOne).1).2,
      ¬CarriesRepair (laggingPeerVector lacksOne) sent := by
    decide +kernel
  obtain ⟨sent, hmem, hnot⟩ := hsent
  exact hnot (h .plain twoRecent (laggingPeer lacksOne).1 (laggingPeer lacksOne).2 (.atMs 5199) _ sent
    ((Reachable.init 0).run _) (laggingPeer_recordedVv (by decide +kernel)) (by decide +kernel)
    (by decide +kernel) (mem_sentVectors.mp hmem))

/-- The peer has one of the three entries, so two of them cannot both be covered. -/
theorem carriesRepair_of_sent_lacksTwo :
    ∃ sent, Effect.expressInterest sent ∈
        (retxSyncInterest .plain twoRecent (.atMs 5199) true 0 (laggingPeer lacksTwo).1).2 ∧
      sent.size < (laggingPeer lacksTwo).1.vv.size ∧ CarriesRepair (laggingPeerVector lacksTwo) sent := by
  have hsent : ∃ sent ∈ sentVectors
      (retxSyncInterest .plain twoRecent (.atMs 5199) true 0 (laggingPeer lacksTwo).1).2,
      sent.size < (laggingPeer lacksTwo).1.vv.size := by
    decide +kernel
  obtain ⟨sent, hmem, hsize⟩ := hsent
  exact ⟨sent, mem_sentVectors.mp hmem, hsize,
    carriesRepair_of_sent (laggingPeer_recordedVv (by decide +kernel)) (by decide +kernel)
      (Or.inr (Or.inl (by decide +kernel))) (mem_sentVectors.mp hmem)⟩

end Core

end Svs
