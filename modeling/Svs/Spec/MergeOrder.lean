import Svs.Spec.MergeCorrect

/-!
# The order of merges

Raising is a join, so a sequence of merges ends where its vectors take it, in any
order.  The update times and the single ranges do depend on the order; the map and
the sequence numbers reported do not.

## Key results

- `mem_missingInfo_iff`: a merge reports exactly the entries it raises
- `le_get_mergeAll_iff` / `reports_mergeAll`: what a sequence of merges stores and reports
- `mergeAll_order`: reordering and repeating the vectors changes neither
-/

namespace Svs.Core

open Std VersionVector

/-- Merge vectors one after the other, each at its own moment, and collect the ranges. -/
def mergeAll : List (Moment × VersionVector) → Core → Core × List MissingDataInfo
  | [], c => (c, [])
  | (m, vvOther) :: rest, c =>
    let (c, result) := mergeStateVector m vvOther c
    let (c, missingInfo) := mergeAll rest c
    (c, result.missingInfo ++ missingInfo)

/-- Some range contains the sequence number of the node. -/
def Reports (missingInfo : List MissingDataInfo) (nid : NodeID) (seq : SeqNo) : Prop :=
  ∃ e ∈ missingInfo, e.nodeId = nid ∧ e.low ≤ seq ∧ seq ≤ e.high

theorem reports_append (l l' : List MissingDataInfo) (nid : NodeID) (seq : SeqNo) :
    Reports (l ++ l') nid seq ↔ Reports l nid seq ∨ Reports l' nid seq := by
  simp only [Reports, List.mem_append, or_and_right, exists_or]

/-! ## One merge -/

section

variable (m : Moment) (vvOther : VersionVector) (c : Core)

theorem get_mergeStateVector (nid : NodeID) :
    ((mergeStateVector m vvOther c).1.vv.get nid).toNat =
      max (c.vv.get nid).toNat (vvOther.get nid).toNat := by
  rw [mergeStateVector_fst]
  exact congrFun (knows_raiseEntries m c.vv vvOther) nid

theorem le_get_mergeStateVector_iff (nid : NodeID) (seq : SeqNo) :
    seq ≤ (mergeStateVector m vvOther c).1.vv.get nid ↔
      seq ≤ c.vv.get nid ∨ seq ≤ vvOther.get nid := by
  simp only [UInt64.le_iff_toNat_le, get_mergeStateVector, le_max_iff]

/-- The range after a number below another one starts right behind it. -/
theorem toNat_add_one_of_lt {x y : SeqNo} (h : x < y) : (x + 1).toNat = x.toNat + 1 := by
  have hlt := UInt64.lt_iff_toNat_lt.mp h
  have hy := y.toNat_lt
  rw [UInt64.toNat_add, UInt64.toNat_one]
  omega

/-- A merge reports exactly the entries it raises, from the first missing number on. -/
theorem mem_missingInfo_iff (e : MissingDataInfo) :
    e ∈ (mergeStateVector m vvOther c).2.missingInfo ↔
      c.vv.get e.nodeId < vvOther.get e.nodeId ∧
        e.low.toNat = (c.vv.get e.nodeId).toNat + 1 ∧
        e.high = vvOther.get e.nodeId ∧ e.incomingFace = 0 := by
  rw [missingInfo_mergeStateVector, List.mem_map]
  constructor
  · intro h
    obtain ⟨⟨nid, s⟩, he, rfl⟩ := h
    obtain ⟨hmem, hlt⟩ := List.mem_filter.mp he
    rw [decide_eq_true_eq] at hlt
    have hget := get_of_getElem? ((mem_entries vvOther nid s).mp hmem)
    dsimp only [missingRange] at hlt ⊢
    rw [hget]
    exact ⟨hlt, toNat_add_one_of_lt hlt, rfl, rfl⟩
  · intro h
    obtain ⟨hlt, hlow, hhigh, hface⟩ := h
    obtain ⟨s, hs⟩ := (has_iff vvOther e.nodeId).mp (has_of_lt_get hlt)
    have hget := get_of_getElem? hs
    refine ⟨(e.nodeId, s), ?_, ?_⟩
    · rw [List.mem_filter, decide_eq_true_eq]
      exact ⟨(mem_entries vvOther e.nodeId s).mpr hs, hget ▸ hlt⟩
    · obtain ⟨nid, low, high, face⟩ := e
      dsimp only at hlow hhigh hface hlt hget
      have hlow' : c.vv.get nid + 1 = low := by
        rw [← UInt64.toNat_inj, hlow, toNat_add_one_of_lt hlt]
      rw [missingRange, hlow', ← hget, hhigh, hface]

/-- No node has two ranges. -/
theorem missingInfo_nodup :
    ((mergeStateVector m vvOther c).2.missingInfo.map (·.nodeId)).Nodup := by
  rw [missingInfo_mergeStateVector, List.map_map]
  exact ((entries_keys_nodup vvOther).sublist (List.filter_sublist.map Prod.fst))

theorem reports_mergeStateVector (nid : NodeID) (seq : SeqNo) :
    Reports (mergeStateVector m vvOther c).2.missingInfo nid seq ↔
      c.vv.get nid < seq ∧ seq ≤ vvOther.get nid := by
  constructor
  · intro h
    obtain ⟨e, he, rfl, hlow, hhigh⟩ := h
    obtain ⟨-, hlow', hhigh', -⟩ := (mem_missingInfo_iff m vvOther c e).mp he
    rw [UInt64.le_iff_toNat_le, hlow'] at hlow
    exact ⟨UInt64.lt_iff_toNat_lt.mpr hlow, hhigh' ▸ hhigh⟩
  · intro h
    obtain ⟨hlt, hle⟩ := h
    have hraised : c.vv.get nid < vvOther.get nid := UInt64.lt_of_lt_of_le hlt hle
    have hlow := toNat_add_one_of_lt hraised
    refine ⟨⟨nid, c.vv.get nid + 1, vvOther.get nid, 0⟩, ?_, rfl, ?_, hle⟩
    · exact (mem_missingInfo_iff m vvOther c _).mpr ⟨hraised, hlow, rfl, rfl⟩
    · rw [UInt64.le_iff_toNat_le, hlow]
      exact UInt64.lt_iff_toNat_lt.mp hlt

end

/-! ## Sequences of merges -/

variable (vs : List (Moment × VersionVector)) (c : Core) (nid : NodeID)

/-- The maximum over the sequence, said by its lower bounds. -/
theorem le_get_mergeAll_iff (seq : SeqNo) :
    seq ≤ (mergeAll vs c).1.vv.get nid ↔
      seq ≤ c.vv.get nid ∨ ∃ v ∈ vs, seq ≤ v.2.get nid := by
  induction vs generalizing c with
  | nil => simp [mergeAll]
  | cons v vs ih =>
    rw [List.exists_mem_cons_iff, ← or_assoc, ← le_get_mergeStateVector_iff v.1]
    exact ih (mergeStateVector v.1 v.2 c).1

/-- A sequence of merges reports what it raises an entry through. -/
theorem reports_mergeAll (seq : SeqNo) :
    Reports (mergeAll vs c).2 nid seq ↔ c.vv.get nid < seq ∧ ∃ v ∈ vs, seq ≤ v.2.get nid := by
  induction vs generalizing c with
  | nil => simp [mergeAll, Reports]
  | cons v vs ih =>
    have hall : (mergeAll (v :: vs) c).2 = (mergeStateVector v.1 v.2 c).2.missingInfo ++
        (mergeAll vs (mergeStateVector v.1 v.2 c).1).2 := rfl
    rw [hall, reports_append, reports_mergeStateVector, ih, List.exists_mem_cons_iff]
    -- the later merges report what lies above both the entry and the first vector
    have hafter := le_get_mergeStateVector_iff v.1 v.2 c nid seq
    rw [← not_iff_not, not_or, UInt64.not_le, UInt64.not_le, UInt64.not_le] at hafter
    rw [hafter, ← UInt64.not_le (b := v.2.get nid)]
    tauto

/-- An entry is there after the merges if it was there, or was raised. -/
theorem has_mergeAll_iff :
    (mergeAll vs c).1.vv.has nid = true ↔
      c.vv.has nid = true ∨ ∃ v ∈ vs, c.vv.get nid < v.2.get nid := by
  induction vs generalizing c with
  | nil => simp [mergeAll]
  | cons v vs ih =>
    have hstep := raiseEntries_spec v.1 c.vv v.2 nid
    rw [List.exists_mem_cons_iff]
    refine (ih (mergeStateVector v.1 v.2 c).1).trans ?_
    rw [mergeStateVector_fst]
    dsimp only
    rw [hstep.2.2, hstep.1]
    split
    · next hlt => simp [hlt]
    · next hge => simp [hge]

/-- Equal reads and equal nodes make equal maps. -/
theorem map_ext {vv vv' : VersionVector} (hget : ∀ nid, vv.get nid = vv'.get nid)
    (hhas : ∀ nid, vv.has nid = true ↔ vv'.has nid = true) : vv.map = vv'.map := by
  apply ExtTreeMap.ext_getElem?
  intro nid
  have hiff := hhas nid
  rw [has_iff, has_iff] at hiff
  cases h : vv.map[nid]? with
  | some s =>
    obtain ⟨s', hs'⟩ := hiff.mp ⟨s, h⟩
    rw [hs', ← get_of_getElem? h, ← get_of_getElem? hs', hget]
  | none =>
    cases h' : vv'.map[nid]? with
    | none => rfl
    | some s =>
      obtain ⟨s', hs'⟩ := hiff.mpr ⟨s, h'⟩
      rw [h] at hs'
      cases hs'

variable {vs c} in
/-- A sequence with at least the same vectors raises every entry at least as far. -/
theorem exists_mem_of_subset {ws : List (Moment × VersionVector)}
    (h : ∀ entries ∈ vs.map (·.2.map), entries ∈ ws.map (·.2.map)) {p : SeqNo → Prop}
    (hp : ∃ v ∈ vs, p (v.2.get nid)) : ∃ w ∈ ws, p (w.2.get nid) := by
  obtain ⟨v, hv, hpv⟩ := hp
  obtain ⟨w, hw, heq⟩ := List.mem_map.mp (h _ (List.mem_map.mpr ⟨v, hv, rfl⟩))
  refine ⟨w, hw, ?_⟩
  rwa [VersionVector.get, heq]

/-- A merge is a pointwise maximum that leaves the other update times alone and reports
    exactly the raised entries, each once.  Two sequences of merges with the same vectors
    end with the same map and report the same sequence numbers. -/
theorem mergeAll_order (c : Core) :
    (∀ (m : Moment) (vvOther : VersionVector),
      (∀ nid, ((mergeStateVector m vvOther c).1.vv.get nid).toNat =
        max (c.vv.get nid).toNat (vvOther.get nid).toNat) ∧
      (∀ nid, ¬c.vv.get nid < vvOther.get nid →
        (mergeStateVector m vvOther c).1.vv.getLastUpdate nid = c.vv.getLastUpdate nid) ∧
      ((mergeStateVector m vvOther c).2.missingInfo.map (·.nodeId)).Nodup ∧
      ∀ e, e ∈ (mergeStateVector m vvOther c).2.missingInfo ↔
        c.vv.get e.nodeId < vvOther.get e.nodeId ∧
          e.low.toNat = (c.vv.get e.nodeId).toNat + 1 ∧
          e.high = vvOther.get e.nodeId ∧ e.incomingFace = 0) ∧
    ∀ vs ws : List (Moment × VersionVector),
      (∀ entries, entries ∈ vs.map (·.2.map) ↔ entries ∈ ws.map (·.2.map)) →
      (mergeAll vs c).1.vv.map = (mergeAll ws c).1.vv.map ∧
        ∀ nid seq, Reports (mergeAll vs c).2 nid seq ↔ Reports (mergeAll ws c).2 nid seq := by
  constructor
  · intro m vvOther
    refine ⟨get_mergeStateVector m vvOther c, ?_, missingInfo_nodup m vvOther c,
      mem_missingInfo_iff m vvOther c⟩
    intro nid hge
    rw [mergeStateVector_fst, (raiseEntries_spec m c.vv vvOther nid).2.1, if_neg hge]
  · intro vs ws hsame
    have hexists : ∀ (nid : NodeID) (p : SeqNo → Prop),
        (∃ v ∈ vs, p (v.2.get nid)) ↔ ∃ w ∈ ws, p (w.2.get nid) := fun nid p =>
      ⟨exists_mem_of_subset nid fun e => (hsame e).mp,
        exists_mem_of_subset nid fun e => (hsame e).mpr⟩
    constructor
    · apply map_ext
      · intro nid
        have hle : ∀ seq, seq ≤ (mergeAll vs c).1.vv.get nid ↔
            seq ≤ (mergeAll ws c).1.vv.get nid := by
          intro seq
          rw [le_get_mergeAll_iff, le_get_mergeAll_iff, hexists nid (seq ≤ ·)]
        exact UInt64.le_antisymm ((hle _).mp (UInt64.le_refl _)) ((hle _).mpr (UInt64.le_refl _))
      · intro nid
        rw [has_mergeAll_iff, has_mergeAll_iff, hexists nid (c.vv.get nid < ·)]
    · intro nid seq
      rw [reports_mergeAll, reports_mergeAll, hexists nid (seq ≤ ·)]

/-- Two vectors, merged in one order and then, the second one twice, in the other. -/
theorem mergeAll_order_swapped :
    (mergeAll [(.atMs 1, VersionVector.empty.set (.ofBytes [[97]]) 3 0),
        (.atMs 2, VersionVector.empty.set (.ofBytes [[97]]) 5 0)] (init {} 0)).1.vv.map =
      (mergeAll [(.atMs 1, VersionVector.empty.set (.ofBytes [[97]]) 5 0),
        (.atMs 2, VersionVector.empty.set (.ofBytes [[97]]) 3 0),
        (.atMs 3, VersionVector.empty.set (.ofBytes [[97]]) 5 0)] (init {} 0)).1.vv.map :=
  ((mergeAll_order (init {} 0)).2 _ _ fun entries => by
    simp only [List.map_cons, List.map_nil, List.mem_cons, List.not_mem_nil, or_false]
    tauto).1

end Svs.Core
