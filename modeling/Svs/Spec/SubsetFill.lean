import Svs.Native.SelectSubset
import Svs.ForStd.List

/-!
# Filling `selected`

`addEntry` and the walk `addEntries` under a budget.  `SubVector` says that a
vector copies entries and update times of another, `Extends` what every helper of
`selectSubset` does to `selected`.  `has_addEntries` and `size_addEntries`
describe exactly what a walk over distinct nodes of the vector selects.
-/

namespace Svs

open Std VersionVector

/-! ## Sub-vectors -/

/-- Every entry of `sel` is an entry of `vv`, with the same update time. -/
structure SubVector (vv sel : VersionVector) : Prop where
  entry : ∀ (nid : NodeID) (s : SeqNo), sel.map[nid]? = some s → vv.map[nid]? = some s
  lastUpdate : ∀ nid, sel.has nid = true → sel.getLastUpdate nid = vv.getLastUpdate nid

namespace SubVector

variable {vv sel : VersionVector}

theorem refl (vv : VersionVector) : SubVector vv vv := ⟨fun _ _ h => h, fun _ _ => rfl⟩

theorem empty (vv : VersionVector) : SubVector vv .empty :=
  ⟨fun nid s h => by simp [VersionVector.empty] at h, fun nid h => by simp at h⟩

theorem has (h : SubVector vv sel) {nid : NodeID} (hn : sel.has nid = true) :
    vv.has nid = true := by
  rw [has_iff] at hn ⊢
  obtain ⟨s, hs⟩ := hn
  exact ⟨s, h.entry nid s hs⟩

/-- A selected node has the sequence number of the vector. -/
theorem get_eq (h : SubVector vv sel) {nid : NodeID} (hn : sel.has nid = true) :
    sel.get nid = vv.get nid := by
  obtain ⟨s, hs⟩ := (has_iff sel nid).mp hn
  rw [get_of_getElem? hs, get_of_getElem? (h.entry nid s hs)]

theorem get_le (h : SubVector vv sel) (nid : NodeID) : sel.get nid ≤ vv.get nid := by
  cases hn : sel.has nid with
  | true => rw [h.get_eq hn]; exact UInt64.le_refl _
  | false => rw [get_of_not_has hn]; exact UInt64.zero_le

theorem size_le (h : SubVector vv sel) : sel.size ≤ vv.size :=
  ExtTreeMap.size_le_of_subset fun nid hn =>
    (has_iff_mem vv nid).mp (h.has ((has_iff_mem sel nid).mpr hn))

end SubVector

/-- A proper selection leaves some entry out. -/
theorem exists_omitted {vv sel : VersionVector} (hlt : sel.size < vv.size) :
    ∃ nid, vv.has nid = true ∧ sel.has nid = false := by
  by_contra hnone
  push Not at hnone
  have hle : vv.size ≤ sel.size := ExtTreeMap.size_le_of_subset fun nid hn => by
    rw [← has_iff_mem] at hn ⊢
    simpa using hnone nid hn
  omega

/-! ## One entry -/

section

variable (vv : VersionVector) (nid : NodeID) (sel : VersionVector)

/-- `addEntry` adds the nodes of the vector that are not yet selected. -/
theorem addEntry_snd : (addEntry vv nid sel).2 = (vv.has nid && !sel.has nid) := by
  cases hm : vv.map[nid]? with
  | none =>
    have hv : vv.has nid = false := by
      rw [← Bool.not_eq_true, has_iff]
      simp [hm]
    simp [addEntry, hm, hv]
  | some s =>
    have hv : vv.has nid = true := (has_iff vv nid).mpr ⟨s, hm⟩
    cases hs : sel.has nid <;> simp [addEntry, hm, hs, hv]

variable {vv nid sel}

theorem addEntry_of_not (h : (vv.has nid && !sel.has nid) = false) :
    addEntry vv nid sel = (sel, false) := by
  have hsnd : (addEntry vv nid sel).2 = false := (addEntry_snd vv nid sel).trans h
  revert hsnd
  unfold addEntry
  split
  · simp
  · split <;> simp

/-- The entry that `addEntry` adds. -/
theorem addEntry_of_new (hv : vv.has nid = true) (hs : sel.has nid = false) :
    addEntry vv nid sel =
      ({ map := sel.map.insert nid (vv.get nid)
         lastUpdate := sel.lastUpdate.insert nid (vv.getLastUpdate nid) }, true) := by
  obtain ⟨s, hm⟩ := (has_iff vv nid).mp hv
  simp [addEntry, hm, hs, get_of_getElem? hm]

variable (vv nid sel) in
/-- What is selected after `addEntry`. -/
theorem has_addEntry (m : NodeID) :
    (addEntry vv nid sel).1.has m = true ↔ sel.has m = true ∨ (m = nid ∧ vv.has nid = true) := by
  cases hnew : (vv.has nid && !sel.has nid) with
  | false =>
    -- nothing was added, so `nid` is absent or was selected before
    rw [addEntry_of_not hnew]
    constructor
    · exact Or.inl
    · intro h
      rcases h with h | ⟨rfl, hv⟩
      · exact h
      · simpa [hv] using hnew
  | true =>
    rw [Bool.and_eq_true, Bool.not_eq_true'] at hnew
    rw [addEntry_of_new hnew.1 hnew.2]
    simp only [has_iff_mem, ExtTreeMap.mem_insert', hnew.1]
    tauto

theorem size_addEntry :
    (addEntry vv nid sel).1.size = sel.size + if vv.has nid && !sel.has nid then 1 else 0 := by
  cases hnew : (vv.has nid && !sel.has nid) with
  | false => rw [addEntry_of_not hnew]; rfl
  | true =>
    rw [Bool.and_eq_true, Bool.not_eq_true'] at hnew
    have hmem : nid ∉ sel.map := by
      rw [← has_iff_mem, hnew.2]
      simp
    rw [addEntry_of_new hnew.1 hnew.2]
    simp [VersionVector.size, ExtTreeMap.size_insert, hmem]

theorem SubVector.addEntry (h : SubVector vv sel) : SubVector vv (addEntry vv nid sel).1 := by
  cases hnew : (vv.has nid && !sel.has nid) with
  | false => rw [addEntry_of_not hnew]; exact h
  | true =>
    rw [Bool.and_eq_true, Bool.not_eq_true'] at hnew
    rw [addEntry_of_new hnew.1 hnew.2]
    obtain ⟨s, hm⟩ := (has_iff vv nid).mp hnew.1
    constructor
    case entry =>
      intro m t ht
      simp only [ExtTreeMap.getElem?_insert'] at ht
      split at ht
      · next heq =>
        subst heq
        rw [get_of_getElem? hm] at ht
        rw [hm, ht]
      · exact h.entry m t ht
    case lastUpdate =>
      intro m hmem
      simp only [getLastUpdate, ExtTreeMap.getElem?_insert']
      split
      · next heq => subst heq; rfl
      · next hne =>
        simp only [has_iff_mem, ExtTreeMap.mem_insert'] at hmem
        exact h.lastUpdate m ((has_iff_mem sel m).mpr (hmem.resolve_left hne))

end

/-! ## What every helper does -/

/-- `sel'` is a sub-vector within the budget that keeps what `sel` had. -/
structure Extends (vv : VersionVector) (a : SubsetArgs) (sel sel' : VersionVector) : Prop where
  sub : SubVector vv sel'
  mono : ∀ nid, sel.has nid = true → sel'.has nid = true
  size_le : sel'.size ≤ a.maxEntries

theorem Extends.trans {vv : VersionVector} {a : SubsetArgs} {s₁ s₂ s₃ : VersionVector}
    (h₁ : Extends vv a s₁ s₂) (h₂ : Extends vv a s₂ s₃) : Extends vv a s₁ s₃ :=
  ⟨h₂.sub, fun nid h => h₂.mono nid (h₁.mono nid h), h₂.size_le⟩

theorem Extends.refl {vv : VersionVector} {a : SubsetArgs} {sel : VersionVector}
    (hsub : SubVector vv sel) (hsize : sel.size ≤ a.maxEntries) : Extends vv a sel sel :=
  ⟨hsub, fun _ h => h, hsize⟩

theorem Extends.addEntry {vv : VersionVector} {a : SubsetArgs} {sel : VersionVector}
    (nid : NodeID) (hsub : SubVector vv sel) (hsize : sel.size < a.maxEntries) :
    Extends vv a sel (addEntry vv nid sel).1 where
  sub := hsub.addEntry
  mono m hm := (has_addEntry vv nid sel m).mpr (Or.inl hm)
  size_le := by
    rw [size_addEntry]
    split <;> omega

/-! ## Walking a list of nodes -/

section

variable {vv : VersionVector} {a : SubsetArgs} {l : List NodeID} {budget : Nat}
  {sel : VersionVector}

/-- One step of the walk. -/
theorem addEntries_cons (nid : NodeID) (rest : List NodeID) (budget : Nat) (sel : VersionVector) :
    addEntries vv a (nid :: rest) budget sel =
      if sel.size ≥ a.maxEntries || budget == 0 then sel
      else addEntries vv a rest (if vv.has nid && !sel.has nid then budget - 1 else budget)
        (addEntry vv nid sel).1 := by
  rw [addEntries, ← addEntry_snd vv nid sel]
  split
  · rfl
  · rcases addEntry vv nid sel with ⟨s, _ | _⟩ <;> rfl

theorem addEntries_stop (h : sel.size ≥ a.maxEntries ∨ budget = 0) :
    addEntries vv a l budget sel = sel := by
  cases l with
  | nil => rfl
  | cons nid rest =>
    rw [addEntries_cons, if_pos]
    simpa using h

variable (l budget) in
theorem Extends.addEntries (hsub : SubVector vv sel) (hsize : sel.size ≤ a.maxEntries) :
    Extends vv a sel (addEntries vv a l budget sel) := by
  induction l generalizing budget sel with
  | nil => exact .refl hsub hsize
  | cons nid rest ih =>
    rw [addEntries_cons]
    split
    · exact .refl hsub hsize
    · next hgo =>
      -- the loop goes on only while there is a free slot
      have hlt : sel.size < a.maxEntries := by
        simp only [Bool.or_eq_true, decide_eq_true_eq, not_or] at hgo
        omega
      have hstep := Extends.addEntry nid hsub hlt
      exact hstep.trans (ih _ hstep.sub hstep.size_le)

/-- Selecting a node does not change what is unselected in a list without it. -/
theorem filter_not_has_addEntry {nid : NodeID} (hl : nid ∉ l) :
    l.filter (!(addEntry vv nid sel).1.has ·) = l.filter (!sel.has ·) := by
  apply List.filter_congr
  intro n hn
  have hne : n ≠ nid := fun h => hl (h ▸ hn)
  have hiff := has_addEntry vv nid sel n
  simp only [hne, false_and, or_false] at hiff
  rw [Bool.eq_iff_iff.mpr hiff]

/-- A walk over distinct nodes of the vector selects the first unselected ones, as
    many as the budget and the free slots allow. -/
theorem has_addEntries (hl : l.Nodup) (hmem : ∀ nid ∈ l, vv.has nid = true) (m : NodeID) :
    (addEntries vv a l budget sel).has m = true ↔
      sel.has m = true ∨
        m ∈ (l.filter (!sel.has ·)).take (min budget (a.maxEntries - sel.size)) := by
  induction l generalizing budget sel with
  | nil => simp [addEntries]
  | cons nid rest ih =>
    rw [addEntries_cons]
    split
    · next hstop =>
      -- no slot or no budget is left
      simp only [Bool.or_eq_true, decide_eq_true_eq, beq_iff_eq] at hstop
      rw [show min budget (a.maxEntries - sel.size) = 0 by omega]
      simp
    · next hgo =>
      simp only [Bool.or_eq_true, decide_eq_true_eq, beq_iff_eq, not_or] at hgo
      rw [List.nodup_cons] at hl
      rw [ih hl.2 fun n hn => hmem n (List.mem_cons_of_mem _ hn)]
      have hv : vv.has nid = true := hmem nid List.mem_cons_self
      cases hs : sel.has nid with
      | true =>
        -- the walk passes over a selected node at no cost
        rw [addEntry_of_not (by simp [hs])]
        simp [hs]
      | false =>
        -- the node takes one slot and one of the budget
        rw [filter_not_has_addEntry hl.1, has_addEntry, size_addEntry,
          List.filter_cons_of_pos (by simp [hs])]
        simp only [hv, hs, Bool.not_false, Bool.and_self, if_true]
        rw [show min budget (a.maxEntries - sel.size) =
          min (budget - 1) (a.maxEntries - (sel.size + 1)) + 1 by omega, List.take_succ_cons,
          List.mem_cons]
        tauto

/-- How many entries a walk over distinct nodes of the vector adds. -/
theorem size_addEntries (hl : l.Nodup) (hmem : ∀ nid ∈ l, vv.has nid = true) :
    (addEntries vv a l budget sel).size =
      sel.size + min (min budget (a.maxEntries - sel.size)) (l.filter (!sel.has ·)).length := by
  induction l generalizing budget sel with
  | nil => simp [addEntries]
  | cons nid rest ih =>
    rw [addEntries_cons]
    split
    · next hstop =>
      simp only [Bool.or_eq_true, decide_eq_true_eq, beq_iff_eq] at hstop
      rw [show min budget (a.maxEntries - sel.size) = 0 by omega]
      simp
    · next hgo =>
      simp only [Bool.or_eq_true, decide_eq_true_eq, beq_iff_eq, not_or] at hgo
      rw [List.nodup_cons] at hl
      rw [ih hl.2 fun n hn => hmem n (List.mem_cons_of_mem _ hn)]
      have hv : vv.has nid = true := hmem nid List.mem_cons_self
      cases hs : sel.has nid with
      | true =>
        rw [addEntry_of_not (by simp [hs])]
        simp [hs]
      | false =>
        rw [filter_not_has_addEntry hl.1, size_addEntry, List.filter_cons_of_pos (by simp [hs]),
          List.length_cons]
        simp only [hv, hs, Bool.not_false, Bool.and_self, if_true]
        omega

end

end Svs
