import Svs.Native.Sync

/-!
# Merging is a pointwise maximum

`mergeStateVector` and `recordVector` walk the entries of a vector and raise those
that are behind.  `raiseEntries` is that walk; `knows` forgets update times and
reads a vector as a function to `ℕ`, where raising is the join.

## Key results

- `knows_raiseEntries`: raising is the pointwise maximum
- `missingInfo_mergeStateVector`: the ranges a merge reports
- `myVectorNew_iff` / `otherVectorNew_iff`: what the flags of a merge mean
- `mergeStateVector_of_le`: merging what is already known changes nothing
-/

namespace Svs

open Std VersionVector

/-- The sequence numbers a vector knows, as numbers; absent entries are 0. -/
def VersionVector.knows (vv : VersionVector) : NodeID → ℕ := fun nid => (vv.get nid).toNat

/-- An entry above another number is not 0, so it is stored. -/
theorem VersionVector.has_of_lt_get {vv : VersionVector} {nid : NodeID} {s : SeqNo}
    (h : s < vv.get nid) : vv.has nid = true := by
  apply has_of_get_ne_zero
  intro hz
  rw [hz, UInt64.lt_iff_toNat_lt] at h
  simp at h

/-- Walking the stored entries finds every one that is ahead. -/
theorem VersionVector.exists_entry_lt_iff (vv : VersionVector) (bound : NodeID → SeqNo) :
    (∃ e ∈ vv.entries, bound e.1 < e.2) ↔ ∃ nid, bound nid < vv.get nid := by
  constructor
  · intro h
    obtain ⟨⟨nid, s⟩, he, hlt⟩ := h
    exists nid
    rw [get_of_getElem? ((mem_entries vv nid s).mp he)]
    exact hlt
  · intro h
    obtain ⟨nid, hlt⟩ := h
    obtain ⟨s, hs⟩ := (has_iff vv nid).mp (has_of_lt_get hlt)
    rw [get_of_getElem? hs] at hlt
    exact ⟨(nid, s), (mem_entries vv nid s).mpr hs, hlt⟩

namespace Core

/-- Raise the entries of `vv` that are behind those of `vvOther`. -/
def raiseEntries (m : Moment) (vv vvOther : VersionVector) : VersionVector :=
  vvOther.entries.foldl (recordEntry m) vv

/-! ## One entry -/

/-- `read` stands for `get` and `getLastUpdate`: `set` overwrites one entry of both. -/
private theorem recordEntry_read {α : Type} (read : VersionVector → NodeID → α) (new : α)
    (m : Moment) (vv : VersionVector) (e : NodeID × SeqNo)
    (hset : ∀ nid, read (vv.set e.1 e.2 m.now) nid = if e.1 = nid then new else read vv nid)
    (nid : NodeID) :
    read (recordEntry m vv e) nid =
      if nid = e.1 ∧ vv.get nid < e.2 then new else read vv nid := by
  unfold recordEntry
  split
  · next hlt =>
    rw [hset]
    by_cases h : nid = e.1
    · subst h
      rw [if_pos rfl, if_pos ⟨rfl, hlt⟩]
    · rw [if_neg (fun h' => h h'.symm), if_neg (fun h' => h h'.1)]
  · next hge =>
    rw [if_neg]
    intro h
    obtain ⟨rfl, hlt⟩ := h
    exact hge hlt

theorem recordEntry_get (m : Moment) (vv : VersionVector) (e : NodeID × SeqNo) (nid : NodeID) :
    (recordEntry m vv e).get nid = if nid = e.1 ∧ vv.get nid < e.2 then e.2 else vv.get nid :=
  recordEntry_read VersionVector.get e.2 m vv e (fun nid => get_set vv e.1 nid e.2 m.now) nid

theorem recordEntry_getLastUpdate (m : Moment) (vv : VersionVector) (e : NodeID × SeqNo)
    (nid : NodeID) : (recordEntry m vv e).getLastUpdate nid =
      if nid = e.1 ∧ vv.get nid < e.2 then m.now else vv.getLastUpdate nid :=
  recordEntry_read VersionVector.getLastUpdate m.now m vv e
    (fun nid => getLastUpdate_set vv e.1 nid e.2 m.now) nid

theorem recordEntry_has (m : Moment) (vv : VersionVector) (e : NodeID × SeqNo) (nid : NodeID) :
    (recordEntry m vv e).has nid = true ↔
      vv.has nid = true ∨ (nid = e.1 ∧ vv.get nid < e.2) := by
  unfold recordEntry
  split
  · next hlt =>
    rw [has_set]
    constructor
    · intro h
      rcases h with rfl | h
      · exact Or.inr ⟨rfl, hlt⟩
      · exact Or.inl h
    · intro h
      rcases h with h | ⟨rfl, -⟩
      · exact Or.inr h
      · exact Or.inl rfl
  · next hge =>
    constructor
    · exact Or.inl
    · intro h
      rcases h with h | ⟨rfl, h⟩
      · exact h
      · exact absurd h hge

/-! ## The walk -/

/-- An entry that the walk does not visit stays as it is. -/
theorem foldl_recordEntry_of_not_mem (m : Moment) {l : List (NodeID × SeqNo)} {nid : NodeID}
    (h : nid ∉ l.map Prod.fst) (vv : VersionVector) :
    (l.foldl (recordEntry m) vv).get nid = vv.get nid ∧
      (l.foldl (recordEntry m) vv).getLastUpdate nid = vv.getLastUpdate nid ∧
      ((l.foldl (recordEntry m) vv).has nid = true ↔ vv.has nid = true) := by
  induction l generalizing vv with
  | nil => simp
  | cons e l ih =>
    rw [List.map_cons, List.mem_cons, not_or] at h
    obtain ⟨hget, hlast, hhas⟩ := ih h.2 (recordEntry m vv e)
    rw [List.foldl_cons, hget, hlast, hhas, recordEntry_get, recordEntry_getLastUpdate,
      recordEntry_has]
    simp [h.1]

/-- An entry that the walk visits once is raised to the visited value. -/
theorem foldl_recordEntry_of_mem (m : Moment) {l : List (NodeID × SeqNo)}
    (hl : (l.map Prod.fst).Nodup) {nid : NodeID} {s : SeqNo} (h : (nid, s) ∈ l)
    (vv : VersionVector) :
    (l.foldl (recordEntry m) vv).get nid = (if vv.get nid < s then s else vv.get nid) ∧
      (l.foldl (recordEntry m) vv).getLastUpdate nid =
        (if vv.get nid < s then m.now else vv.getLastUpdate nid) ∧
      ((l.foldl (recordEntry m) vv).has nid = true ↔ vv.has nid = true ∨ vv.get nid < s) := by
  induction l generalizing vv with
  | nil => simp at h
  | cons e l ih =>
    rw [List.map_cons, List.nodup_cons] at hl
    rw [List.foldl_cons]
    rcases List.mem_cons.mp h with rfl | hmem
    · -- visited now, and not again by the rest of the walk
      obtain ⟨hget, hlast, hhas⟩ := foldl_recordEntry_of_not_mem m hl.1 (recordEntry m vv (nid, s))
      rw [hget, hlast, hhas, recordEntry_get, recordEntry_getLastUpdate, recordEntry_has]
      simp
    · -- still to come, so `e` belongs to another node and leaves this entry alone
      have hne : nid ≠ e.1 := by
        intro h
        subst h
        exact hl.1 (List.mem_map.mpr ⟨(e.1, s), hmem, rfl⟩)
      obtain ⟨hget, hlast, hhas⟩ := ih hl.2 hmem (recordEntry m vv e)
      rw [hget, hlast, hhas, recordEntry_get, recordEntry_getLastUpdate, recordEntry_has]
      simp [hne]

theorem entries_keys_nodup (vv : VersionVector) : (vv.entries.map Prod.fst).Nodup := by
  rw [VersionVector.entries, ExtTreeMap.map_fst_toList_eq_keys]
  exact vv.nodes_nodup

/-- What raising does to every entry. -/
theorem raiseEntries_spec (m : Moment) (vv vvOther : VersionVector) (nid : NodeID) :
    (raiseEntries m vv vvOther).get nid =
        (if vv.get nid < vvOther.get nid then vvOther.get nid else vv.get nid) ∧
      (raiseEntries m vv vvOther).getLastUpdate nid =
        (if vv.get nid < vvOther.get nid then m.now else vv.getLastUpdate nid) ∧
      ((raiseEntries m vv vvOther).has nid = true ↔
        vv.has nid = true ∨ vv.get nid < vvOther.get nid) := by
  cases hm : vvOther.map[nid]? with
  | none =>
    -- an absent entry is never visited and reads as 0, which nothing is below
    have hzero : vvOther.get nid = 0 := by simp [VersionVector.get, hm]
    have hnot : nid ∉ vvOther.entries.map Prod.fst := by
      intro hmem
      obtain ⟨⟨n, s⟩, he, rfl⟩ := List.mem_map.mp hmem
      simp [(mem_entries _ _ _).mp he] at hm
    obtain ⟨hget, hlast, hhas⟩ := foldl_recordEntry_of_not_mem m hnot vv
    have hge : ¬vv.get nid < 0 := by simp [UInt64.lt_iff_toNat_lt]
    rw [raiseEntries, hget, hlast, hhas, hzero, if_neg hge, if_neg hge]
    simp [hge]
  | some s =>
    rw [get_of_getElem? hm]
    exact foldl_recordEntry_of_mem m (entries_keys_nodup vvOther)
      ((mem_entries vvOther nid s).mpr hm) vv

/-- Raising is the pointwise maximum. -/
theorem knows_raiseEntries (m : Moment) (vv vvOther : VersionVector) :
    (raiseEntries m vv vvOther).knows = vv.knows ⊔ vvOther.knows := by
  funext nid
  simp only [VersionVector.knows, Pi.sup_apply, (raiseEntries_spec m vv vvOther nid).1]
  split
  · next h => exact (max_eq_right (UInt64.lt_iff_toNat_lt.mp h).le).symm
  · next h => exact (max_eq_left (UInt64.not_lt.mp h)).symm

/-- Raising by what is already known changes nothing. -/
theorem raiseEntries_of_le (m : Moment) {vv vvOther : VersionVector}
    (h : vvOther.knows ≤ vv.knows) : raiseEntries m vv vvOther = vv := by
  -- no visited entry is ahead, so the walk stays at `vv`
  have key : ∀ l : List (NodeID × SeqNo), (∀ e ∈ l, e.2 ≤ vv.get e.1) →
      l.foldl (recordEntry m) vv = vv := by
    intro l hl
    induction l with
    | nil => rfl
    | cons e l ih =>
      have hge : ¬vv.get e.1 < e.2 := UInt64.not_lt.mpr (hl e List.mem_cons_self)
      rw [List.foldl_cons, recordEntry, if_neg hge]
      exact ih fun e' he' => hl e' (List.mem_cons_of_mem e he')
  apply key _
  intro e he
  obtain ⟨nid, s⟩ := e
  rw [← get_of_getElem? ((mem_entries vvOther nid s).mp he)]
  exact UInt64.le_iff_toNat_le.mpr (h nid)

/-! ## `mergeStateVector` -/

/-- The range of sequence numbers that an entry of another vector makes known. -/
def missingRange (vv : VersionVector) (e : NodeID × SeqNo) : MissingDataInfo :=
  { nodeId := e.1, low := vv.get e.1 + 1, high := e.2, incomingFace := 0 }

/-- The walk of `mergeStateVector` raises the entries, and reports those it raised. -/
theorem foldl_mergeEntry (m : Moment) {l : List (NodeID × SeqNo)} (hl : (l.map Prod.fst).Nodup)
    (vv : VersionVector) (result : MergeResult) :
    (l.foldl (mergeEntry m) (vv, result)).1 = l.foldl (recordEntry m) vv ∧
      (l.foldl (mergeEntry m) (vv, result)).2.missingInfo =
        result.missingInfo ++
          (l.filter fun e => vv.get e.1 < e.2).map (missingRange vv) ∧
      ((l.foldl (mergeEntry m) (vv, result)).2.otherVectorNew = true ↔
        result.otherVectorNew = true ∨ ∃ e ∈ l, vv.get e.1 < e.2) := by
  induction l generalizing vv result with
  | nil => simp
  | cons e l ih =>
    rw [List.map_cons, List.nodup_cons] at hl
    -- raising `e` does not touch the entries that are still to come
    have hsame : ∀ e' ∈ l, (recordEntry m vv e).get e'.1 = vv.get e'.1 := by
      intro e' he'
      have hne : e'.1 ≠ e.1 := fun h => hl.1 (h ▸ List.mem_map_of_mem he')
      rw [recordEntry_get, if_neg fun h => hne h.1]
    have hfilter : (l.filter fun e' => decide ((recordEntry m vv e).get e'.1 < e'.2)) =
        l.filter fun e' => decide (vv.get e'.1 < e'.2) :=
      List.filter_congr fun e' he' => by rw [hsame e' he']
    have hmap : (l.filter fun e' => decide (vv.get e'.1 < e'.2)).map
          (missingRange (recordEntry m vv e)) =
        (l.filter fun e' => decide (vv.get e'.1 < e'.2)).map (missingRange vv) :=
      List.map_congr_left fun e' he' => by
        rw [missingRange, hsame e' (List.mem_of_mem_filter he'), missingRange]
    have hexists : (∃ e' ∈ l, (recordEntry m vv e).get e'.1 < e'.2) ↔
        ∃ e' ∈ l, vv.get e'.1 < e'.2 := by
      apply exists_congr
      intro e'
      apply and_congr_right
      intro he'
      rw [hsame e' he']
    rw [List.foldl_cons, List.foldl_cons]
    by_cases hlt : vv.get e.1 < e.2
    · have hstep : mergeEntry m (vv, result) e = (recordEntry m vv e,
          { result with
            otherVectorNew := true
            missingInfo := result.missingInfo ++ [missingRange vv e] }) := by
        rw [mergeEntry, if_pos hlt, recordEntry, if_pos hlt]
        rfl
      obtain ⟨hvv, hmissing, hother⟩ := ih hl.2 (recordEntry m vv e) { result with
        otherVectorNew := true
        missingInfo := result.missingInfo ++ [missingRange vv e] }
      rw [hstep, hvv, hmissing, hother, hfilter, hmap,
        List.filter_cons_of_pos (by simpa using hlt)]
      refine ⟨rfl, by simp, ?_⟩
      simp [hlt]
    · have hstep : mergeEntry m (vv, result) e = (recordEntry m vv e, result) := by
        rw [mergeEntry, if_neg hlt, recordEntry, if_neg hlt]
      obtain ⟨hvv, hmissing, hother⟩ := ih hl.2 (recordEntry m vv e) result
      rw [hstep, hvv, hmissing, hother, hfilter, hmap, hexists,
        List.filter_cons_of_neg (by simpa using hlt)]
      refine ⟨rfl, rfl, ?_⟩
      simp [hlt]

variable (m : Moment) (vvOther : VersionVector) (c : Core)

/-- A merge changes nothing but the vector. -/
theorem mergeStateVector_fst :
    (mergeStateVector m vvOther c).1 = { c with vv := raiseEntries m c.vv vvOther } := by
  have h := (foldl_mergeEntry m (entries_keys_nodup vvOther) c.vv {}).1
  rw [raiseEntries, ← h]
  rfl

/-- A merge reports one range for each entry it raises, in the order of the nodes. -/
theorem missingInfo_mergeStateVector :
    (mergeStateVector m vvOther c).2.missingInfo =
      (vvOther.entries.filter fun e => c.vv.get e.1 < e.2).map (missingRange c.vv) := by
  have h := (foldl_mergeEntry m (entries_keys_nodup vvOther) c.vv {}).2.1
  rw [List.nil_append] at h
  exact h

theorem otherVectorNew_iff :
    (mergeStateVector m vvOther c).2.otherVectorNew = true ↔
      ∃ nid, c.vv.get nid < vvOther.get nid := by
  have h := (foldl_mergeEntry m (entries_keys_nodup vvOther) c.vv {}).2.2
  rw [exists_entry_lt_iff] at h
  constructor
  · intro hnew
    -- the flag starts out false, so the walk has set it
    rcases h.mp hnew with hstart | hahead
    · cases hstart
    · exact hahead
  · intro hahead
    exact h.mpr (Or.inr hahead)

/-- `myVectorNew` reads the vector before the merge: an entry ahead of the other
    vector that was not updated recently. -/
theorem myVectorNew_iff :
    (mergeStateVector m vvOther c).2.myVectorNew = true ↔
      ∃ nid, vvOther.get nid < c.vv.get nid ∧ updatedRecently m c nid = false := by
  have hdef : (mergeStateVector m vvOther c).2.myVectorNew =
      (mergeStateVector m vvOther c).1.vv.entries.any fun entry =>
        !updatedRecently m (mergeStateVector m vvOther c).1 entry.1 &&
          decide (vvOther.get entry.1 < entry.2) := rfl
  rw [hdef, mergeStateVector_fst, List.any_eq_true]
  constructor
  · intro hany
    obtain ⟨⟨nid, s⟩, he, hnew⟩ := hany
    rw [Bool.and_eq_true, Bool.not_eq_true', decide_eq_true_eq] at hnew
    obtain ⟨hrecent, hlt⟩ := hnew
    obtain ⟨hget, hlast, -⟩ := raiseEntries_spec m c.vv vvOther nid
    rw [get_of_getElem? ((mem_entries _ nid s).mp he)] at hget
    -- a raised entry equals the other vector's, so it is not ahead
    have hnot : ¬c.vv.get nid < vvOther.get nid := by
      intro hraised
      rw [hget, if_pos hraised] at hlt
      exact UInt64.lt_irrefl _ hlt
    rw [if_neg hnot] at hget hlast
    refine ⟨nid, hget ▸ hlt, ?_⟩
    -- nor did the merge touch its update time
    rw [← hrecent, updatedRecently, updatedRecently, hlast]
  · intro hahead
    obtain ⟨nid, hlt, hrecent⟩ := hahead
    have hnot : ¬c.vv.get nid < vvOther.get nid := UInt64.not_lt.mpr (UInt64.le_of_lt hlt)
    obtain ⟨hget, hlast, -⟩ := raiseEntries_spec m c.vv vvOther nid
    rw [if_neg hnot] at hget hlast
    rw [← hget] at hlt
    obtain ⟨s, hs⟩ := (has_iff _ nid).mp (has_of_lt_get hlt)
    refine ⟨(nid, s), (mem_entries _ nid s).mpr hs, ?_⟩
    rw [Bool.and_eq_true, Bool.not_eq_true', decide_eq_true_eq]
    constructor
    · rw [← hrecent, updatedRecently, updatedRecently, hlast]
    · rw [← get_of_getElem? hs]
      exact hlt

variable {m vvOther c} in
/-- Merging what is already known changes nothing and reports nothing. -/
theorem mergeStateVector_of_le (h : vvOther.knows ≤ c.vv.knows) :
    (mergeStateVector m vvOther c).1 = c ∧
      (mergeStateVector m vvOther c).2.otherVectorNew = false ∧
      (mergeStateVector m vvOther c).2.missingInfo = [] := by
  have hnone : ∀ nid, ¬c.vv.get nid < vvOther.get nid := fun nid =>
    UInt64.not_lt.mpr (UInt64.le_iff_toNat_le.mpr (h nid))
  refine ⟨?_, ?_, ?_⟩
  · rw [mergeStateVector_fst, raiseEntries_of_le m h]
  · rw [← Bool.not_eq_true, otherVectorNew_iff]
    intro hahead
    obtain ⟨nid, hlt⟩ := hahead
    exact hnone nid hlt
  · rw [missingInfo_mergeStateVector, List.map_eq_nil_iff, List.filter_eq_nil_iff]
    intro e he
    obtain ⟨nid, s⟩ := e
    rw [← get_of_getElem? ((mem_entries vvOther nid s).mp he)]
    simpa using hnone nid

end Core

end Svs
