import Svs.Native.Name
import Svs.ForStd.TreeMap

/-!
# Version vectors

`VersionVector` (`version-vector.hpp`): a map from node to sequence number, and a
second map with the time at which this process last set each entry.  A decoded
vector has entries but no update times.
-/

namespace Svs

open Std

/-- `time::system_clock::time_point`, in nanoseconds since the clock's epoch. -/
abbrev TimePoint := Int

namespace TimePoint

/-- `time_point::min()`: the count is a signed 64-bit number. -/
def min : TimePoint := -2 ^ 63

/-- `time_point::max()`. -/
def max : TimePoint := 2 ^ 63 - 1

end TimePoint

/-- `m_map` and `m_lastUpdate` of a version vector. -/
structure VersionVector where
  map : ExtTreeMap NodeID SeqNo := ∅
  lastUpdate : ExtTreeMap NodeID TimePoint := ∅

namespace VersionVector

/-- `VersionVector() = default`. -/
def empty : VersionVector := {}

/-- `VersionVector::size`. -/
def size (vv : VersionVector) : Nat := vv.map.size

/-- `VersionVector::set`, the clock read as `now`. -/
def set (vv : VersionVector) (nid : NodeID) (seqNo : SeqNo) (now : TimePoint) : VersionVector where
  map := vv.map.insert nid seqNo
  lastUpdate := vv.lastUpdate.insert nid now

/-- `VersionVector::get`: an absent entry reads as 0. -/
def get (vv : VersionVector) (nid : NodeID) : SeqNo := vv.map[nid]?.getD 0

/-- `VersionVector::getLastUpdate`: an entry without update time reads as `min()`. -/
def getLastUpdate (vv : VersionVector) (nid : NodeID) : TimePoint :=
  vv.lastUpdate[nid]?.getD TimePoint.min

/-- `VersionVector::has`. -/
def has (vv : VersionVector) (nid : NodeID) : Bool := vv.map.contains nid

/-- The nodes in iteration order (`orderedNodes` in `selectSubset`). -/
def nodes (vv : VersionVector) : List NodeID := vv.map.keys

/-- The entries in iteration order. -/
def entries (vv : VersionVector) : List (NodeID × SeqNo) := vv.map.toList

/-- What a receiver decodes from an encoded vector: the entries alone. -/
def wire (vv : VersionVector) : VersionVector := { map := vv.map }

@[simp] theorem size_empty : empty.size = 0 := ExtTreeMap.size_empty

@[simp] theorem get_empty (nid : NodeID) : empty.get nid = 0 := by
  simp [empty, get]

@[simp] theorem has_empty (nid : NodeID) : empty.has nid = false := by
  simp [empty, has]

theorem get_set (vv : VersionVector) (nid nid' : NodeID) (seqNo : SeqNo) (now : TimePoint) :
    (vv.set nid seqNo now).get nid' = if nid = nid' then seqNo else vv.get nid' := by
  simp only [get, set, ExtTreeMap.getElem?_insert']
  split <;> rfl

@[simp] theorem get_set_self (vv : VersionVector) (nid : NodeID) (seqNo : SeqNo)
    (now : TimePoint) : (vv.set nid seqNo now).get nid = seqNo := by
  rw [get_set, if_pos rfl]

theorem getLastUpdate_set (vv : VersionVector) (nid nid' : NodeID) (seqNo : SeqNo)
    (now : TimePoint) :
    (vv.set nid seqNo now).getLastUpdate nid' =
      if nid = nid' then now else vv.getLastUpdate nid' := by
  simp only [getLastUpdate, set, ExtTreeMap.getElem?_insert']
  split <;> rfl

theorem has_iff_mem (vv : VersionVector) (nid : NodeID) : vv.has nid = true ↔ nid ∈ vv.map := by
  rw [has, ExtTreeMap.contains_iff_mem]

theorem has_iff (vv : VersionVector) (nid : NodeID) :
    vv.has nid = true ↔ ∃ s, vv.map[nid]? = some s := by
  rw [has_iff_mem, ExtTreeMap.mem_iff_exists_getElem?]

theorem has_set (vv : VersionVector) (nid nid' : NodeID) (seqNo : SeqNo) (now : TimePoint) :
    (vv.set nid seqNo now).has nid' = true ↔ nid = nid' ∨ vv.has nid' = true := by
  simp only [has_iff_mem, set, ExtTreeMap.mem_insert']

theorem mem_nodes (vv : VersionVector) (nid : NodeID) : nid ∈ vv.nodes ↔ vv.has nid = true := by
  rw [nodes, ExtTreeMap.mem_keys, has_iff_mem]

theorem nodes_nodup (vv : VersionVector) : vv.nodes.Nodup := vv.map.keys_nodup

@[simp] theorem length_nodes (vv : VersionVector) : vv.nodes.length = vv.size :=
  ExtTreeMap.length_keys

theorem mem_entries (vv : VersionVector) (nid : NodeID) (s : SeqNo) :
    (nid, s) ∈ vv.entries ↔ vv.map[nid]? = some s :=
  ExtTreeMap.mem_toList_iff_getElem?_eq_some

theorem get_of_getElem? {vv : VersionVector} {nid : NodeID} {s : SeqNo}
    (h : vv.map[nid]? = some s) : vv.get nid = s := by
  simp [get, h]

/-- An entry with a positive sequence number is present. -/
theorem has_of_get_ne_zero {vv : VersionVector} {nid : NodeID} (h : vv.get nid ≠ 0) :
    vv.has nid = true := by
  rw [has_iff]
  cases hm : vv.map[nid]? with
  | none => exact absurd (by simp [get, hm]) h
  | some s => exact ⟨s, rfl⟩

theorem get_of_not_has {vv : VersionVector} {nid : NodeID} (h : vv.has nid = false) :
    vv.get nid = 0 := by
  by_contra hne
  exact absurd (has_of_get_ne_zero hne) (by simp [h])

@[simp] theorem get_wire (vv : VersionVector) (nid : NodeID) : vv.wire.get nid = vv.get nid := rfl

@[simp] theorem has_wire (vv : VersionVector) (nid : NodeID) : vv.wire.has nid = vv.has nid := rfl

end VersionVector

end Svs
