import Mathlib

/-!
# NDN names

Node identifiers are NDN names (`using NodeID = ndn::Name`).  A name is a list of
components, a component a TLV type with its value bytes.  Names are compared in
the canonical order: component by component (type first, then value length, then
value bytes), a proper prefix before the longer name.  `std::map<NodeID, _>`
iterates in this order.
-/

namespace Svs

/-- A name component: its TLV type and its value. -/
structure Component where
  type : Nat
  value : List UInt8
deriving DecidableEq, Repr

namespace Component

/-- What the canonical order compares, most significant part first. -/
def key (c : Component) : ℕ ×ₗ ℕ ×ₗ List ℕ :=
  toLex (c.type, toLex (c.value.length, c.value.map UInt8.toNat))

theorem key_injective : Function.Injective key := by
  rintro ⟨t, v⟩ ⟨t', v'⟩ h
  simp only [key, EmbeddingLike.apply_eq_iff_eq, Prod.mk.injEq] at h
  obtain ⟨rfl, -, hv⟩ := h
  rw [List.map_injective_iff.mpr (fun a b => UInt8.toNat_inj.mp) hv]

instance : LinearOrder Component := LinearOrder.lift' key key_injective

end Component

/-- An NDN name. -/
structure Name where
  components : List Component
deriving DecidableEq, Repr

namespace Name

theorem components_injective : Function.Injective components := by
  rintro ⟨a⟩ ⟨b⟩ h
  exact congrArg mk h

instance : LinearOrder Name := LinearOrder.lift' components components_injective

instance : Std.TransOrd Name := inferInstance

/-- `Name::empty`. -/
def isEmpty (n : Name) : Bool := n.components.isEmpty

/-- The generic name components have TLV type 8. -/
def ofBytes (bytes : List (List UInt8)) : Name := ⟨bytes.map (Component.mk 8)⟩

end Name

/-- `using NodeID = ndn::Name`. -/
abbrev NodeID := Name

/-- `using SeqNo = uint64_t`. -/
abbrev SeqNo := UInt64

/-- `SVSyncCore::EMPTY_NODE_ID`, the empty name. -/
def EMPTY_NODE_ID : NodeID := ⟨[]⟩

theorem isEmpty_iff (n : Name) : n.isEmpty = true ↔ n = EMPTY_NODE_ID := by
  obtain ⟨_ | ⟨c, cs⟩⟩ := n <;> simp [Name.isEmpty, EMPTY_NODE_ID]

end Svs
