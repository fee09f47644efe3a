import Svs.Native.Group
import Svs.Spec.MappingFetch

/-!
# The names of Data

A data name starts with the identifier of its producer and the sync prefix, and so does the
name of a mapping query.  The next component is a sequence number in the former, and
`MAPPING` in the latter.  As long as no identifier is a prefix of another one, Data under a
data name is of that publication.

## Key results

- `Members.component_inj`: names that have a common extension
- `Members.publication_inj`: what is under a data name
-/

namespace Svs

namespace Codec

/-- An integer takes a power of two of bytes. -/
theorem length_integerBytes (n : UInt64) : (integerBytes n).length ∈ [1, 2, 4, 8] := by
  rw [integerBytes, length_toBigEndian]
  split
  · decide
  · split
    · decide
    · split <;> decide

end Codec

/-- The configurations of one group.  The identifiers are names that the network can route
    to, none of them below another one. -/
structure Members {ι : Type*} (cfg : ι → PublisherConfig) (syncPrefix : Name) : Prop where
  syncPrefix : ∀ i, (cfg i).syncPrefix = syncPrefix
  id_ne : ∀ i, (cfg i).core.id ≠ EMPTY_NODE_ID
  id_valid : ∀ i, (cfg i).core.id.Valid
  prefixFree : ∀ i j, (cfg i).core.id.isPrefixOf (cfg j).core.id = true → i = j
  limit : ∀ i, (cfg i).core.stateVectorStrategy = .Full ∨ 1 ≤ (cfg i).core.maxStateVectorEntries

namespace Members

variable {ι : Type*} {cfg : ι → PublisherConfig} {syncPrefix : Name}

theorem id_injective (h : Members cfg syncPrefix) : Function.Injective fun i => (cfg i).core.id := by
  intro i j hij
  apply h.prefixFree i j
  have hij : (cfg i).core.id = (cfg j).core.id := hij
  rw [Name.isPrefixOf, hij]
  exact List.isPrefixOf_iff_prefix.mpr (List.prefix_refl _)

theorem id_nonempty (h : Members cfg syncPrefix) (i : ι) : (cfg i).core.id.isEmpty = false := by
  rw [← Bool.not_eq_true, isEmpty_iff]
  exact h.id_ne i

/-- Two names below the identifiers of nodes that have a common extension. -/
theorem component_inj (h : Members cfg syncPrefix) {i j : ι} {c c' : Component} {cs : List Component}
    (hi : (cfg i).core.id.components ++ syncPrefix.components ++ [c] <+: cs)
    (hj : (cfg j).core.id.components ++ syncPrefix.components ++ [c'] <+: cs) : i = j ∧ c = c' := by
  -- one of the identifiers is a prefix of the other
  have hpi : (cfg i).core.id.components <+: cs := by
    rw [List.append_assoc] at hi
    exact (List.prefix_append _ _).trans hi
  have hpj : (cfg j).core.id.components <+: cs := by
    rw [List.append_assoc] at hj
    exact (List.prefix_append _ _).trans hj
  have hij : i = j := by
    rcases List.prefix_or_prefix_of_prefix hpi hpj with hle | hle
    · exact h.prefixFree i j (List.isPrefixOf_iff_prefix.mpr hle)
    · exact (h.prefixFree j i (List.isPrefixOf_iff_prefix.mpr hle)).symm
  subst hij
  have heq := List.IsPrefix.eq_of_length (List.prefix_of_prefix_length_le hi hj (by simp)) (by simp)
  exact ⟨rfl, List.singleton_inj.mp (List.append_cancel_left heq)⟩

/-- The components of a data name. -/
theorem components_getDataName (p : Publication) :
    (PubSub.getDataName syncPrefix p).components =
      p.nodeId.components ++ syncPrefix.components ++ [⟨8, Codec.integerBytes p.seqNo⟩] := rfl

/-- What is under two data names is of one publication. -/
theorem publication_inj (h : Members cfg syncPrefix) {i j : ι} {s s' : SeqNo} {n : Name}
    (hi : (PubSub.getDataName syncPrefix ⟨(cfg i).core.id, s⟩).components <+: n.components)
    (hj : (PubSub.getDataName syncPrefix ⟨(cfg j).core.id, s'⟩).components <+: n.components) :
    i = j ∧ s = s' := by
  rw [components_getDataName] at hi hj
  obtain ⟨hij, hc⟩ := h.component_inj hi hj
  exact ⟨hij, Codec.integerBytes_inj.mp (Component.mk.inj hc).2⟩

/-- Nothing under a data name is under the filter for mapping queries. -/
theorem not_mapping (h : Members cfg syncPrefix) {i j : ι} {s : SeqNo} {n : Name}
    (hi : (PubSub.getDataName syncPrefix ⟨(cfg i).core.id, s⟩).components <+: n.components)
    (hj : (((cfg j).core.id.append syncPrefix).append MappingProvider.MAPPING).components <+: n.components) :
    False := by
  rw [components_getDataName] at hi
  obtain ⟨-, hc⟩ := h.component_inj hi hj
  -- `MAPPING` is seven bytes long
  have hlength := Codec.length_integerBytes s
  rw [(Component.mk.inj hc).2] at hlength
  exact absurd hlength (by decide)

end Members

end Svs
