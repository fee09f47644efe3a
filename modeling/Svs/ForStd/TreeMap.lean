import Mathlib

/-!
# Tree map lemmas for linearly ordered keys

`Std.ExtTreeMap` is stated for an arbitrary comparison function.  These lemmas
specialise what is needed to the `compare` of a `LinearOrder`, where comparing
equal is being equal and the keys come out in strictly increasing order.
-/

namespace Std.ExtTreeMap

variable {α β : Type*} [LinearOrder α]

instance lawfulEqOrdOfLinearOrder : LawfulEqOrd α where
  eq_of_compare h := compare_eq_iff_eq.mp h

/-- Lookup after an insertion, with the test as an equality of keys. -/
theorem getElem?_insert' (m : ExtTreeMap α β) (k a : α) (v : β) :
    (m.insert k v)[a]? = if k = a then some v else m[a]? := by
  rw [getElem?_insert]
  simp only [compare_eq_iff_eq]

/-- Membership after an insertion, with the test as an equality of keys. -/
theorem mem_insert' (m : ExtTreeMap α β) (k a : α) (v : β) :
    a ∈ m.insert k v ↔ k = a ∨ a ∈ m := by
  rw [mem_insert, compare_eq_iff_eq]

/-- The keys of a tree map are strictly increasing. -/
theorem keys_pairwise_lt (m : ExtTreeMap α β) : m.keys.Pairwise (· < ·) :=
  m.ordered_keys.imp compare_lt_iff_lt.mp

theorem keys_nodup (m : ExtTreeMap α β) : m.keys.Nodup :=
  m.keys_pairwise_lt.imp ne_of_lt

/-- Being a key is having a value. -/
theorem mem_iff_exists_getElem? (m : ExtTreeMap α β) (k : α) :
    k ∈ m ↔ ∃ v, m[k]? = some v := by
  rw [mem_iff_isSome_getElem?, Option.isSome_iff_exists]

/-- A map whose entries all lie in another has at most as many entries. -/
theorem size_le_of_subset {m m' : ExtTreeMap α β} (h : ∀ k, k ∈ m → k ∈ m') :
    m.size ≤ m'.size := by
  -- compare the key lists, which have no duplicates
  rw [← length_keys, ← length_keys]
  have hsub : m.keys ⊆ m'.keys := by
    intro k hk
    exact mem_keys.mpr (h k (mem_keys.mp hk))
  exact (List.subperm_of_subset m.keys_nodup hsub).length_le

section Folds

variable {γ : Type*} {key : γ → α} {value : γ → β} {a : α} {p : γ → Bool}

/-- Where each insertion replaces what is there, a key has its last value. -/
theorem getElem?_foldl_insert (hp : ∀ x, p x = true ↔ key x = a) (l : List γ) (m : ExtTreeMap α β) :
    (l.foldl (fun m x => m.insert (key x) (value x)) m)[a]? =
      ((l.reverse.find? p).map value).or m[a]? := by
  induction l generalizing m with
  | nil => rfl
  | cons x l ih =>
    rw [List.foldl_cons, ih, getElem?_insert', List.reverse_cons, List.find?_append, List.find?_singleton]
    by_cases hx : key x = a
    · cases l.reverse.find? p <;> simp [hx, (hp x).mpr hx]
    · simp [hx, mt (hp x).mp hx]

/-- Where each insertion respects what is there, a key has its first value. -/
theorem getElem?_foldl_insertNew (hp : ∀ x, p x = true ↔ key x = a) (l : List γ)
    (m : ExtTreeMap α β) :
    (l.foldl (fun m x => if key x ∈ m then m else m.insert (key x) (value x)) m)[a]? =
      m[a]?.or ((l.find? p).map value) := by
  induction l generalizing m with
  | nil => simp
  | cons x l ih =>
    rw [List.foldl_cons, ih]
    by_cases hx : key x = a
    · rw [List.find?_cons_of_pos ((hp x).mpr hx), ← hx]
      split
      · next hmem =>
        obtain ⟨v, hv⟩ := (mem_iff_exists_getElem? m _).mp hmem
        simp [hv]
      · next hmem => simp [getElem?_eq_none hmem]
    · rw [List.find?_cons_of_neg (mt (hp x).mp hx)]
      split
      · rfl
      · rw [getElem?_insert', if_neg hx]

end Folds

end Std.ExtTreeMap
