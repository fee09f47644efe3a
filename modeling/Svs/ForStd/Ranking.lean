import Mathlib

/-!
# Ranks by a key

The position of an element in a list that is sorted by a key is the number of elements
with a smaller key, whatever order the list was in before.  So an element that is given a
smaller key, while the keys of the others do not get smaller, does not fall behind.
-/

namespace Ranking

variable {α β : Type*} [LinearOrder β] {key key' : α → β} {l : List α} {x : α}

/-- How many elements have a smaller key. -/
def ahead (l : List α) (key : α → β) (x : α) : Nat := l.countP fun y => decide (key y < key x)

theorem ahead_perm {l' : List α} (h : l.Perm l') (key : α → β) (x : α) :
    ahead l key x = ahead l' key x :=
  h.countP_eq _

/-- In a sorted list these are the elements in front. -/
theorem idxOf_eq_ahead [DecidableEq α] (h : l.Pairwise fun x y => key x < key y) (hx : x ∈ l) :
    l.idxOf x = ahead l key x := by
  induction l with
  | nil => cases hx
  | cons y ys ih =>
    obtain ⟨hfirst, hrest⟩ := List.pairwise_cons.mp h
    rw [ahead, List.countP_cons]
    rcases eq_or_ne y x with rfl | hne
    · -- nothing behind the first element has a smaller key
      have hzero : ys.countP (fun z => decide (key z < key y)) = 0 := by
        rw [List.countP_eq_zero]
        intro z hz
        rw [decide_eq_true_eq]
        exact (hfirst z hz).not_gt
      rw [hzero, List.idxOf_cons_self]
      simp
    · have hmem : x ∈ ys := (List.mem_cons.mp hx).resolve_left hne.symm
      rw [List.idxOf_cons_ne _ hne, ih hrest hmem, if_pos (decide_eq_true (hfirst x hmem))]
      rfl

/-- A list without duplicates that is sorted by a key telling its elements apart is sorted
    strictly. -/
theorem pairwise_lt_of_le (hl : l.Nodup) (hkey : Function.Injective key)
    (h : l.Pairwise fun x y => key x ≤ key y) : l.Pairwise fun x y => key x < key y :=
  (h.and hl).imp fun hxy => lt_of_le_of_ne hxy.1 fun heq => hxy.2 (hkey heq)

/-- Where an element keeps or improves its key and the others keep or worsen theirs, no
    others come in front of it. -/
theorem ahead_le (hself : key' x ≤ key x) (hothers : ∀ y ∈ l, y ≠ x → key y ≤ key' y) :
    ahead l key' x ≤ ahead l key x := by
  apply List.countP_mono_left
  intro y hy hlt
  rw [decide_eq_true_eq] at hlt ⊢
  rcases eq_or_ne y x with rfl | hne
  · exact absurd hlt (lt_irrefl _)
  · exact (hothers y hy hne).trans_lt (hlt.trans_le hself)

/-- Where an element keeps its key and the others keep or improve theirs, it does not get
    ahead. -/
theorem le_ahead (hself : key' x = key x) (hothers : ∀ y ∈ l, key' y ≤ key y) :
    ahead l key x ≤ ahead l key' x := by
  apply List.countP_mono_left
  intro y hy hlt
  rw [decide_eq_true_eq] at hlt ⊢
  exact (hothers y hy).trans_lt (hself ▸ hlt)

/-- A share of a maximum: `x` grows from `k` to `r`, and with it the maximum at most. -/
theorem div_le_div_of_le_max {K : Type*} [Field K] [LinearOrder K] [IsStrictOrderedRing K]
    {k r most most' e : K} (hk : 0 ≤ k) (hmost : k ≤ most) (hr : k ≤ r)
    (hmost' : most' ≤ max most r) (he : 0 ≤ e) (hpos : 0 < most + e) (hpos' : 0 < most' + e) :
    k / (most + e) ≤ r / (most' + e) := by
  rw [div_le_div_iff₀ hpos hpos']
  rcases le_total most r with hle | hle
  · rw [max_eq_right hle] at hmost'
    calc k * (most' + e) ≤ k * (r + e) := by gcongr
      _ = k * r + k * e := mul_add _ _ _
      _ ≤ r * most + r * e := by
        rw [mul_comm k r]
        gcongr
        exact hk.trans hr
      _ = r * (most + e) := (mul_add _ _ _).symm
  · rw [max_eq_left hle] at hmost'
    calc k * (most' + e) ≤ k * (most + e) := by gcongr
      _ ≤ r * (most + e) := by gcongr

end Ranking
