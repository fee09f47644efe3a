import Mathlib

/-!
# Selection with waiting-time compensation

In every round the `slots` items with the best scores are selected.  The score of an item
is a base plus a weight times the number of rounds it has gone unselected, normalised by
a number that no count exceeds.  So compensation is worth less than the weight, but comes
arbitrarily close to it: an item is selected again and again iff fewer than `slots` others
have a base that is better by the weight or more.

## Key results

- `Rounds.not_selected_of_rivals`: too many rivals starve an item
- `Rounds.exists_selected_of_rivals`: with fewer it is selected again and again
-/

namespace Compensation

variable {ι 𝕜 : Type*} [Field 𝕜] [LinearOrder 𝕜]

/-- A run of selections from `items`. -/
structure Rounds (items : Finset ι) (slots : ℕ) (base : ι → 𝕜) (weight ε : 𝕜) where
  /-- What each round selects. -/
  selected : ℕ → Finset ι
  /-- For how many rounds each item has gone unselected. -/
  waited : ℕ → ι → ℕ
  /-- The normaliser. -/
  most : ℕ → ℕ
  selected_subset : ∀ t, selected t ⊆ items
  card_selected : ∀ t, (selected t).card = slots
  best : ∀ t, ∀ i ∈ selected t, ∀ j ∈ items, j ∉ selected t →
    base j + weight * (waited t j / (most t + ε)) ≤ base i + weight * (waited t i / (most t + ε))
  waited_selected : ∀ t, ∀ i ∈ selected t, waited (t + 1) i = 0
  waited_unselected : ∀ t, ∀ i ∈ items, i ∉ selected t → waited (t + 1) i = waited t i + 1
  waited_le : ∀ t, ∀ i ∈ items, waited t i ≤ most t
  most_le : ∀ t, most t ≤ most 0 + t

/-- The items whose base is better than that of `i` by the weight or more. -/
def rivals (items : Finset ι) (base : ι → 𝕜) (weight : 𝕜) (i : ι) : Finset ι :=
  items.filter fun j => base i + weight ≤ base j

namespace Rounds

variable {items : Finset ι} {slots : ℕ} {base : ι → 𝕜} {weight ε : 𝕜}
  (r : Rounds items slots base weight ε) {i : ι}

/-! ## Waiting -/

/-- After a selection an item waits one round at a time at most. -/
theorem waited_add_le {t : ℕ} (hsel : i ∈ r.selected t) (k : ℕ) : r.waited (t + 1 + k) i ≤ k := by
  induction k with
  | zero => exact (r.waited_selected t i hsel).le
  | succ k ih =>
    by_cases hk : i ∈ r.selected (t + 1 + k)
    · rw [← add_assoc, r.waited_selected _ i hk]
      exact Nat.zero_le _
    · rw [← add_assoc, r.waited_unselected _ i (r.selected_subset t hsel) hk]
      omega

/-- An item that is not selected waits for all rounds. -/
theorem le_waited {t₀ : ℕ} (hi : i ∈ items) (h : ∀ t, t₀ ≤ t → i ∉ r.selected t) (k : ℕ) :
    k ≤ r.waited (t₀ + k) i := by
  induction k with
  | zero => exact Nat.zero_le _
  | succ k ih =>
    rw [← add_assoc, r.waited_unselected _ i hi (h _ (by omega))]
    omega

/-- With fewer rivals than slots, some item that is no rival is selected twice within a
    bounded time, after any round. -/
theorem exists_selected_twice (hrivals : (rivals items base weight i).card < slots) (T : ℕ) :
    ∃ j ∈ items, base j < base i + weight ∧ ∃ t k, T ≤ t ∧ k < items.card ∧ j ∈ r.selected t ∧
      j ∈ r.selected (t + 1 + k) := by
  -- each round selects some item that is no rival
  have hround : ∀ t, ∃ j ∈ r.selected t, base j < base i + weight := by
    intro t
    by_contra hall
    push Not at hall
    have hsub : r.selected t ⊆ rivals items base weight i := fun j hj =>
      Finset.mem_filter.mpr ⟨r.selected_subset t hj, hall j hj⟩
    have hcard := Finset.card_le_card hsub
    rw [r.card_selected] at hcard
    omega
  choose f hf hbase using hround
  -- in one round more than there are items, one of them comes twice
  obtain ⟨t, ht, t', ht', hne, heq⟩ := Finset.exists_ne_map_eq_of_card_lt_of_maps_to
    (s := Finset.Icc T (T + items.card)) (t := items) (f := f)
    (by rw [Nat.card_Icc]; omega)
    (fun t _ => r.selected_subset t (hf t))
  rw [Finset.mem_Icc] at ht ht'
  rcases Nat.lt_or_gt_of_ne hne with hlt | hlt
  · refine ⟨f t, r.selected_subset t (hf t), hbase t, t, t' - t - 1, ht.1, by omega, hf t, ?_⟩
    rw [show t + 1 + (t' - t - 1) = t' by omega, heq]
    exact hf t'
  · refine ⟨f t', r.selected_subset t' (hf t'), hbase t', t', t - t' - 1, ht'.1, by omega, hf t', ?_⟩
    rw [show t' + 1 + (t - t' - 1) = t by omega, ← heq]
    exact hf t

/-! ## Scores -/

variable [IsStrictOrderedRing 𝕜]

/-- The share of the normaliser that an item has waited. -/
def share (t : ℕ) (i : ι) : 𝕜 := r.waited t i / (r.most t + ε)

theorem share_nonneg (hε : 0 < ε) (t : ℕ) (i : ι) : 0 ≤ r.share t i := by
  unfold share
  positivity

theorem share_lt_one (hε : 0 < ε) (t : ℕ) (hi : i ∈ items) : r.share t i < 1 := by
  have hle : (r.waited t i : 𝕜) ≤ r.most t := Nat.cast_le.mpr (r.waited_le t i hi)
  rw [share, div_lt_one (by positivity)]
  linarith

/-- With as many rivals as slots an item is never selected. -/
theorem not_selected_of_rivals [DecidableEq ι] (hw : 0 < weight) (hε : 0 < ε)
    (hrivals : slots ≤ (rivals items base weight i).card) (t : ℕ) : i ∉ r.selected t := by
  intro hsel
  have hi := r.selected_subset t hsel
  -- a rival that is not selected would score less than `i`
  have hsub : rivals items base weight i ⊆ r.selected t := by
    intro j hj
    obtain ⟨hj, hbase⟩ := Finset.mem_filter.mp hj
    by_contra hnot
    have hbest := r.best t i hsel j hj hnot
    have hlt : weight * r.share t i < weight * 1 := by
      exact mul_lt_mul_of_pos_left (r.share_lt_one hε t hi) hw
    have hnonneg : 0 ≤ weight * r.share t j := mul_nonneg hw.le (r.share_nonneg hε t j)
    simp only [share] at hlt hnonneg
    linarith
  -- so the rivals and `i` take more slots than there are
  have hnot : i ∉ rivals items base weight i := by
    intro hmem
    have hbase := (Finset.mem_filter.mp hmem).2
    linarith
  have hcard := Finset.card_le_card (Finset.insert_subset hsel hsub)
  rw [Finset.card_insert_of_notMem hnot, r.card_selected] at hcard
  omega

/-- Among finitely many values those below a bound stay below it by a margin. -/
theorem exists_margin (items : Finset ι) (base : ι → 𝕜) (bound : 𝕜) :
    ∃ δ > 0, ∀ j ∈ items, base j < bound → base j + δ ≤ bound := by
  rcases (items.filter (base · < bound)).eq_empty_or_nonempty with hnone | hsome
  · refine ⟨1, one_pos, fun j hj hlt => ?_⟩
    exact absurd hlt (Finset.filter_eq_empty_iff.mp hnone hj)
  · obtain ⟨m, hm, hmax⟩ := Finset.exists_max_image _ base hsome
    refine ⟨bound - base m, sub_pos.mpr (Finset.mem_filter.mp hm).2, fun j hj hlt => ?_⟩
    have hle := hmax j (Finset.mem_filter.mpr ⟨hj, hlt⟩)
    linarith

/-- With fewer rivals than slots an item is selected again and again. -/
theorem exists_selected_of_rivals [Archimedean 𝕜] (hw : 0 < weight) (hε : 0 < ε) (hi : i ∈ items)
    (hrivals : (rivals items base weight i).card < slots) (t₀ : ℕ) : ∃ t, t₀ ≤ t ∧ i ∈ r.selected t := by
  by_contra hstarved
  push Not at hstarved
  -- the items that are no rivals are behind by a positive margin
  obtain ⟨δ, hδ, hmargin⟩ := exists_margin items base (base i + weight)
  obtain ⟨T, hT⟩ := exists_nat_gt (weight * (items.card + r.most 0 + t₀ + ε) / δ)
  obtain ⟨j, hj, hbase, t, k, ht, hk, hsel, hsel'⟩ := r.exists_selected_twice hrivals (t₀ + T)
  -- at its second selection `j` scores better than `i`, which has waited since `t₀`
  have hnot := hstarved (t + 1 + k) (by omega)
  have hbest := r.best _ j hsel' i hi hnot
  have hwi := r.le_waited hi hstarved (t + 1 + k - t₀)
  rw [show t₀ + (t + 1 + k - t₀) = t + 1 + k by omega] at hwi
  have hwj := r.waited_add_le hsel k
  have hle := r.waited_le (t + 1 + k) i hi
  have hmost := r.most_le (t + 1 + k)
  have hgap := hmargin j hj hbase
  -- what the normaliser and the two counts leave of the weight
  have hrest : (r.most (t + 1 + k) + ε - r.waited (t + 1 + k) i + r.waited (t + 1 + k) j : 𝕜) ≤
      items.card + r.most 0 + t₀ + ε := by
    have hnat : r.most (t + 1 + k) + r.waited (t + 1 + k) j ≤
        items.card + r.most 0 + t₀ + r.waited (t + 1 + k) i := by omega
    have hcast : (r.most (t + 1 + k) + r.waited (t + 1 + k) j : 𝕜) ≤
        items.card + r.most 0 + t₀ + r.waited (t + 1 + k) i := by exact_mod_cast hnat
    linarith
  have hT' : (T : 𝕜) ≤ r.most (t + 1 + k) := Nat.cast_le.mpr (by omega)
  have hM : (0 : 𝕜) < r.most (t + 1 + k) + ε := by positivity
  rw [← mul_div_assoc, ← mul_div_assoc] at hbest
  have hscaled : (base i - base j) * (r.most (t + 1 + k) + ε) ≤
      weight * r.waited (t + 1 + k) j - weight * r.waited (t + 1 + k) i := by
    rw [← le_div_iff₀ hM, sub_div]
    linarith
  have hlarge : δ * (r.most (t + 1 + k) + ε) ≤ weight * (items.card + r.most 0 + t₀ + ε) := by
    calc δ * (r.most (t + 1 + k) + ε)
        ≤ (base i - base j + weight) * (r.most (t + 1 + k) + ε) :=
          mul_le_mul_of_nonneg_right (by linarith) hM.le
      _ ≤ weight * (r.most (t + 1 + k) + ε - r.waited (t + 1 + k) i + r.waited (t + 1 + k) j) := by
          linarith
      _ ≤ weight * (items.card + r.most 0 + t₀ + ε) := mul_le_mul_of_nonneg_left hrest hw.le
  rw [div_lt_iff₀ hδ] at hT
  have hsmall : (T : 𝕜) * δ ≤ δ * (r.most (t + 1 + k) + ε) := by
    rw [mul_comm]
    exact mul_le_mul_of_nonneg_left (by linarith) hδ.le
  linarith

/-- An item is selected again and again iff it has fewer rivals than there are slots. -/
theorem selected_again_iff [DecidableEq ι] [Archimedean 𝕜] (hw : 0 < weight) (hε : 0 < ε) (hi : i ∈ items) :
    (∀ t₀, ∃ t, t₀ ≤ t ∧ i ∈ r.selected t) ↔ (rivals items base weight i).card < slots := by
  constructor
  · intro h
    by_contra hrivals
    obtain ⟨t, -, ht⟩ := h 0
    exact r.not_selected_of_rivals hw hε (not_lt.mp hrivals) t ht
  · exact fun h => r.exists_selected_of_rivals hw hε hi h

end Rounds

end Compensation
