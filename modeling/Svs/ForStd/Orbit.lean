import Mathlib

/-!
# Cursors that advance by a fixed step

A cursor that starts at `a` and advances by `L` modulo `n` visits exactly the
residues congruent to `a` modulo `gcd L n`, each within any `n` consecutive steps.
-/

namespace Nat

variable {a b p k d L n g : ℕ}

/-- A cursor never leaves its class modulo `gcd L n`. -/
theorem modEq_gcd_of_orbit (h : a + k * L ≡ b [MOD n]) : a ≡ b [MOD gcd L n] := by
  have hstep : a ≡ a + k * L [MOD gcd L n] := by
    rw [(modEq_iff_dvd' (le_add_right a _)), add_tsub_cancel_left]
    exact (gcd_dvd_left L n).mul_left k
  exact hstep.trans (h.of_dvd (gcd_dvd_right L n))

/-- A cursor visits every residue of its class within `n` steps from any step on. -/
theorem exists_orbit_modEq (hL : 0 < L) (hn : 0 < n) (h : a ≡ b [MOD gcd L n]) (k₀ : ℕ) :
    ∃ k, k₀ ≤ k ∧ k < k₀ + n ∧ a + k * L ≡ b [MOD n] := by
  -- a number congruent to `a` modulo the step and to `b` modulo `n`
  obtain ⟨x, hxa, hxb⟩ := chineseRemainder' h
  -- move the solution above `a`, where it is a number of steps
  have hle : a ≤ x + a * (L * n) := by nlinarith [Nat.mul_pos hL hn]
  have hdvd : L ∣ x + a * (L * n) - a := by
    rw [← modEq_iff_dvd' hle]
    exact hxa.symm.trans ((modEq_iff_dvd' (le_add_right x _)).mpr
      (by rw [add_tsub_cancel_left]; exact ⟨a * n, by ring⟩))
  obtain ⟨k, hk⟩ := hdvd
  have hsteps : a + k * L ≡ b [MOD n] := by
    have heq : a + k * L = x + a * (L * n) := by rw [mul_comm k L, ← hk]; omega
    rw [heq]
    refine ModEq.trans ?_ hxb
    exact ((modEq_iff_dvd' (le_add_right x _)).mpr
      (by rw [add_tsub_cancel_left]; exact ⟨a * L, by ring⟩)).symm
  -- the number of steps only matters modulo `n`
  refine ⟨k₀ + (k + n * k₀ - k₀) % n, le_add_right _ _,
    Nat.add_lt_add_left (mod_lt _ hn) k₀, ?_⟩
  have hge : k₀ ≤ n * k₀ := Nat.le_mul_of_pos_left k₀ hn
  have hmod : k₀ + (k + n * k₀ - k₀) % n ≡ k [MOD n] := by
    calc k₀ + (k + n * k₀ - k₀) % n
        ≡ k₀ + (k + n * k₀ - k₀) [MOD n] := (mod_modEq _ _).add_left k₀
      _ = k + n * k₀ := by omega
      _ ≡ k [MOD n] := by simp [ModEq]
  exact ((hmod.mul_right L).add_left a).trans hsteps

/-- Every number lies less than `g` behind some member of a class modulo `g`. -/
theorem exists_lt_add_modEq (hg : 0 < g) (a p : ℕ) : ∃ r < g, a + r ≡ p [MOD g] := by
  refine ⟨(p + (g - 1) * a) % g, mod_lt _ hg, ?_⟩
  calc a + (p + (g - 1) * a) % g
      ≡ a + (p + (g - 1) * a) [MOD g] := (mod_modEq _ _).add_left a
    _ = p + g * a := by
        obtain ⟨g', rfl⟩ := Nat.exists_eq_succ_of_ne_zero hg.ne'
        simp only [succ_sub_one]
        rw [succ_mul]
        omega
    _ ≡ p [MOD g] := by simp [ModEq]

/-- Every position lies less than `gcd L n` behind some visited one. -/
theorem exists_orbit_near (hL : 0 < L) (hn : 0 < n) (a p k₀ : ℕ) :
    ∃ k, k₀ ≤ k ∧ k < k₀ + n ∧ ∃ r < gcd L n, a + k * L + r ≡ p [MOD n] := by
  obtain ⟨r, hr, hmod⟩ := exists_lt_add_modEq (gcd_pos_of_pos_left n hL) a p
  have hrn : r < n := hr.trans_le (gcd_le_right L hn)
  -- the position `r` before `p`
  have hback : p + n - r + r ≡ p [MOD n] := by
    rw [Nat.sub_add_cancel (by omega)]
    simp [ModEq]
  have hclass : a ≡ p + n - r [MOD gcd L n] :=
    (hmod.trans (hback.of_dvd (gcd_dvd_right L n)).symm).add_right_cancel' r
  obtain ⟨k, hk₀, hkn, hk⟩ := exists_orbit_modEq hL hn hclass k₀
  exact ⟨k, hk₀, hkn, r, hr, (hk.add_right r).trans hback⟩

/-- If the step divides the modulus, the same windows of `L` positions come back for
    ever; the last position of a window without `q` is last in every window. -/
theorem exists_last_of_dvd {q : ℕ} (hL : 0 < L) (hLn : L < n) (hdvd : L ∣ n) (hq : q < n) :
    ∃ p < n, p ≠ q ∧ ∀ k d, a + k * L + d ≡ p [MOD n] → L - 1 ≤ d ∧
      (d = L - 1 → ∀ i, a + k * L + i ≡ q [MOD n] → L - 1 ≤ i) := by
  have htwo : 2 * L ≤ n := by
    obtain ⟨t, rfl⟩ := hdvd
    have ht : 2 ≤ t := by
      by_contra hlt
      have hle := Nat.mul_le_mul_left L (show t ≤ 1 by omega)
      omega
    rw [mul_comm 2 L]
    exact Nat.mul_le_mul_left L ht
  -- `q` lies `t` behind the start of its window; take the last position of the next one
  obtain ⟨t, ht, hmod⟩ := exists_lt_add_modEq hL a q
  have hsmall : ∀ {x y}, x ≡ y [MOD n] → x < n → y < n → x = y := fun h hx hy =>
    h.eq_of_lt_of_lt hx hy
  have hq' : q + n - t + t ≡ q [MOD n] := by
    rw [Nat.sub_add_cancel (by omega)]
    simp [ModEq]
  refine ⟨(q + n - t + (2 * L - 1)) % n, mod_lt _ (by omega), ?_, ?_⟩
  · -- `p` and `q` lie in different windows
    intro heq
    have hcong : 2 * L - 1 ≡ t [MOD n] := by
      refine ModEq.add_left_cancel' (q + n - t) (ModEq.trans ?_ hq'.symm)
      have h := mod_modEq (q + n - t + (2 * L - 1)) n
      rw [heq] at h
      exact h.symm
    have := hsmall hcong (by omega) (by omega)
    omega
  · intro k d hd
    have hd' : a + k * L + d ≡ q + n - t + (2 * L - 1) [MOD n] := hd.trans (mod_modEq _ _)
    have hclass : d ≡ L - 1 [MOD L] := by
      have hstart : q + n - t ≡ a [MOD L] :=
        ((hq'.of_dvd hdvd).trans hmod.symm).add_right_cancel' t
      have hk : a + k * L + d ≡ a + d [MOD L] := by
        apply ModEq.add_right d
        simp [ModEq]
      have hend : q + n - t + (2 * L - 1) ≡ a + (L - 1) [MOD L] := by
        rw [show 2 * L - 1 = L + (L - 1) by omega, ← add_assoc]
        refine ModEq.add_right _ (ModEq.trans ?_ hstart)
        simp [ModEq]
      exact (hk.symm.trans ((hd'.of_dvd hdvd).trans hend)).add_left_cancel' a
    refine ⟨?_, fun hlast i hi => ?_⟩
    · -- `p` is last in its window, so at least `L - 1` behind every start before it
      have hval : d % L = L - 1 := by rw [hclass, mod_eq_of_lt (by omega)]
      have := mod_le d L
      omega
    · -- the window that ends at `p` follows that of `q`, and ends before it meets `q` again
      by_contra hlt
      have hcong : L + i ≡ t [MOD n] := by
        have hstart : a + k * L ≡ q + n - t + L [MOD n] := by
          apply ModEq.add_right_cancel' (L - 1)
          rw [hlast, show q + n - t + (2 * L - 1) = q + n - t + L + (L - 1) by omega] at hd'
          exact hd'
        apply ModEq.add_left_cancel' (q + n - t)
        rw [← add_assoc]
        exact ((hstart.add_right i).symm.trans hi).trans hq'.symm
      have := hsmall hcong (by omega) (by omega)
      omega

end Nat
