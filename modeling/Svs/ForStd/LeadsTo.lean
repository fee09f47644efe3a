import Mathlib

/-!
# Leads-to

What a property of the steps of an infinite run comes to, by rules that chain such facts.

## Key results

- `LeadsTo.of_unless`: a property that lasts until something helpful happens
- `LeadsTo.of_rank`: a rank that cannot fall for ever
-/

/-- Whenever `P` holds, `Q` holds then or later. -/
def LeadsTo (P Q : ℕ → Prop) : Prop := ∀ t, P t → ∃ t' ≥ t, Q t'

namespace LeadsTo

variable {P Q R : ℕ → Prop}

theorem of_imp (h : ∀ t, P t → Q t) : LeadsTo P Q := fun t ht => ⟨t, le_rfl, h t ht⟩

theorem trans (h : LeadsTo P Q) (h' : LeadsTo Q R) : LeadsTo P R := by
  intro t ht
  obtain ⟨t', ht', hQ⟩ := h t ht
  obtain ⟨t'', ht'', hR⟩ := h' t' hQ
  exact ⟨t'', le_trans ht' ht'', hR⟩

/-- One case after another is led on. -/
theorem or_elim (h : LeadsTo P R) (h' : LeadsTo Q R) : LeadsTo (fun t => P t ∨ Q t) R := by
  rintro t (ht | ht)
  · exact h t ht
  · exact h' t ht

/-- The second case of what is reached is led on. -/
theorem trans_or {S : ℕ → Prop} (h : LeadsTo P fun t => R t ∨ S t) (h' : LeadsTo S R) : LeadsTo P R :=
  h.trans (or_elim (of_imp fun _ h => h) h')

/-- What lasts until `Q` holds, and makes something helpful happen, which then brings about
    `Q`. -/
theorem of_unless {H : ℕ → Prop} (hlasts : ∀ t, P t → P (t + 1) ∨ Q (t + 1)) (hhelp : LeadsTo P H)
    (heffect : ∀ t, P t → H t → Q (t + 1)) : LeadsTo P Q := by
  intro t ht
  obtain ⟨t', ht', hH⟩ := hhelp t ht
  -- up to then it has lasted, or `Q` has held
  have hlast : ∀ d, P (t + d) ∨ ∃ s ≥ t, Q s := by
    intro d
    induction d with
    | zero => exact Or.inl ht
    | succ d ih =>
      rcases ih with hP | hQ
      · rcases hlasts _ hP with hP | hQ
        · exact Or.inl hP
        · exact Or.inr ⟨t + d + 1, by omega, hQ⟩
      · exact Or.inr hQ
  obtain ⟨d, rfl⟩ := Nat.exists_eq_add_of_le ht'
  rcases hlast d with hP | hQ
  · exact ⟨t + d + 1, by omega, heffect _ hP hH⟩
  · exact hQ

/-- A rank that falls whenever `Q` is not reached. -/
theorem of_rank {P : ℕ → ℕ → Prop} (h : ∀ k, LeadsTo (P k) fun t => Q t ∨ ∃ j < k, P j t) (k : ℕ) :
    LeadsTo (P k) Q := by
  induction k using Nat.strong_induction_on with
  | _ k ih =>
    apply (h k).trans_or
    rintro t ⟨j, hj, ht⟩
    exact ih j hj t ht

end LeadsTo
