import Mathlib

/-!
# Traffic over a lossy network

Parties send packets for ever, and hear packets of each other.  The network may lose packets
and may deliver a packet again and again.  But a content that somebody keeps sending, in
packets that may differ otherwise, every other party keeps hearing, and no packet is
delivered for ever.  Then news spreads, if it can be told in finitely many ways: if a party
for ever sends or hears the news, so does every other party.

## Key results

- `exists_content`: of finitely many contents one is sent for ever
- `FairLossy.exists_sender`: what is heard for ever somebody sends for ever
- `FairLossy.spreads`: what one party hears or sends for ever, all do
-/

open Filter

/-- Which packets the parties send and hear in each step of an infinite run. -/
structure Traffic (ι π : Type*) where
  sends : ℕ → ι → π → Prop
  hears : ℕ → ι → π → Prop

namespace Traffic

variable {ι π κ : Type*} {T : Traffic ι π} {X : Set π} {content : π → κ}

/-- What is heard has been sent, and a step sends finitely many packets. -/
structure Causal (T : Traffic ι π) : Prop where
  sent : ∀ t i p, T.hears t i p → ∃ s k, T.sends s k p
  finite : ∀ t, {p | ∃ k, T.sends t k p}.Finite

/-- A content that a party keeps sending every other party keeps hearing, and no packet is
    delivered for ever.  Any number of the packets may be lost. -/
structure FairLossy (content : π → κ) (T : Traffic ι π) : Prop where
  loss : ∀ k i, k ≠ i → ∀ x, (∃ᶠ t in atTop, ∃ p, content p = x ∧ T.sends t k p) →
    ∃ᶠ t in atTop, ∃ p, content p = x ∧ T.hears t i p
  duplication : ∀ i p, ¬∃ᶠ t in atTop, T.hears t i p

/-- A party that keeps hearing packets hears infinitely many. -/
theorem FairLossy.infinite_heard (h : T.FairLossy content) {i : ι}
    (hheard : ∃ᶠ t in atTop, ∃ p ∈ X, T.hears t i p) : {p ∈ X | ∃ t, T.hears t i p}.Infinite := by
  intro hfinite
  -- each of finitely many packets is heard no more from some step on
  have hnone : ∀ᶠ t in atTop, ∀ p ∈ {p ∈ X | ∃ t, T.hears t i p}, ¬T.hears t i p := by
    rw [eventually_all_finite hfinite]
    exact fun p _ => not_frequently.mp (h.duplication i p)
  obtain ⟨t, ⟨p, hp, hhears⟩, hnot⟩ := (hheard.and_eventually hnone).exists
  exact hnot p ⟨hp, t, hhears⟩ hhears

/-- Packets that are heard for ever have a sender that sends them for ever. -/
theorem FairLossy.exists_sender [Finite ι] (h : T.FairLossy content) (hcausal : T.Causal) {i : ι}
    (hheard : ∃ᶠ t in atTop, ∃ p ∈ X, T.hears t i p) :
    ∃ k, ∃ᶠ t in atTop, ∃ p ∈ X, T.sends t k p := by
  by_contra hnever
  push Not at hnever
  -- from some step on nobody sends one of the packets
  have hsilent : ∀ᶠ t in atTop, ∀ k, ¬∃ p ∈ X, T.sends t k p := by
    rw [eventually_all]
    exact fun k => by simpa using hnever k
  obtain ⟨N, hN⟩ := eventually_atTop.mp hsilent
  apply h.infinite_heard hheard
  apply ((Set.finite_lt_nat N).biUnion fun t _ => hcausal.finite t).subset
  rintro p ⟨hp, t, hhears⟩
  obtain ⟨s, k, hsent⟩ := hcausal.sent t i p hhears
  have hlt : s < N := by
    by_contra hge
    exact hN s (Nat.le_of_not_lt hge) k ⟨p, hp, hsent⟩
  exact Set.mem_biUnion hlt ⟨k, hsent⟩

/-- Where finitely many contents are sent, a party that for ever sends some of a kind sends
    one of them for ever. -/
theorem exists_content (hfinite : {x | ∃ t k p, T.sends t k p ∧ content p = x}.Finite) {Y : Set κ} {k : ι}
    (hsends : ∃ᶠ t in atTop, ∃ p, content p ∈ Y ∧ T.sends t k p) :
    ∃ x ∈ Y, ∃ᶠ t in atTop, ∃ p, content p = x ∧ T.sends t k p := by
  by_contra hnever
  push Not at hnever
  -- from some step on none of the contents is sent
  have hsilent : ∀ᶠ t in atTop, ∀ x ∈ {x | ∃ t k p, T.sends t k p ∧ content p = x},
      x ∈ Y → ∀ p, content p = x → ¬T.sends t k p := by
    rw [eventually_all_finite hfinite]
    intro x _
    by_cases hx : x ∈ Y
    · exact (hnever x hx).mono fun t ht _ => ht
    · exact Eventually.of_forall fun t h => absurd h hx
  obtain ⟨t, ⟨p, hp, hsent⟩, hnot⟩ := (hsends.and_eventually hsilent).exists
  exact hnot _ ⟨t, k, p, hsent, rfl⟩ hp p rfl hsent

/-- If a party for ever sends or hears contents of a kind, so does every party. -/
theorem FairLossy.spreads [Finite ι] (h : T.FairLossy content) (hcausal : T.Causal)
    (hfinite : {x | ∃ t k p, T.sends t k p ∧ content p = x}.Finite) {Y : Set κ} {i : ι}
    (hduty : ∃ᶠ t in atTop, ∃ p, content p ∈ Y ∧ (T.sends t i p ∨ T.hears t i p)) (j : ι) :
    ∃ᶠ t in atTop, ∃ p, content p ∈ Y ∧ (T.sends t j p ∨ T.hears t j p) := by
  have hsender : ∃ k, ∃ᶠ t in atTop, ∃ p, content p ∈ Y ∧ T.sends t k p := by
    simp only [and_or_left, exists_or, frequently_or_distrib] at hduty
    rcases hduty with hsends | hheard
    · exact ⟨i, hsends⟩
    · exact h.exists_sender (X := Set.preimage content Y) hcausal hheard
  obtain ⟨k, hk⟩ := hsender
  by_cases hkj : k = j
  · subst hkj
    refine hk.mono ?_
    rintro t ⟨p, hp, hsends⟩
    exact ⟨p, hp, Or.inl hsends⟩
  · -- one of the contents is sent for ever, and so it is heard for ever
    obtain ⟨x, hx, hsends⟩ := exists_content hfinite hk
    refine (h.loss k j hkj x hsends).mono ?_
    rintro t ⟨p, rfl, hhears⟩
    exact ⟨p, hx, Or.inr hhears⟩

end Traffic
