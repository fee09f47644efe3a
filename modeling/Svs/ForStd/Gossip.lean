import Mathlib

/-!
# Gossip over an unreliable network

Parties publish numbers under keys of their own and send each other vectors of what
they know.  The network may lose, duplicate and reorder what is sent.  Whatever
happens, nobody ever knows more than was published, and a party that has heard each
of the others after its last publication knows exactly what was published.

The library speaks of functions `κ → ℕ` only; a protocol instantiates it by showing
that its transitions are transitions of `Gossip.Step`.

## Key results

- `Gossip.inv_of_reachable`: what holds in every reachable state
- `Gossip.Inv.agreement`: when a party knows exactly what was published
-/

namespace Gossip

variable {ι κ V W : Type*}

/-- Something sent over the network: by whom, what, and when. -/
structure Packet (ι V : Type*) where
  sender : ι
  content : V
  sentAt : ℕ

/-- The packet with its content read differently. -/
def Packet.map (f : V → W) (p : Packet ι V) : Packet ι W := ⟨p.sender, f p.content, p.sentAt⟩

/-- The state of all parties and of the network.  `lastPublication` and `clock` count
    steps; a packet with `lastPublication i ≤ sentAt` was sent after it. -/
@[ext] structure State (ι κ : Type*) where
  published : κ → ℕ
  know : ι → κ → ℕ
  flight : List (Packet ι (κ → ℕ))
  processed : ι → List (Packet ι (κ → ℕ))
  lastPublication : ι → ℕ
  clock : ℕ

/-- Nothing has happened. -/
def State.init : State ι κ where
  published := 0
  know _ := 0
  flight := []
  processed _ := []
  lastPublication _ := 0
  clock := 0

section

variable [DecidableEq ι] [DecidableEq κ]

/-- The transitions, where `own i` is the key of party `i`.  A delivered packet stays in
    flight, so it may be delivered again, and any packets may be lost. -/
inductive Step (own : ι → κ) (s : State ι κ) : State ι κ → Prop
  | publish (i : ι) :
      Step own s { s with
        published := Function.update s.published (own i) (s.published (own i) + 1)
        know := Function.update s.know i
          (Function.update (s.know i) (own i) (s.know i (own i) + 1))
        lastPublication := Function.update s.lastPublication i (s.clock + 1)
        clock := s.clock + 1 }
  | send (i : ι) (f : κ → ℕ) (hle : f ≤ s.know i) (hown : f (own i) = s.know i (own i)) :
      Step own s { s with
        flight := s.flight ++ [⟨i, f, s.clock⟩]
        clock := s.clock + 1 }
  | deliver (i : ι) (p : Packet ι (κ → ℕ)) (hp : p ∈ s.flight) :
      Step own s { s with
        know := Function.update s.know i (s.know i ⊔ p.content)
        processed := Function.update s.processed i (s.processed i ++ [p])
        clock := s.clock + 1 }
  | lose (rest : List (Packet ι (κ → ℕ))) (hrest : rest.Sublist s.flight) :
      Step own s { s with flight := rest, clock := s.clock + 1 }
  | idle : Step own s { s with clock := s.clock + 1 }

/-- The states that runs reach. -/
inductive Reachable (own : ι → κ) : State ι κ → Prop
  | init : Reachable own .init
  | step {s s' : State ι κ} : Reachable own s → Step own s s' → Reachable own s'

end

/-- What a packet says was published, and is all its sender published if nothing was
    published since. -/
structure Sound (own : ι → κ) (s : State ι κ) (p : Packet ι (κ → ℕ)) : Prop where
  content_le : p.content ≤ s.published
  sentAt_lt : p.sentAt < s.clock
  fresh : s.lastPublication p.sender ≤ p.sentAt →
    p.content (own p.sender) = s.published (own p.sender)

/-- What holds in every reachable state. -/
structure Inv (own : ι → κ) (s : State ι κ) : Prop where
  know_le : ∀ i, s.know i ≤ s.published
  own_eq : ∀ i, s.know i (own i) = s.published (own i)
  outside : ∀ k, k ∉ Set.range own → s.published k = 0
  flight : ∀ p ∈ s.flight, Sound own s p
  processed : ∀ i, ∀ p ∈ s.processed i, Sound own s p
  learned : ∀ i, ∀ p ∈ s.processed i, p.content ≤ s.know i

variable {own : ι → κ} {s s' : State ι κ}

theorem inv_init : Inv own (.init : State ι κ) where
  know_le _ := le_rfl
  own_eq _ := rfl
  outside _ _ := rfl
  flight p hp := by cases hp
  processed i p hp := by cases hp
  learned i p hp := by cases hp

/-- A step that publishes nothing keeps packets sound. -/
theorem Sound.of_same {p : Packet ι (κ → ℕ)} (h : Sound own s p)
    (hpub : s'.published = s.published) (hlast : s'.lastPublication = s.lastPublication)
    (hclock : s.clock ≤ s'.clock) : Sound own s' p where
  content_le := hpub ▸ h.content_le
  sentAt_lt := h.sentAt_lt.trans_le hclock
  fresh := by
    rw [hlast, hpub]
    exact h.fresh

/-- A step that only puts sound packets in flight keeps the invariant. -/
theorem Inv.of_same (h : Inv own s) (hpub : s'.published = s.published) (hknow : s'.know = s.know)
    (hprocessed : s'.processed = s.processed) (hlast : s'.lastPublication = s.lastPublication)
    (hclock : s.clock ≤ s'.clock) (hflight : ∀ p ∈ s'.flight, Sound own s' p) : Inv own s' := by
  constructor
  case know_le =>
    rw [hknow, hpub]
    exact h.know_le
  case own_eq =>
    rw [hknow, hpub]
    exact h.own_eq
  case outside =>
    rw [hpub]
    exact h.outside
  case flight => exact hflight
  case processed =>
    rw [hprocessed]
    intro i p hp
    exact (h.processed i p hp).of_same hpub hlast hclock
  case learned =>
    rw [hprocessed, hknow]
    exact h.learned

section

variable [DecidableEq ι]

/-- What a party has processed after a delivery is sound, and known to it. -/
theorem Inv.deliver (h : Inv own s) (i : ι) {p : Packet ι (κ → ℕ)} (hp : p ∈ s.flight) :
    Inv own { s with
      know := Function.update s.know i (s.know i ⊔ p.content)
      processed := Function.update s.processed i (s.processed i ++ [p])
      clock := s.clock + 1 } := by
  constructor
  case know_le =>
    intro j
    by_cases hj : j = i
    · subst hj
      simp only [Function.update_self]
      exact sup_le (h.know_le j) (h.flight p hp).content_le
    · simp only [Function.update_of_ne hj]
      exact h.know_le j
  case own_eq =>
    intro j
    by_cases hj : j = i
    · -- the receiver already knew at least as much of itself
      subst hj
      simp only [Function.update_self, Pi.sup_apply, h.own_eq j]
      exact max_eq_left ((h.flight p hp).content_le (own j))
    · simp only [Function.update_of_ne hj]
      exact h.own_eq j
  case outside => exact h.outside
  case flight =>
    intro q hq
    exact (h.flight q hq).of_same rfl rfl (Nat.le_succ _)
  case processed =>
    intro j q hq
    have hsound : Sound own s q := by
      by_cases hj : j = i
      · subst hj
        simp only [Function.update_self] at hq
        rcases List.mem_append.mp hq with hq | hq
        · exact h.processed j q hq
        · exact List.mem_singleton.mp hq ▸ h.flight p hp
      · simp only [Function.update_of_ne hj] at hq
        exact h.processed j q hq
    exact hsound.of_same rfl rfl (Nat.le_succ _)
  case learned =>
    intro j q hq
    by_cases hj : j = i
    · subst hj
      simp only [Function.update_self] at hq ⊢
      rcases List.mem_append.mp hq with hq | hq
      · exact (h.learned j q hq).trans le_sup_left
      · exact List.mem_singleton.mp hq ▸ le_sup_right
    · simp only [Function.update_of_ne hj] at hq ⊢
      exact h.learned j q hq

variable [DecidableEq κ]

/-- A publication keeps packets sound: those of the publisher are now old. -/
theorem Sound.publish (hinj : Function.Injective own) {p : Packet ι (κ → ℕ)} (h : Sound own s p)
    (i : ι) (hpub : s'.published = Function.update s.published (own i) (s.published (own i) + 1))
    (hlast : s'.lastPublication = Function.update s.lastPublication i (s.clock + 1))
    (hclock : s'.clock = s.clock + 1) : Sound own s' p where
  content_le := by
    rw [hpub]
    apply h.content_le.trans
    rw [le_update_iff]
    exact ⟨Nat.le_succ _, fun _ _ => le_rfl⟩
  sentAt_lt := by
    have := h.sentAt_lt
    omega
  fresh := by
    rw [hlast, hpub]
    by_cases hi : p.sender = i
    · -- it was sent before this publication
      rw [hi, Function.update_self]
      intro hlate
      have := h.sentAt_lt
      omega
    · rw [Function.update_of_ne hi, Function.update_of_ne fun hown => hi (hinj hown)]
      exact h.fresh

/-- A publication keeps the invariant: both the count and what the publisher knows grow by
    one, under its own key. -/
theorem Inv.publish (hinj : Function.Injective own) (h : Inv own s) (i : ι) :
    Inv own { s with
      published := Function.update s.published (own i) (s.published (own i) + 1)
      know := Function.update s.know i
        (Function.update (s.know i) (own i) (s.know i (own i) + 1))
      lastPublication := Function.update s.lastPublication i (s.clock + 1)
      clock := s.clock + 1 } := by
  have hle : s.published ≤ Function.update s.published (own i) (s.published (own i) + 1) := by
    rw [le_update_iff]
    exact ⟨Nat.le_succ _, fun _ _ => le_rfl⟩
  have hknow : s.know i ≤
      Function.update (s.know i) (own i) (s.know i (own i) + 1) := by
    rw [le_update_iff]
    exact ⟨Nat.le_succ _, fun _ _ => le_rfl⟩
  constructor
  case know_le =>
    intro j
    by_cases hj : j = i
    · subst hj
      simp only [Function.update_self, h.own_eq j]
      rw [update_le_update_iff]
      exact ⟨le_rfl, fun k _ => h.know_le j k⟩
    · simp only [Function.update_of_ne hj]
      exact (h.know_le j).trans hle
  case own_eq =>
    intro j
    by_cases hj : j = i
    · subst hj
      simp [h.own_eq j]
    · -- nobody else publishes under this key
      have hown : own j ≠ own i := fun heq => hj (hinj heq)
      simp only [Function.update_of_ne hj, Function.update_of_ne hown]
      exact h.own_eq j
  case outside =>
    intro k hk
    have hne : k ≠ own i := fun heq => hk ⟨i, heq.symm⟩
    simp only [Function.update_of_ne hne]
    exact h.outside k hk
  case flight =>
    intro p hp
    exact (h.flight p hp).publish hinj i rfl rfl rfl
  case processed =>
    intro j p hp
    exact (h.processed j p hp).publish hinj i rfl rfl rfl
  case learned =>
    intro j p hp
    apply (h.learned j p hp).trans
    by_cases hj : j = i
    · subst hj
      simp only [Function.update_self]
      exact hknow
    · simp [Function.update_of_ne hj]

/-- Every transition keeps the invariant. -/
theorem Inv.step (hinj : Function.Injective own) (h : Inv own s) (hstep : Step own s s') :
    Inv own s' := by
  cases hstep with
  | publish i => exact h.publish hinj i
  | send i f hle hown =>
    refine h.of_same rfl rfl rfl rfl (Nat.le_succ _) ?_
    intro p hp
    rcases List.mem_append.mp hp with hp | hp
    · exact (h.flight p hp).of_same rfl rfl (Nat.le_succ _)
    · -- the new packet holds all that its sender published
      rw [List.mem_singleton.mp hp]
      exact ⟨hle.trans (h.know_le i), Nat.lt_succ_self _, fun _ => hown.trans (h.own_eq i)⟩
  | deliver i p hp => exact h.deliver i hp
  | lose rest hrest =>
    refine h.of_same rfl rfl rfl rfl (Nat.le_succ _) ?_
    intro p hp
    exact (h.flight p (hrest.subset hp)).of_same rfl rfl (Nat.le_succ _)
  | idle =>
    refine h.of_same rfl rfl rfl rfl (Nat.le_succ _) ?_
    intro p hp
    exact (h.flight p hp).of_same rfl rfl (Nat.le_succ _)

/-- Nobody forgets. -/
theorem Step.know_le (hstep : Step own s s') (i : ι) : s.know i ≤ s'.know i := by
  cases hstep with
  | publish j =>
    by_cases hi : i = j
    · subst hi
      simp only [Function.update_self]
      rw [le_update_iff]
      exact ⟨Nat.le_succ _, fun _ _ => le_rfl⟩
    · simp only [Function.update_of_ne hi, le_refl]
  | deliver j p hp =>
    by_cases hi : i = j
    · subst hi
      simp only [Function.update_self]
      exact le_sup_left
    · simp only [Function.update_of_ne hi, le_refl]
  | send | lose | idle => exact le_rfl

/-- The invariant holds in every reachable state. -/
theorem inv_of_reachable (hinj : Function.Injective own) (h : Reachable own s) : Inv own s := by
  induction h with
  | init => exact inv_init
  | step _ hstep ih => exact ih.step hinj hstep

end

/-- A party that has processed, from every other party that published, a packet sent
    after its last publication knows exactly what was published. -/
theorem Inv.agreement (h : Inv own s) (i : ι)
    (hheard : ∀ j, j ≠ i → s.published (own j) ≠ 0 →
      ∃ p ∈ s.processed i, p.sender = j ∧ s.lastPublication j ≤ p.sentAt) :
    s.know i = s.published := by
  funext k
  apply le_antisymm (h.know_le i k)
  by_cases hk : k ∈ Set.range own
  · -- the key of a party: it is this one, or one that was heard if it published
    obtain ⟨j, rfl⟩ := hk
    by_cases hj : j = i
    · subst hj
      exact (h.own_eq j).ge
    · by_cases hzero : s.published (own j) = 0
      · rw [hzero]
        exact Nat.zero_le _
      · obtain ⟨p, hp, rfl, hlate⟩ := hheard j hj hzero
        rw [← (h.processed i p hp).fresh hlate]
        exact h.learned i p hp (own p.sender)
  · rw [h.outside k hk]
    exact Nat.zero_le _

end Gossip
