import Mathlib

/-!
# Loops over machine integers

A loop is a function from the state at the head of a round to the state at the head of
the next one, or to `none` where the loop is left.  Nothing says that it is ever left:
`i <= high` holds of every 64-bit `i` when `high` is the largest one.

## Key results

- `run_invariant`: what the rounds preserve holds where the loop is left
- `run_eq_none`: a loop that is never left
- `exists_run`: a loop whose rounds bring a measure down is left
- `run_upTo`: a loop over the numbers up to a bound
- `ends_run_upTo_iff`, `ends_run_stride`: when such a loop is left
- `ends_foldlM_iff`: when a sequence of computations with loops comes to an end
-/

namespace Loop

variable {σ : Type*} {round : σ → Option σ}

/-- The state in which the loop is left, if that is within `fuel` heads of rounds. -/
def run (round : σ → Option σ) : (fuel : Nat) → σ → Option σ
  | 0, _ => none
  | fuel + 1, s =>
    match round s with
    | none => some s
    | some s' => run round fuel s'

theorem run_of_none {fuel : Nat} {s : σ} (h : round s = none) : run round (fuel + 1) s = some s := by
  rw [run, h]

theorem run_of_some {fuel : Nat} {s s' : σ} (h : round s = some s') :
    run round (fuel + 1) s = run round fuel s' := by
  rw [run, h]

/-- What the rounds preserve holds where the loop is left. -/
theorem run_invariant {I : σ → Prop} {fuel : Nat} {s s' : σ} (h : run round fuel s = some s')
    (hI : I s) (hround : ∀ a b, I a → round a = some b → I b) : I s' ∧ round s' = none := by
  induction fuel generalizing s with
  | zero => exact absurd h (by simp [run])
  | succ fuel ih =>
    cases hs : round s with
    | none =>
      rw [run_of_none hs] at h
      obtain rfl := Option.some.inj h
      exact ⟨hI, hs⟩
    | some t =>
      rw [run_of_some hs] at h
      exact ih h (hround s t hI hs)

/-- A loop whose rounds keep it going is never left. -/
theorem run_eq_none {I : σ → Prop} (fuel : Nat) {s : σ} (hI : I s)
    (hround : ∀ a, I a → ∃ b, round a = some b ∧ I b) : run round fuel s = none := by
  induction fuel generalizing s with
  | zero => rfl
  | succ fuel ih =>
    obtain ⟨t, hs, ht⟩ := hround s hI
    rw [run_of_some hs]
    exact ih ht

/-- A loop that is left within some rounds is left in the same state within more. -/
theorem run_mono {fuel fuel' : Nat} {s r : σ} (h : run round fuel s = some r) (hle : fuel ≤ fuel') :
    run round fuel' s = some r := by
  induction fuel generalizing fuel' s with
  | zero => exact absurd h (by simp [run])
  | succ fuel ih =>
    obtain ⟨k, rfl⟩ := Nat.exists_eq_add_of_le hle
    rw [Nat.add_right_comm]
    cases hs : round s with
    | none =>
      rw [run_of_none hs] at h
      rw [run_of_none hs, h]
    | some s' =>
      rw [run_of_some hs] at h
      rw [run_of_some hs]
      exact ih h (Nat.le_add_right fuel k)

/-- A loop whose rounds bring a measure down is left. -/
theorem exists_run {I : σ → Prop} (size : σ → Nat) {s : σ} (hI : I s)
    (hround : ∀ a b, I a → round a = some b → I b ∧ size b < size a) :
    ∃ fuel r, run round fuel s = some r := by
  induction hsize : size s using Nat.strong_induction_on generalizing s with
  | _ n ih =>
    cases hs : round s with
    | none => exact ⟨1, s, run_of_none hs⟩
    | some s' =>
      obtain ⟨hI', hlt⟩ := hround s s' hI hs
      obtain ⟨fuel, r, hr⟩ := ih (size s') (hsize ▸ hlt) hI' rfl
      exact ⟨fuel + 1, r, by rw [run_of_some hs, hr]⟩

/-! ## Loops over the numbers up to a bound -/

/-- `for (; i <= high; i++)` over 64-bit numbers, with a body that may leave the loop. -/
def upTo (high : UInt64) (body : UInt64 → σ → Option σ) (x : UInt64 × σ) : Option (UInt64 × σ) :=
  if x.1 ≤ high then (body x.1 x.2).map fun s => (x.1 + 1, s) else none

/-- Up to the largest number, a body that never leaves the loop goes round for ever; so a
    loop that ends has a smaller bound. -/
theorem not_max_of_run_upTo {body : UInt64 → σ → σ} {high : UInt64} {fuel : Nat} {x r : UInt64 × σ}
    (h : run (upTo high fun i s => some (body i s)) fuel x = some r) : ¬∀ i, i ≤ high := by
  intro hhigh
  have hnone : run (upTo high fun i s => some (body i s)) fuel x = none := by
    apply run_eq_none (I := fun _ => True) fuel trivial
    intro a _
    exact ⟨_, by rw [upTo, if_pos (hhigh a.1)]; rfl, trivial⟩
  simp [hnone] at h

/-- Where the bound is not the largest number, the body gets each number from the first
    one on, and the loop is left after the last one or by the body. -/
theorem run_upTo {body : UInt64 → σ → Option σ} {high low : UInt64} (hhigh : ¬∀ i, i ≤ high)
    {I : UInt64 → σ → Prop} {fuel : Nat} {s : σ} {r : UInt64 × σ}
    (h : run (upTo high body) fuel (low, s) = some r) (hI : I low s)
    (hbody : ∀ i a b, low ≤ i → i ≤ high → I i a → body i a = some b → I (i + 1) b) :
    I r.1 r.2 ∧ low ≤ r.1 ∧ (∀ i, low ≤ i → i < r.1 → i ≤ high) ∧
      (high < r.1 ∨ body r.1 r.2 = none) := by
  push Not at hhigh
  obtain ⟨m, hm⟩ := hhigh
  obtain ⟨⟨hI', hlow, hle⟩, hleft⟩ := run_invariant
    (I := fun x => I x.1 x.2 ∧ low ≤ x.1 ∧ ∀ i, low ≤ i → i < x.1 → i ≤ high) h
    ⟨hI, UInt64.le_refl low, by intro i hlow hlt; grind⟩ (by
      rintro ⟨i, a⟩ ⟨j, b⟩ ⟨ha, hlow, hle⟩ hround
      rw [upTo] at hround
      split at hround
      · next hi =>
        obtain ⟨b', hb, heq⟩ := Option.map_eq_some_iff.mp hround
        obtain ⟨rfl, rfl⟩ := Prod.mk.inj heq
        refine ⟨hbody i a b' hlow hi ha hb, by grind, ?_⟩
        -- the number does not wrap around, since there is a larger one than the bound
        intro k hk hlt
        dsimp only at hi hle hlt
        grind
      · exact absurd hround (by simp))
  refine ⟨hI', hlow, hle, ?_⟩
  rw [upTo] at hleft
  split at hleft
  · exact .inr (Option.map_eq_none_iff.mp hleft)
  · next hi => exact .inl (by grind)

/-! ## Computations with loops -/

/-- More rounds do not change what a computation comes to. -/
def Stable {α : Type*} (f : Nat → Option α) : Prop :=
  ∀ rounds rounds' a, f rounds = some a → rounds ≤ rounds' → f rounds' = some a

/-- The computation comes to an end, if its loops may make enough rounds. -/
def Ends {α : Type*} (f : Nat → Option α) : Prop := ∃ rounds a, f rounds = some a

theorem stable_run (round : σ → Option σ) (s : σ) : Stable fun rounds => run round rounds s :=
  fun _ _ _ h hle => run_mono h hle

theorem stable_const {α : Type*} (o : Option α) : Stable fun _ => o := fun _ _ _ h _ => h

theorem Stable.bind {α β : Type*} {f : Nat → Option α} {g : α → Nat → Option β} (hf : Stable f)
    (hg : ∀ a, Stable (g a)) : Stable fun rounds => (f rounds).bind fun a => g a rounds := by
  intro rounds rounds' b h hle
  obtain ⟨a, ha, hb⟩ := Option.bind_eq_some_iff.mp h
  exact Option.bind_eq_some_iff.mpr ⟨a, hf rounds rounds' a ha hle, hg a rounds rounds' b hb hle⟩

/-- One computation after another comes to an end when both do. -/
theorem ends_bind_iff {α β : Type*} {f : Nat → Option α} {g : α → Nat → Option β} (hf : Stable f)
    (hg : ∀ a, Stable (g a)) : Ends (fun rounds => (f rounds).bind fun a => g a rounds) ↔
      ∃ rounds a, f rounds = some a ∧ Ends (g a) := by
  constructor
  · rintro ⟨rounds, b, h⟩
    obtain ⟨a, ha, hb⟩ := Option.bind_eq_some_iff.mp h
    exact ⟨rounds, a, ha, rounds, b, hb⟩
  · rintro ⟨rounds, a, ha, rounds', b, hb⟩
    refine ⟨max rounds rounds', b, Option.bind_eq_some_iff.mpr ⟨a, ?_, ?_⟩⟩
    · exact hf _ _ a ha (le_max_left _ _)
    · exact hg a _ _ b hb (le_max_right _ _)

section Fold

variable {α β : Type*} {f : Nat → β → α → Option β}

theorem Stable.foldlM (hf : ∀ b a, Stable fun rounds => f rounds b a) (l : List α) (b : β) :
    Stable fun rounds => l.foldlM (f rounds) b := by
  induction l generalizing b with
  | nil => exact stable_const _
  | cons a l ih =>
    simp only [List.foldlM_cons]
    exact (hf b a).bind ih

/-- A sequence of computations comes to an end when each of them does, whatever the others
    have left. -/
theorem ends_foldlM_iff {I : β → Prop} {p : α → Prop} {l : List α}
    (hf : ∀ b a, Stable fun rounds => f rounds b a)
    (hI : ∀ rounds b a b', I b → a ∈ l → f rounds b a = some b' → I b')
    (hp : ∀ b a, I b → a ∈ l → (Ends (fun rounds => f rounds b a) ↔ p a)) {b : β} (hb : I b) :
    Ends (fun rounds => l.foldlM (f rounds) b) ↔ ∀ a ∈ l, p a := by
  induction l generalizing b with
  | nil => simpa using ⟨0, b, rfl⟩
  | cons a l ih =>
    have hrest : ∀ b', I b' → (Ends (fun rounds => l.foldlM (f rounds) b') ↔ ∀ a ∈ l, p a) :=
      fun b' => ih (fun rounds b a b' hb ha => hI rounds b a b' hb (List.mem_cons_of_mem _ ha))
        fun b a hb ha => hp b a hb (List.mem_cons_of_mem _ ha)
    simp only [List.foldlM_cons, List.forall_mem_cons]
    refine (ends_bind_iff (hf b a) (Stable.foldlM hf l)).trans ?_
    rw [← hp b a hb List.mem_cons_self]
    constructor
    · rintro ⟨rounds, b', hb', hl⟩
      exact ⟨⟨rounds, b', hb'⟩, (hrest b' (hI rounds b a b' hb List.mem_cons_self hb')).mp hl⟩
    · rintro ⟨⟨rounds, b', hb'⟩, hl⟩
      exact ⟨rounds, b', hb', (hrest b' (hI rounds b a b' hb List.mem_cons_self hb')).mpr hl⟩

end Fold

/-- A number that is not the largest one does not wrap around. -/
theorem toNat_add_one {i : UInt64} (h : i.toNat < 2 ^ 64 - 1) : (i + 1).toNat = i.toNat + 1 := by
  have hone : (1 : UInt64).toNat = 1 := rfl
  rw [UInt64.toNat_add, hone, Nat.mod_eq_of_lt (by omega)]

/-- A loop up to a number that is not the largest one is left. -/
theorem ends_run_upTo {body : UInt64 → σ → Option σ} {high : UInt64} (hhigh : ¬∀ i, i ≤ high)
    (x : UInt64 × σ) : Ends fun rounds => run (upTo high body) rounds x := by
  push Not at hhigh
  obtain ⟨m, hm⟩ := hhigh
  refine exists_run (I := fun _ => True) (fun x => high.toNat + 1 - x.1.toNat) trivial ?_
  rintro ⟨i, a⟩ y - hround
  rw [upTo] at hround
  split at hround
  · next hi =>
    obtain ⟨b, -, rfl⟩ := Option.map_eq_some_iff.mp hround
    have hle : i.toNat ≤ high.toNat := UInt64.le_iff_toNat_le.mp hi
    have hlt : high.toNat < m.toNat := UInt64.lt_iff_toNat_lt.mp (UInt64.not_le.mp hm)
    have hbound := m.toNat_lt
    have hsucc : (i + 1).toNat = i.toNat + 1 := toNat_add_one (by omega)
    refine ⟨trivial, ?_⟩
    dsimp only
    omega
  · cases hround

/-- A loop whose body never leaves it is left just when it does not go up to the largest
    number. -/
theorem ends_run_upTo_iff (body : UInt64 → σ → σ) (high : UInt64) (x : UInt64 × σ) :
    Ends (fun rounds => run (upTo high fun i s => some (body i s)) rounds x) ↔ ¬∀ i, i ≤ high := by
  constructor
  · rintro ⟨rounds, r, h⟩
    exact not_max_of_run_upTo h
  · exact fun hhigh => ends_run_upTo hhigh x

/-- A loop with an odd stride `k` wraps around past the bound, but it meets every number,
    and so one that is above the bound. -/
theorem ends_run_stride {k inv high : UInt64} (hinv : inv * k = 1) (hhigh : ¬∀ i, i ≤ high)
    {round : UInt64 × σ → Option (UInt64 × σ)}
    (hround : ∀ x y, round x = some y → x.1 ≤ high ∧ y.1 = x.1 + k) (x : UInt64 × σ) :
    Ends fun rounds => run round rounds x := by
  push Not at hhigh
  obtain ⟨m, hm⟩ := hhigh
  -- how many strides there are left to `m`
  refine exists_run (I := fun _ => True) (fun x => (inv * (m - x.1)).toNat) trivial ?_
  intro a b _ hab
  obtain ⟨hle, hb⟩ := hround a b hab
  refine ⟨trivial, ?_⟩
  have hstep : inv * (m - b.1) = inv * (m - a.1) - 1 := by
    rw [hb]
    grind
  have hne : inv * (m - a.1) ≠ 0 := by
    intro hzero
    have hsame : m - a.1 = k * (inv * (m - a.1)) := by grind
    rw [hzero] at hsame
    have heq : m = a.1 := by grind
    exact hm (heq ▸ hle)
  have hone : (1 : UInt64) ≤ inv * (m - a.1) := by grind
  have hpos : 1 ≤ (inv * (m - a.1)).toNat := UInt64.le_iff_toNat_le.mp hone
  have hsub : (inv * (m - a.1) - 1).toNat = (inv * (m - a.1)).toNat - 1 :=
    UInt64.toNat_sub_of_le _ _ hone
  rw [hstep, hsub]
  omega

end Loop
