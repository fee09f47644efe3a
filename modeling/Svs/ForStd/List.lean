import Mathlib

/-!
# List lemmas

Generic lemmas about walking a list under a budget: which elements a prefix of a
filtered list holds, when a monadic map over `Option` succeeds, and how a fold over
`Except` ends.
-/

namespace List

/-- A map over `Option` succeeds when it succeeds on every element. -/
theorem mapM_eq_some_map {α β : Type*} {f : α → Option β} {g : α → β} {l : List α}
    (h : ∀ x ∈ l, f x = some (g x)) : l.mapM f = some (l.map g) := by
  induction l with
  | nil => rfl
  | cons x xs ih =>
    have hxs := ih fun y hy => h y (mem_cons_of_mem x hy)
    rw [mapM_cons, h x mem_cons_self, hxs]
    rfl

/-- Maps over `Option` that agree on the elements. -/
theorem mapM_option_congr {α β : Type*} {f g : α → Option β} {l : List α} (h : ∀ x ∈ l, f x = g x) :
    l.mapM f = l.mapM g := by
  induction l with
  | nil => rfl
  | cons x xs ih => rw [mapM_cons, mapM_cons, h x mem_cons_self, ih fun y hy => h y (mem_cons_of_mem x hy)]

/-- In a list without duplicates there is nothing to erase. -/
theorem Nodup.eraseDups_eq {α : Type*} [BEq α] [LawfulBEq α] {l : List α} (hl : l.Nodup) :
    l.eraseDups = l := by
  induction l with
  | nil => rfl
  | cons x xs ih =>
    rw [nodup_cons] at hl
    have hall : xs.filter (fun y => !y == x) = xs := by
      rw [filter_eq_self]
      intro y hy
      have hne : y ≠ x := fun heq => hl.1 (heq ▸ hy)
      simp [hne]
    rw [eraseDups_cons, hall, ih hl.2]

/-- A map over `Option` that succeeds does so on the first element and on the others. -/
theorem exists_of_mapM_cons {α β : Type*} {f : α → Option β} {x : α} {l : List α} {l' : List β}
    (h : (x :: l).mapM f = some l') :
    ∃ y ys, f x = some y ∧ l.mapM f = some ys ∧ l' = y :: ys := by
  rw [mapM_cons] at h
  obtain ⟨y, hy, h⟩ := Option.bind_eq_some_iff.mp h
  obtain ⟨ys, hys, h⟩ := Option.bind_eq_some_iff.mp h
  exact ⟨y, ys, hy, hys, (Option.some.inj h).symm⟩

/-- What a map over `Option` returns comes from the elements. -/
theorem exists_of_mem_mapM {α β : Type*} {f : α → Option β} {l : List α} {l' : List β}
    (h : l.mapM f = some l') {y : β} (hy : y ∈ l') : ∃ x ∈ l, f x = some y := by
  induction l generalizing l' with
  | nil =>
    obtain rfl : [] = l' := Option.some.inj h
    cases hy
  | cons x xs ih =>
    obtain ⟨z, zs, hz, hzs, rfl⟩ := exists_of_mapM_cons h
    rcases mem_cons.mp hy with rfl | hy
    · exact ⟨x, mem_cons_self, hz⟩
    · obtain ⟨w, hw, hfw⟩ := ih hzs hy
      exact ⟨w, mem_cons_of_mem x hw, hfw⟩

section Except

/-- A fold whose steps succeed for elements with `p`, whatever came before, succeeds when
    all elements have it. -/
theorem foldlM_ok_iff_forall {ε α : Type*} {β : Type _} {f : β → α → Except ε β} {p : α → Prop}
    (hf : ∀ b a, (∃ b', f b a = .ok b') ↔ p a) (l : List α) (b : β) :
    (∃ b', l.foldlM f b = .ok b') ↔ ∀ a ∈ l, p a := by
  induction l generalizing b with
  | nil => simpa using ⟨b, rfl⟩
  | cons a l ih =>
    rw [foldlM_cons, forall_mem_cons, ← hf b a]
    cases hfa : f b a with
    | error e => exact ⟨nofun, nofun⟩
    | ok b₁ => exact (ih b₁).trans ⟨fun hl => ⟨⟨b₁, rfl⟩, hl⟩, And.right⟩

variable {ε α : Type*} {β γ : Type _} (g : α → Except ε γ) (h : β → γ → β)

/-- A fold that reads each element with `g` succeeds when every element can be read. -/
theorem foldlM_eq_ok_iff (l : List α) (b : β) :
    (∃ b', l.foldlM (fun b a => (h b <$> g a : Except ε β)) b = .ok b') ↔ ∀ a ∈ l, ∃ c, g a = .ok c := by
  refine foldlM_ok_iff_forall ?_ l b
  intro b a
  cases g a with
  | error e => exact ⟨nofun, nofun⟩
  | ok c => exact ⟨fun _ => ⟨c, rfl⟩, fun _ => ⟨h b c, rfl⟩⟩

/-- The last step of a fold that reads each element with `g`. -/
theorem foldlM_append_singleton_eq_ok_iff (l : List α) (a : α) (b b' : β) :
    (l ++ [a]).foldlM (fun b a => (h b <$> g a : Except ε β)) b = .ok b' ↔
      ∃ b₁ c, l.foldlM (fun b a => (h b <$> g a : Except ε β)) b = .ok b₁ ∧ g a = .ok c ∧
        h b₁ c = b' := by
  rw [foldlM_append]
  cases l.foldlM (fun b a => (h b <$> g a : Except ε β)) b with
  | error e => simp [bind, Except.bind]
  | ok b₁ =>
    cases hg : g a with
    | error e => simp [bind, Except.bind, hg, Functor.map, Except.map]
    | ok c => simp [bind, Except.bind, hg, Functor.map, Except.map, pure, Except.pure]

/-- A fold that reads each element with `g` fails as `g` does on the first element that
    cannot be read. -/
theorem foldlM_eq_error_iff (l : List α) (b : β) (e : ε) :
    l.foldlM (fun b a => (h b <$> g a : Except ε β)) b = .error e ↔
      ∃ read a rest, l = read ++ a :: rest ∧ (∀ x ∈ read, ∃ c, g x = .ok c) ∧ g a = .error e := by
  induction l generalizing b with
  | nil => simp [pure, Except.pure]
  | cons a l ih =>
    rw [foldlM_cons]
    cases hg : g a with
    | error e' =>
      -- the fold stops here, with nothing read
      constructor
      · intro heq
        have he : e' = e := Except.error.inj heq
        exact ⟨[], a, l, rfl, by simp, he ▸ hg⟩
      · intro hfail
        obtain ⟨_ | ⟨x, read⟩, a', rest, hl, hread, herr⟩ := hfail
        · obtain ⟨rfl, -⟩ := cons_eq_cons.mp hl
          have he : e' = e := Except.error.inj (hg.symm.trans herr)
          rw [he]
          rfl
        · obtain ⟨rfl, -⟩ := cons_eq_cons.mp hl
          obtain ⟨c, hc⟩ := hread a mem_cons_self
          rw [hg] at hc
          nomatch hc
    | ok c =>
      -- `a` joins what was read before the failure
      apply (ih (h b c)).trans
      constructor
      · intro hfail
        obtain ⟨read, a', rest, rfl, hread, herr⟩ := hfail
        exact ⟨a :: read, a', rest, rfl, forall_mem_cons.mpr ⟨⟨c, hg⟩, hread⟩, herr⟩
      · intro hfail
        obtain ⟨_ | ⟨x, read⟩, a', rest, hl, hread, herr⟩ := hfail
        · obtain ⟨rfl, -⟩ := cons_eq_cons.mp hl
          rw [hg] at herr
          nomatch herr
        · obtain ⟨rfl, rfl⟩ := cons_eq_cons.mp hl
          exact ⟨read, a', rest, rfl, (forall_mem_cons.mp hread).2, herr⟩

end Except

/-- In a list without duplicates, `x` is among the first `k` elements satisfying `p`
    iff it satisfies `p` and fewer than `k` elements before it do. -/
theorem mem_take_filter_iff {α : Type*} [DecidableEq α] {l : List α} (hl : l.Nodup) (p : α → Bool)
    (k : Nat) {x : α} (hx : x ∈ l) :
    x ∈ (l.filter p).take k ↔ p x = true ∧ (l.take (l.idxOf x)).countP p < k := by
  induction l generalizing k with
  | nil => simp at hx
  | cons y ys ih =>
    rw [nodup_cons] at hl
    rcases eq_or_ne y x with rfl | hne
    · -- the head is the element itself: nothing stands before it
      cases hp : p y with
      | false =>
        have hmem : y ∉ (ys.filter p).take k := fun h =>
          hl.1 (mem_of_mem_filter (mem_of_mem_take h))
        simp [hp, hmem]
      | true => cases k <;> simp [hp]
    · -- the head stands before it, and takes one of the `k` places if it satisfies `p`
      have hx' : x ∈ ys := (mem_cons.mp hx).resolve_left hne.symm
      rw [idxOf_cons_ne _ hne, take_succ_cons, countP_cons]
      cases hp : p y with
      | false => simpa [hp] using ih hl.2 k hx'
      | true =>
        rw [filter_cons_of_pos hp]
        cases k with
        | zero => simp
        | succ k =>
          rw [take_succ_cons, mem_cons, ih hl.2 k hx']
          simp [hne.symm]

/-- Where a rotation puts an element of a list without duplicates. -/
theorem idxOf_rotate {α : Type*} [DecidableEq α] {l : List α} (hl : l.Nodup) {x : α} {c d : Nat}
    (hd : d < l.length) (h : c + d ≡ l.idxOf x [MOD l.length]) (hx : x ∈ l) :
    (l.rotate c).idxOf x = d := by
  have hidx := idxOf_lt_length_iff.mpr hx
  have hd' : d < (l.rotate c).length := by rwa [length_rotate]
  have hget : (l.rotate c)[d] = x := by
    have hmod : (d + c) % l.length = l.idxOf x := by
      rw [Nat.add_comm, h, Nat.mod_eq_of_lt hidx]
    rw [getElem_rotate]
    simp only [hmod, getElem_idxOf]
  have hnodup := (nodup_rotate (n := c)).mpr hl
  rw [← hget, hnodup.idxOf_getElem]

/-- A list without duplicates has at most one element equal to `y`, and none if `y` is
    not in it. -/
theorem length_sub_one_le_countP_ne {α : Type*} [DecidableEq α] {l : List α} (hl : l.Nodup)
    (y : α) : l.length - 1 ≤ l.countP (fun x => decide (x ≠ y)) ∧
      (y ∉ l → l.countP (fun x => decide (x ≠ y)) = l.length) := by
  have hsplit := length_eq_countP_add_countP (fun x => decide (x ≠ y)) (l := l)
  have hcount : l.countP (fun x => decide ¬decide (x ≠ y) = true) = l.count y := by
    rw [count]
    exact countP_congr fun x _ => by simp
  rw [hcount] at hsplit
  constructor
  · have hone := nodup_iff_count_le_one.mp hl y
    omega
  · intro hy
    rw [count_eq_zero_of_not_mem hy] at hsplit
    omega

/-- In a list with distinct keys, filtering by a key leaves the entry with that key. -/
theorem filter_key_eq {α β : Type*} [DecidableEq α] {l : List (α × β)} (hl : (l.map Prod.fst).Nodup)
    {e : α × β} (he : e ∈ l) : l.filter (·.1 = e.1) = [e] := by
  induction l with
  | nil => simp at he
  | cons x xs ih =>
    rw [map_cons, nodup_cons] at hl
    rcases mem_cons.mp he with rfl | hmem
    · -- no other element has the key of the head
      rw [filter_cons_of_pos (by simp), filter_eq_nil_iff.mpr]
      intro y hy hkey
      exact hl.1 (of_decide_eq_true hkey ▸ mem_map_of_mem hy)
    · have hne : x.1 ≠ e.1 := fun h => hl.1 (h ▸ mem_map_of_mem hmem)
      rw [filter_cons_of_neg (by simpa using hne), ih hl.2 hmem]

/-- Appending the numbers from `a + 1` to `b` continues the numbers from 1 to `a`. -/
theorem range'_append_range' {a b : Nat} (h : a ≤ b) :
    range' 1 a ++ range' (a + 1) (b + 1 - (a + 1)) = range' 1 b := by
  have hrange := range'_append_1 (s := 1) (m := a) (n := b - a)
  rw [Nat.add_comm a 1, Nat.add_comm b 1, Nat.add_sub_add_left, hrange, Nat.add_sub_cancel' h]

section EraseDups

variable {α : Type*} [BEq α] [LawfulBEq α] {l : List α} {a : α}

/-- An element that the list has already is not a first occurrence. -/
theorem eraseDups_concat_of_mem (h : a ∈ l) : (l ++ [a]).eraseDups = l.eraseDups := by
  simp [eraseDups_append, cons_removeAll, h]

/-- An element that the list does not have is the last first occurrence. -/
theorem eraseDups_concat_of_notMem (h : a ∉ l) : (l ++ [a]).eraseDups = l.eraseDups ++ [a] := by
  simp [eraseDups_append, cons_removeAll, h, eraseDups_cons]

/-- The first occurrences in a first part come first. -/
theorem eraseDups_prefix (l l' : List α) : l.eraseDups <+: (l ++ l').eraseDups := by
  rw [eraseDups_append]
  exact prefix_append _ _

end EraseDups

/-- Taking the first element that passes the test out of a list. -/
theorem perm_cons_eraseP {α : Type*} {p : α → Bool} {l : List α} {a : α} (h : l.find? p = some a) :
    l.Perm (a :: l.eraseP p) := by
  induction l with
  | nil => exact absurd h (by simp)
  | cons b l ih =>
    by_cases hb : p b
    · rw [find?_cons_of_pos hb] at h
      obtain rfl := Option.some.inj h
      rw [eraseP_cons_of_pos hb]
    · rw [find?_cons_of_neg hb] at h
      rw [eraseP_cons_of_neg hb]
      exact ((ih h).cons b).trans (.swap a b _)

/-- Where at most one element passes the test, taking it out leaves none that does. -/
theorem not_of_mem_eraseP {α : Type*} {p : α → Bool} {l : List α} {a : α} (hle : l.countP p ≤ 1)
    (h : a ∈ l.eraseP p) : ¬p a = true := by
  induction l with
  | nil => exact absurd h not_mem_nil
  | cons b l ih =>
    by_cases hb : p b
    · rw [eraseP_cons_of_pos hb] at h
      rw [countP_cons_of_pos hb] at hle
      have hnone : l.countP p = 0 := by omega
      exact countP_eq_zero.mp hnone a h
    · rw [eraseP_cons_of_neg hb, mem_cons] at h
      rw [countP_cons_of_neg hb] at hle
      rcases h with rfl | h
      · exact hb
      · exact ih hle h

/-- What the elements have, when one is taken out. -/
theorem coe_map_of_find? {α β : Type*} {p : α → Bool} {l : List α} {a : α} (f : α → β)
    (h : l.find? p = some a) :
    (l.map f : Multiset β) = {f a} + ((l.eraseP p).map f : Multiset β) := by
  rw [Multiset.coe_eq_coe.mpr ((perm_cons_eraseP h).map f), map_cons, ← Multiset.cons_coe,
    Multiset.singleton_add]

/-- Where the keys of a list are distinct, an element is the first one with its key. -/
theorem find?_key_eq_some {α κ : Type*} [DecidableEq κ] {key : α → κ} {l : List α}
    (hl : (l.map key).Nodup) {a : α} (ha : a ∈ l) : l.find? (key · = key a) = some a := by
  induction l with
  | nil => exact absurd ha not_mem_nil
  | cons b l ih =>
    rw [map_cons, nodup_cons] at hl
    rcases mem_cons.mp ha with rfl | ha
    · exact find?_cons_of_pos (decide_eq_true rfl)
    · have hne : key b ≠ key a := fun heq => hl.1 (heq ▸ mem_map_of_mem ha)
      rw [find?_cons_of_neg (by simpa using hne)]
      exact ih hl.2 ha

end List
