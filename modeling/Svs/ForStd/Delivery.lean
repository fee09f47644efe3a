import Mathlib

/-!
# Delivery of an item to those who wait for it

Some queue for an item while it is being fetched.  It comes in one part, or in a first
part and the rest: then the early ones are served with the first part and the others at
the end.  The list of those who wait is dropped when the item has been delivered, and
who is on it then has been served, unless something went wrong.

## Key results

- `Step.sound`: an item is fetched at most once at a time
- `Step.balanced`: nobody is served more often than queued
- `Step.stuck`: an item that is held and not fetched is never delivered
- `Step.idle`: who is neither due nor queued is not served
- `Step.released`: what a fetch that ends leaves behind
- `Step.kept`: nobody is dropped without having been served
-/

namespace Delivery

variable {σ : Type*}

/-- An entry of the history of an item. -/
inductive Entry (σ : Type*)
  | queued (a : σ)
  | served (a : σ)
  | dropped (l : List σ)

/-- An item.  While it is `held` no fetch of it is started; `first` and `rest` count the
    fetches of the first part and of the rest. -/
structure Item (σ : Type*) where
  waiting : Option (List σ)
  held : Bool
  first : Nat
  rest : Nat
  history : List (Entry σ)

namespace Item

/-- Those who wait for the item. -/
def waiters (i : Item σ) : List σ := i.waiting.getD []

/-- The fetches of the item. -/
def live (i : Item σ) : Nat := i.first + i.rest

/-- A fetch of the first part. -/
def addFirst (i : Item σ) : Item σ := { i with first := i.first + 1 }

/-- A fetch of the rest. -/
def addRest (i : Item σ) : Item σ := { i with rest := i.rest + 1 }

/-- The item stays as it is or becomes held. -/
def hold (b : Bool) (i : Item σ) : Item σ := { i with held := i.held || b }

/-- Someone queues. -/
def queue (a : σ) (i : Item σ) : Item σ :=
  { i with waiting := some (i.waiters ++ [a]), history := i.history ++ [.queued a] }

/-- Some of those who wait are served. -/
def serve (l : List σ) (i : Item σ) : Item σ :=
  { i with waiting := some i.waiters, history := i.history ++ l.map .served }

/-- The list is dropped, and the item may be fetched again. -/
def drop (i : Item σ) : Item σ :=
  { i with waiting := none, held := false, history := i.history ++ [.dropped i.waiters] }

section Fields

variable (i : Item σ) (a : σ) (l : List σ) (b : Bool)

@[simp] theorem waiters_addFirst : i.addFirst.waiters = i.waiters := rfl
@[simp] theorem waiters_addRest : i.addRest.waiters = i.waiters := rfl
@[simp] theorem waiters_hold : (i.hold b).waiters = i.waiters := rfl
@[simp] theorem waiters_queue : (i.queue a).waiters = i.waiters ++ [a] := rfl
@[simp] theorem waiters_serve : (i.serve l).waiters = i.waiters := rfl
@[simp] theorem waiters_drop : i.drop.waiters = [] := rfl

@[simp] theorem live_addRest : i.addRest.live = i.live + 1 := rfl
@[simp] theorem live_hold : (i.hold b).live = i.live := rfl
@[simp] theorem live_queue : (i.queue a).live = i.live := rfl
@[simp] theorem live_serve : (i.serve l).live = i.live := rfl
@[simp] theorem live_drop : i.drop.live = i.live := rfl

@[simp] theorem live_addFirst : i.addFirst.live = i.live + 1 := by
  simp only [live, addFirst]
  omega

@[simp] theorem rest_addFirst : i.addFirst.rest = i.rest := rfl
@[simp] theorem rest_addRest : i.addRest.rest = i.rest + 1 := rfl
@[simp] theorem rest_hold : (i.hold b).rest = i.rest := rfl
@[simp] theorem rest_queue : (i.queue a).rest = i.rest := rfl
@[simp] theorem rest_serve : (i.serve l).rest = i.rest := rfl

@[simp] theorem history_addFirst : i.addFirst.history = i.history := rfl
@[simp] theorem history_addRest : i.addRest.history = i.history := rfl
@[simp] theorem history_hold : (i.hold b).history = i.history := rfl
@[simp] theorem history_queue : (i.queue a).history = i.history ++ [.queued a] := rfl
@[simp] theorem history_serve : (i.serve l).history = i.history ++ l.map .served := rfl
@[simp] theorem history_drop : i.drop.history = i.history ++ [.dropped i.waiters] := rfl

@[simp] theorem hold_false : i.hold false = i := by simp [hold]

/-- Serving nobody makes no difference to a list that is dropped. -/
theorem drop_serve_nil : (i.serve []).drop = i.drop := by simp [serve, drop, waiters]

@[simp] theorem live_iterate_drop (n : Nat) : (drop^[n] i).live = i.live := by
  induction n generalizing i with
  | zero => rfl
  | succ n ih => exact ih i.drop

end Fields

end Item

open Item

/-- What may go wrong in a step: someone early queues when the first part has been
    delivered, the fetch ends without being cleaned up, or it is given up. -/
structure Faults where
  late : Prop
  lost : Prop
  aborted : Prop

/-- Someone queues, or a fetch is started. -/
inductive Grow (early : σ → Bool) (F : Faults) : Item σ → Item σ → Prop
  | queue (i : Item σ) (a : σ) (h : 0 < i.rest → early a = true → F.late) : Grow early F i (i.queue a)
  | claim (i : Item σ) (h : i.held = false) : Grow early F i (i.hold true).addFirst

/-- A fetch comes to the end of a part. -/
inductive Finish (early : σ → Bool) (F : Faults) : Item σ → Item σ → Prop
  /-- The fetch ends, and nothing is cleaned up. -/
  | lose (i : Item σ) (b : Bool) (h : F.lost) : Finish early F i.addFirst (i.hold b)
  /-- Everybody is served. -/
  | serveAll (i : Item σ) : Finish early F i.addFirst (i.serve i.waiters).drop
  /-- The early ones are served, and the rest is fetched. -/
  | advance (i : Item σ) :
      Finish early F i.addFirst (i.serve (i.waiters.filter early)).addRest
  /-- The early ones are served, and the rest is not fetched. -/
  | serveEarly (i : Item σ) (h : F.aborted) :
      Finish early F i.addFirst (i.serve (i.waiters.filter early)).drop
  /-- The others are served. -/
  | serveLate (i : Item σ) (again : Nat) :
      Finish early F i.addRest (drop^[again] (i.serve (i.waiters.filter (!early ·))).drop)
  /-- Nobody else is served. -/
  | abort (i : Item σ) (again : Nat) (h : F.aborted) : Finish early F i.addRest (drop^[again] i.drop)

/-- A fetch that is lost, when the item does not become held. -/
theorem Finish.lose_of_not_hold {early : σ → Bool} {F : Faults} (h : F.lost) (i : Item σ) :
    Finish early F i.addFirst i := by
  have hlose : Finish early F i.addFirst (i.hold false) := .lose i false h
  rwa [hold_false] at hlose

/-- A step of the item: it grows any number of times, or a fetch comes to the end of a
    part. -/
def Step (early : σ → Bool) (F : Faults) (i i' : Item σ) : Prop :=
  Relation.ReflTransGen (Grow early F) i i' ∨ Finish early F i i'

theorem Step.refl {early : σ → Bool} {F : Faults} (i : Item σ) : Step early F i i := .inl .refl

variable {early : σ → Bool} {F : Faults} {i i' : Item σ}

/-- What growing and finishing keep, a step keeps. -/
theorem Step.invariant {I : Item σ → Prop} (h : Step early F i i') (hI : I i)
    (hgrow : ∀ a b, I a → Grow early F a b → I b) (hfinish : Finish early F i i' → I i') : I i' := by
  rcases h with hgrows | hfin
  · clear hfinish
    induction hgrows with
    | refl => exact hI
    | tail _ hstep ih => exact hgrow _ _ ih hstep
  · exact hfinish hfin

/-! ## One fetch at a time -/

/-- The item is fetched at most once at a time, and held meanwhile. -/
def Sound (i : Item σ) : Prop := i.live ≤ 1 ∧ (0 < i.live → i.held = true)

theorem Grow.sound (h : Grow early F i i') (hi : Sound i) : Sound i' := by
  cases h with
  | queue a h => exact hi
  | claim h =>
    -- no fetch is under way, since the item is not held
    have hlive : i.live = 0 := by
      by_contra hne
      rw [hi.2 (Nat.pos_of_ne_zero hne)] at h
      exact absurd h (by decide)
    refine ⟨?_, fun _ => Bool.or_true _⟩
    rw [live_addFirst, live_hold, hlive]

theorem Finish.sound (h : Finish early F i i') (hi : Sound i) : Sound i' := by
  obtain ⟨hle, hheld⟩ := hi
  cases h with
  | lose i b h =>
    simp only [Sound, live_addFirst, live_hold] at hle ⊢
    omega
  | serveAll i =>
    simp only [Sound, live_addFirst, live_drop, live_serve] at hle ⊢
    omega
  | advance i =>
    rw [live_addFirst] at hle hheld
    exact ⟨hle, fun _ => hheld (Nat.succ_pos _)⟩
  | serveEarly i h =>
    simp only [Sound, live_addFirst, live_drop, live_serve] at hle ⊢
    omega
  | serveLate i again =>
    simp only [Sound, live_addRest, live_iterate_drop, live_drop, live_serve] at hle ⊢
    omega
  | abort i again h =>
    simp only [Sound, live_addRest, live_iterate_drop, live_drop] at hle ⊢
    omega

/-- An item is fetched at most once at a time. -/
theorem Step.sound (h : Step early F i i') (hi : Sound i) : Sound i' :=
  h.invariant hi (fun _ _ hI hg => hg.sound hI) (fun hf => hf.sound hi)

/-- An item with a fetch of the first part has none of the rest. -/
theorem Sound.rest_eq_zero (hi : Sound i.addFirst) : i.rest = 0 := by
  have hle := hi.1
  rw [live_addFirst, live] at hle
  omega

/-! ## The end of a fetch -/

/-- An item without a list, and that is not held. -/
def Released (i : Item σ) : Prop := i.waiting = none ∧ i.held = false

theorem released_drop (i : Item σ) : Released i.drop := ⟨rfl, rfl⟩

theorem Released.iterate_drop (h : Released i) (n : Nat) : Released (drop^[n] i) := by
  induction n generalizing i with
  | zero => exact h
  | succ n ih => exact ih (released_drop i)

theorem Released.waiters (h : Released i) : i.waiters = [] := by
  rw [Item.waiters, h.1, Option.getD_none]

theorem Grow.live_le (h : Grow early F i i') : i.live ≤ i'.live := by
  cases h with
  | queue a h => exact le_rfl
  | claim h => simp

theorem Finish.released (h : Finish early F i i') (hlost : ¬F.lost) (hend : i'.live < i.live) :
    Released i' := by
  cases h with
  | lose i b h => exact absurd h hlost
  | serveAll i => exact released_drop _
  | advance i =>
    simp only [live_addFirst, live_addRest, live_serve] at hend
    exact absurd hend (lt_irrefl _)
  | serveEarly i h => exact released_drop _
  | serveLate i again => exact (released_drop _).iterate_drop again
  | abort i again h => exact (released_drop _).iterate_drop again

/-- Where nothing is lost, a fetch that ends leaves no list, and an item that is not held. -/
theorem Step.released (h : Step early F i i') (hlost : ¬F.lost) (hend : i'.live < i.live) :
    Released i' := by
  rcases h with hgrows | hfin
  · have hle : i.live ≤ i'.live := by
      clear hend
      induction hgrows with
      | refl => exact le_rfl
      | tail _ hstep ih => exact ih.trans hstep.live_le
    omega
  · exact hfin.released hlost hend

/-! ## How often someone is served -/

/-- How often the history says that someone of a kind has been queued. -/
def queuedCount (q : σ → Bool) (history : List (Entry σ)) : Nat :=
  history.countP fun
    | .queued a => q a
    | _ => false

/-- How often the history says that someone of a kind has been served. -/
def servedCount (q : σ → Bool) (history : List (Entry σ)) : Nat :=
  history.countP fun
    | .served a => q a
    | _ => false

/-- How many of a kind may still be served: of those who wait, when the first part has
    been delivered, only the others. -/
def due (early q : σ → Bool) (i : Item σ) : Nat :=
  i.waiters.countP fun a => q a && (i.rest == 0 || !early a)

/-- Nobody has been served, or may still be, more often than queued. -/
def Balanced (early : σ → Bool) (i : Item σ) : Prop :=
  ∀ q : σ → Bool, servedCount q i.history + due early q i ≤ queuedCount q i.history

section Counts

variable (q : σ → Bool)

@[simp] theorem queuedCount_append (h h' : List (Entry σ)) :
    queuedCount q (h ++ h') = queuedCount q h + queuedCount q h' := List.countP_append

@[simp] theorem servedCount_append (h h' : List (Entry σ)) :
    servedCount q (h ++ h') = servedCount q h + servedCount q h' := List.countP_append

@[simp] theorem queuedCount_served (l : List σ) : queuedCount q (l.map .served) = 0 := by
  simp [queuedCount, List.countP_map, Function.comp_def]

@[simp] theorem servedCount_served (l : List σ) : servedCount q (l.map .served) = l.countP q := by
  rw [servedCount, List.countP_map]
  rfl

@[simp] theorem queuedCount_dropped (l : List σ) : queuedCount q [.dropped l] = 0 := rfl

@[simp] theorem servedCount_dropped (l : List σ) : servedCount q [.dropped l] = 0 := rfl

@[simp] theorem queuedCount_queued (a : σ) : queuedCount q [.queued a] = if q a then 1 else 0 :=
  List.countP_singleton ..

@[simp] theorem servedCount_queued (a : σ) : servedCount q [.queued a] = 0 := rfl

@[simp] theorem queuedCount_iterate_drop (n : Nat) (i : Item σ) :
    queuedCount q (drop^[n] i).history = queuedCount q i.history := by
  induction n generalizing i with
  | zero => rfl
  | succ n ih => exact (ih i.drop).trans (queuedCount_append q _ _)

@[simp] theorem servedCount_iterate_drop (n : Nat) (i : Item σ) :
    servedCount q (drop^[n] i).history = servedCount q i.history := by
  induction n generalizing i with
  | zero => rfl
  | succ n ih => exact (ih i.drop).trans (servedCount_append q _ _)

@[simp] theorem due_addFirst (i : Item σ) : due early q i.addFirst = due early q i := rfl

theorem due_of_rest_eq_zero (h : i.rest = 0) : due early q i = i.waiters.countP q := by
  simp [due, h]

theorem due_of_rest_pos (h : 0 < i.rest) : due early q i = (i.waiters.filter (!early ·)).countP q := by
  have hrest : (i.rest == 0) = false := beq_false_of_ne (Nat.ne_of_gt h)
  rw [due, List.countP_filter, hrest]
  rfl

end Counts

/-- What has been served and what is due grow together by no more than what is queued. -/
def Bounded (early q : σ → Bool) (i i' : Item σ) : Prop :=
  servedCount q i'.history + due early q i' + queuedCount q i.history ≤
    servedCount q i.history + due early q i + queuedCount q i'.history

/-- Where nobody waits, nobody is due. -/
theorem Released.due_eq_zero (h : Released i) (q : σ → Bool) : due early q i = 0 := by
  rw [due, h.waiters, List.countP_nil]

theorem Grow.bounded (h : Grow early F i i') (q : σ → Bool) : Bounded early q i i' := by
  rw [Bounded]
  cases h with
  | queue a h =>
    -- whoever queues is due from then on, if it is not early and late at once
    have hdue : due early q (i.queue a) ≤ due early q i + if q a then 1 else 0 := by
      simp only [due, waiters_queue, rest_queue, List.countP_append, List.countP_singleton]
      cases q a with
      | false => simp
      | true =>
        simp only [Bool.true_and, if_true]
        split <;> omega
    simp only [history_queue, servedCount_append, queuedCount_append, servedCount_queued,
      queuedCount_queued]
    omega
  | claim h => exact le_rfl

theorem Finish.bounded (h : Finish early F i i') (hs : Sound i) (q : σ → Bool) :
    Bounded early q i i' := by
  rw [Bounded]
  cases h with
  | lose i b h => exact le_rfl
  | serveAll i =>
    -- all who were due are served, and nobody waits
    rw [(released_drop _).due_eq_zero q, due_addFirst, due_of_rest_eq_zero q hs.rest_eq_zero]
    simp
  | advance i =>
    rw [due_addFirst, due_of_rest_eq_zero q hs.rest_eq_zero, due_of_rest_pos q (Nat.succ_pos _)]
    -- the early ones are served now, the others stay due
    have hsplit := i.waiters.countP_eq_countP_filter_add q early
    simp only [history_addRest, history_addFirst, history_serve, waiters_addRest, waiters_serve,
      servedCount_append, queuedCount_append, servedCount_served, queuedCount_served]
    omega
  | serveEarly i h =>
    -- the others are dropped unserved
    rw [(released_drop _).due_eq_zero q, due_addFirst, due_of_rest_eq_zero q hs.rest_eq_zero]
    have hle := (List.filter_sublist (p := early) (l := i.waiters)).countP_le (p := q)
    simp only [history_drop, history_addFirst, history_serve, servedCount_append, queuedCount_append,
      servedCount_served, queuedCount_served, servedCount_dropped, queuedCount_dropped]
    omega
  | serveLate i again =>
    -- the early ones were not due any more
    rw [((released_drop _).iterate_drop again).due_eq_zero q, due_of_rest_pos q (Nat.succ_pos _)]
    simp
  | abort i again h =>
    rw [((released_drop _).iterate_drop again).due_eq_zero q]
    simp only [history_addRest, servedCount_iterate_drop, queuedCount_iterate_drop, history_drop,
      servedCount_append, queuedCount_append, servedCount_dropped, queuedCount_dropped]
    omega

theorem Step.bounded (h : Step early F i i') (hs : Sound i) (q : σ → Bool) :
    Bounded early q i i' := by
  refine h.invariant (I := Bounded early q i) le_rfl ?_ fun hf => hf.bounded hs q
  intro a b ha hg
  have hb := hg.bounded q
  rw [Bounded] at ha hb ⊢
  omega

/-- Nobody is served more often than queued. -/
theorem Step.balanced (h : Step early F i i') (hs : Sound i) (hi : Balanced early i) :
    Balanced early i' := by
  intro q
  have hbounded := h.bounded hs q
  have hbal := hi q
  rw [Bounded] at hbounded
  omega

/-! ## Items that nobody is served with -/

/-- The item is held without being fetched, and so it will never be. -/
def Stuck (i : Item σ) : Prop := i.held = true ∧ i.live = 0

theorem Grow.stuck (h : Grow early F i i') (hi : Stuck i) (q : σ → Bool) :
    Stuck i' ∧ servedCount q i'.history = servedCount q i.history := by
  cases h with
  | queue a h => exact ⟨hi, by simp⟩
  | claim h => exact absurd hi.1 (by simp [h])

theorem Finish.not_stuck (h : Finish early F i i') : ¬Stuck i := by
  rintro ⟨-, hlive⟩
  -- only a fetch that is under way comes to an end
  cases h <;> simp at hlive

/-- A stuck item stays stuck, and nobody is served. -/
theorem Step.stuck (h : Step early F i i') (hi : Stuck i) (q : σ → Bool) :
    Stuck i' ∧ servedCount q i'.history = servedCount q i.history := by
  refine h.invariant (I := fun a => Stuck a ∧ servedCount q a.history = servedCount q i.history)
    ⟨hi, rfl⟩ ?_ fun hf => absurd hi hf.not_stuck
  rintro a b ⟨ha, hserved⟩ hg
  obtain ⟨hb, hsame⟩ := hg.stuck ha q
  exact ⟨hb, hsame.trans hserved⟩

/-- Being served is not undone. -/
theorem Step.servedCount_le (h : Step early F i i') (q : σ → Bool) :
    servedCount q i.history ≤ servedCount q i'.history := by
  refine h.invariant (I := fun a => servedCount q i.history ≤ servedCount q a.history) le_rfl ?_ ?_
  · intro a b ha hg
    cases hg with
    | queue c h => simpa using ha
    | claim h => exact ha
  · intro hf
    cases hf <;> simp

/-- Nobody of the kind is served any more unless queued before. -/
def Idle (early q : σ → Bool) (i : Item σ) : Prop := due early q i = 0 ∨ Stuck i

/-- Where nobody of the kind is queued, an idle item stays idle, and nobody of the kind is
    served. -/
theorem Step.idle {q : σ → Bool} (h : Step early F i i') (hs : Sound i) (hi : Idle early q i)
    (hqueued : queuedCount q i'.history = queuedCount q i.history) :
    Idle early q i' ∧ servedCount q i'.history = servedCount q i.history := by
  rcases hi with hdue | hstuck
  · -- what is served is what was due, and that is nothing
    have hbounded := h.bounded hs q
    have hle := h.servedCount_le q
    rw [Bounded] at hbounded
    exact ⟨.inl (by omega), by omega⟩
  · obtain ⟨hstuck', hsame⟩ := h.stuck hstuck q
    exact ⟨.inr hstuck', hsame⟩

/-! ## Who is dropped -/

/-- Nobody has been dropped without having been served. -/
def Complete (history : List (Entry σ)) : Prop :=
  ∀ before l after, history = before ++ .dropped l :: after → ∀ a ∈ l, .served a ∈ before

theorem complete_nil : Complete ([] : List (Entry σ)) := by
  intro before l after h
  exact absurd h (by simp)

theorem Complete.append_singleton {history : List (Entry σ)} (h : Complete history) {e : Entry σ}
    (he : ∀ l, e = .dropped l → ∀ a ∈ l, .served a ∈ history) : Complete (history ++ [e]) := by
  intro before l after heq
  rcases List.eq_nil_or_concat after with rfl | ⟨after, e', rfl⟩
  · -- the entry is the last one
    obtain ⟨rfl, hlast⟩ := List.append_inj' heq rfl
    exact he l (List.cons_eq_cons.mp hlast).1
  · rw [List.concat_eq_append, ← List.cons_append, ← List.append_assoc] at heq
    exact h before l after (List.append_inj' heq rfl).1

theorem Complete.append_served {history : List (Entry σ)} (h : Complete history) (l : List σ) :
    Complete (history ++ l.map .served) := by
  induction l generalizing history with
  | nil => simpa using h
  | cons a l ih =>
    rw [List.map_cons, List.append_cons]
    exact ih (h.append_singleton nofun)

theorem Complete.iterate_drop (h : Complete i.history) (hi : i.waiters = []) (n : Nat) :
    Complete (drop^[n] i).history := by
  induction n generalizing i with
  | zero => exact h
  | succ n ih =>
    refine ih (h.append_singleton ?_) rfl
    intro l hl a ha
    obtain rfl := Entry.dropped.inj hl
    rw [hi] at ha
    exact absurd ha List.not_mem_nil

/-- Nobody has been dropped without having been served, and once the first part has been
    delivered the early ones that wait have been served. -/
def Kept (early : σ → Bool) (i : Item σ) : Prop :=
  Complete i.history ∧ (0 < i.rest → ∀ a ∈ i.waiters, early a = true → .served a ∈ i.history)

theorem Grow.kept (h : Grow early F i i') (hlate : ¬F.late) (hi : Kept early i) : Kept early i' := by
  obtain ⟨hcomplete, hearly⟩ := hi
  cases h with
  | queue a h =>
    refine ⟨hcomplete.append_singleton nofun, ?_⟩
    intro hrest a' ha' hea'
    rw [waiters_queue, List.mem_append, List.mem_singleton] at ha'
    rcases ha' with ha' | rfl
    · exact List.mem_append_left _ (hearly hrest a' ha' hea')
    · -- the one that queues now is not early
      exact absurd (h hrest hea') hlate
  | claim h => exact ⟨hcomplete, hearly⟩

/-- Serving those who wait, or all that have not been served, and dropping the list. -/
theorem Kept.drop_serve (hi : Complete i.history) {l : List σ}
    (hl : ∀ a ∈ i.waiters, a ∈ l ∨ .served a ∈ i.history) :
    Complete (i.serve l).drop.history := by
  refine (hi.append_served l).append_singleton ?_
  intro l' hl' a ha
  obtain rfl := Entry.dropped.inj hl'
  rw [List.mem_append]
  rcases hl a ha with ha | ha
  · exact .inr (List.mem_map_of_mem ha)
  · exact .inl ha

theorem Finish.kept (h : Finish early F i i') (hs : Sound i) (haborted : ¬F.aborted)
    (hi : Kept early i) : Kept early i' := by
  obtain ⟨hcomplete, hearly⟩ := hi
  cases h with
  | lose i b h => exact ⟨hcomplete, hearly⟩
  | serveAll i =>
    refine ⟨Kept.drop_serve hcomplete fun a ha => .inl ha, ?_⟩
    intro _ a ha
    exact absurd ha List.not_mem_nil
  | advance i =>
    refine ⟨hcomplete.append_served _, ?_⟩
    intro _ a ha hea
    exact List.mem_append_right _ (List.mem_map_of_mem (List.mem_filter.mpr ⟨ha, hea⟩))
  | serveEarly i h => exact absurd h haborted
  | serveLate i again =>
    have hdrop : Complete (i.serve (i.waiters.filter (!early ·))).drop.history := by
      refine Kept.drop_serve hcomplete ?_
      intro a ha
      cases hea : early a with
      -- whoever is early has been served with the first part
      | true => exact .inr (hearly (Nat.succ_pos _) a ha hea)
      | false => exact .inl (List.mem_filter.mpr ⟨ha, by simp [hea]⟩)
    refine ⟨hdrop.iterate_drop rfl again, ?_⟩
    intro _ a ha
    rw [((released_drop _).iterate_drop again).waiters] at ha
    exact absurd ha List.not_mem_nil
  | abort i again h => exact absurd h haborted

/-- Where nobody early comes late and nothing is given up, nobody is dropped without
    having been served. -/
theorem Step.kept (h : Step early F i i') (hs : Sound i) (hlate : ¬F.late) (haborted : ¬F.aborted)
    (hi : Kept early i) : Kept early i' :=
  h.invariant hi (fun _ _ hI hg => hg.kept hlate hI) (fun hf => hf.kept hs haborted hi)

end Delivery
