import Svs.Spec.Atlas

/-!
# A node among others that tell it the truth

## Key results

- `Faithful.step`: a step keeps to the mappings and the publications
- `Faithful.called`: what the callbacks of the node have been called with, and how often
-/

namespace Svs.PubSub

open Std

/-- The names that a publication is mapped to. -/
def Named (A : Atlas) (p : Publication) (name : Name) : Prop := ∃ mapping, A.maps p mapping ∧ mapping.name = name

/-- A node that has been run, keeps to the mappings and the publications, and gives each
    callback at most `N` chances. -/
structure Faithful (A : Atlas) (O : Origin) (cfg : PubSubConfig) (N : Publication → Nat) (s : PubSub) : Prop where
  run : ∃ count events, s = Run.state (step cfg) events { subscriptionCount := count }
  charted : Charted A s
  truthful : Truthful O cfg s
  queue : QueueInv (Named A) N s

variable {A : Atlas} {O : Origin} {cfg : PubSubConfig} {N : Publication → Nat} {s : PubSub}

theorem faithful_init (A : Atlas) (O : Origin) (cfg : PubSubConfig) (count : UInt32) :
    Faithful A O cfg (fun _ => 0) { subscriptionCount := count } where
  run := ⟨count, [], rfl⟩
  charted := charted_init A count
  truthful := truthful_init O cfg count
  queue := queueInv_init (Named A) count

/-- With more publications and chances the same is true. -/
theorem Faithful.mono {A' : Atlas} {O' : Origin} {N' : Publication → Nat} (h : Faithful A O cfg N s)
    (hids : A'.ids = A.ids) (hmaps : ∀ p mapping, A.maps p mapping → A'.maps p mapping)
    (hknown : O'.known = O.known) (hholds : ∀ p x, O.holds p x → O'.holds p x)
    (hname : O'.dataName = O.dataName) (hN : ∀ p, N p ≤ N' p) : Faithful A' O' cfg N' s where
  run := h.run
  charted := h.charted.mono hids hmaps
  truthful := h.truthful.mono hknown hholds hname
  queue := by
    refine ⟨h.queue.registered, fun cb p => (h.queue.chances_le cb p).trans (hN p), ?_⟩
    intro sub p hqueued
    have hmatched := h.queue.matched sub p hqueued
    rw [Matched] at hmatched ⊢
    split
    · next hproducer =>
      rwa [if_pos hproducer] at hmatched
    · next hproducer =>
      rw [if_neg hproducer] at hmatched
      obtain ⟨name, ⟨mapping, hmapping, hname⟩, hpref⟩ := hmatched
      exact ⟨name, ⟨mapping, hmaps p mapping hmapping, hname⟩, hpref⟩

/-- A reply that keeps to the mappings answers its query. -/
theorem Faithful.answers (h : Faithful A O cfg N s) {e : UInt64 × Event} (hinforms : Informs A cfg e s) :
    Answers cfg e s := by
  obtain ⟨now, event⟩ := e
  rintro event info data rfl hends
  exact (h.charted.vouched.of_ends hinforms hends).response.1

/-- A step keeps to the mappings and the publications. -/
theorem Faithful.step (h : Faithful A O cfg N s) {e : UInt64 × Event} (hinforms : Informs A cfg e s)
    (hbrings : Brings O cfg e.2 s) :
    Faithful A O cfg (fun p => N p + e.2.reports.countP (·.Covers p)) (s.step cfg e) := by
  have hcharted := h.charted.step hinforms
  refine ⟨?_, hcharted, h.truthful.step hbrings, ?_⟩
  · obtain ⟨count, events, rfl⟩ := h.run
    refine ⟨count, events ++ [e], ?_⟩
    rw [Run.state_append]
    rfl
  · apply h.queue.step (h.answers hinforms)
    exact fun p mapping hmapping => ⟨mapping, hcharted.mappings p mapping hmapping, rfl⟩

/-- Each callback is called at most `N` times, and only for what its subscription's prefix is
    a prefix of, with what has been published. -/
theorem Faithful.called (h : Faithful A O cfg N s) :
    (∀ cb p, calledTimes cb p s.log ≤ N p) ∧
      ∀ sub subData, .called sub subData ∈ s.log →
        0 < N ⟨subData.producerPrefix, subData.seqNo⟩ ∧ O.Calls sub subData ∧
          Matched (Named A) sub ⟨subData.producerPrefix, subData.seqNo⟩ := by
  have htimes : ∀ cb p, calledTimes cb p s.log ≤ N p := by
    intro cb p
    have hchances := h.queue.chances_le cb p
    obtain ⟨count, events, rfl⟩ := h.run
    have hle := served_le_queued cfg count p events (·.callback = cb)
    rw [← calledTimes_eq, ← queuedTimes_eq] at hle
    rw [chances] at hchances
    omega
  refine ⟨htimes, ?_⟩
  intro sub subData hcalled
  have hcalls := h.truthful.calls sub subData hcalled
  have hpos : 0 < calledTimes sub.callback ⟨subData.producerPrefix, subData.seqNo⟩ s.log := by
    rw [calledTimes, List.countP_pos_iff]
    exact ⟨_, hcalled, by simp⟩
  refine ⟨Nat.lt_of_lt_of_le hpos (htimes _ _), hcalls, ?_⟩
  apply h.queue.matched
  obtain ⟨count, events, rfl⟩ := h.run
  exact queued_of_called hcalled

end Svs.PubSub
