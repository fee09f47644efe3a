import Svs.ForStd.Run
import Svs.Spec.PubSubRefines

/-!
# What the fetch of a publication leaves behind

## Key results

- `releases_iff`: the runs in which every fetch that ends is cleaned up
-/

namespace Svs

open Std Delivery

namespace PubSub

variable {cfg : PubSubConfig} {p : Publication} {s : PubSub} {e : UInt64 × Event}

/-- The fetch that `fetchAll` has started for the publication has not ended: its Interest
    is outstanding, or `onSyncData` waits for an answer. -/
def Fetching (p : Publication) (s : PubSub) : Prop :=
  .fetch p ∈ s.dataFetcher.outstanding ∨ ∃ task ∈ s.tasks, task.2.isFirst p ∨ task.2.isRest p

instance (p : Publication) (s : PubSub) : Decidable (Fetching p s) :=
  inferInstanceAs (Decidable (_ ∨ _))

theorem fetching_iff : Fetching p s ↔ 0 < (s.item p).live := by
  have hfirst : 0 < s.tasks.countP (·.2.isFirst p) ↔ ∃ task ∈ s.tasks, task.2.isFirst p = true :=
    List.countP_pos_iff
  have hrest : 0 < s.tasks.countP (·.2.isRest p) ↔ ∃ task ∈ s.tasks, task.2.isRest p = true :=
    List.countP_pos_iff
  rw [Fetching, Item.live, item, ← Multiset.count_pos]
  simp only [and_or_left, exists_or, ← hfirst, ← hrest]
  omega

/-- If the step ends the fetch of the publication, the publication is in neither map
    after it. -/
def Releases (cfg : PubSubConfig) (p : Publication) (e : UInt64 × Event) (s : PubSub) : Prop :=
  Fetching p s → ¬Fetching p (s.step cfg e) →
    p ∉ (s.step cfg e).fetchMap ∧ p ∉ (s.step cfg e).fetchingMap

instance (cfg : PubSubConfig) (p : Publication) (e : UInt64 × Event) (s : PubSub) :
    Decidable (Releases cfg p e s) :=
  inferInstanceAs (Decidable (_ → _ → _))

theorem released_item_iff : Released (s.item p) ↔ p ∉ s.fetchMap ∧ p ∉ s.fetchingMap := by
  have hwaiting : s.fetchMap[p]? = none ↔ p ∉ s.fetchMap := by
    rw [ExtTreeMap.mem_iff_isSome_getElem?, Bool.not_eq_true, Option.isSome_eq_false_iff,
      Option.isNone_iff_eq_none]
  have hheld : s.fetchingMap.contains p = false ↔ p ∉ s.fetchingMap := by
    rw [ExtTreeMap.mem_iff_contains, Bool.not_eq_true]
  exact and_congr hwaiting hheld

/-- A publication is fetched at most once at a time, and marked meanwhile. -/
theorem sound_step (h : Sound (s.item p)) : Sound ((s.step cfg e).item p) :=
  (step_refines cfg p e s).sound h

theorem sound_init (p : Publication) (count : UInt32) : Sound (item p { subscriptionCount := count }) := by
  rw [item_init]
  exact ⟨Nat.zero_le 1, nofun⟩

theorem releases_of_not_endsBadly (h : ¬EndsBadly cfg p e s) : Releases cfg p e s := by
  intro hbefore hafter
  rw [fetching_iff] at hbefore hafter
  exact released_item_iff.mp ((step_refines cfg p e s).released h (by omega))

/-- A fetch that ends badly is over, and the publication stays marked. -/
theorem item_of_endsBadly (h : EndsBadly cfg p e s) :
    ∃ i b, s.item p = Item.addFirst i ∧ (s.step cfg e).item p = i.hold b := by
  obtain ⟨now, event⟩ := e
  cases event with
  | fetchData event answer =>
    obtain ⟨outcome, hends, hbad⟩ := h
    have hended := (s.dataFetcher.step_eq_some_iff cfg.securityOptions event _ outcome).mpr hends
    rw [step_fetchData, item_afterFetcher_of_ended hended, hended]
    cases outcome with
    | satisfied data =>
      obtain ⟨b, hb⟩ := item_onSyncData_of_bad (s := s.afterFetcher cfg event) (p := p)
        (hbad data rfl)
      exact ⟨_, b, rfl, hb⟩
    | nacked => exact ⟨_, false, rfl, (Item.hold_false _).symm⟩
    | timedOut => exact ⟨_, false, rfl, (Item.hold_false _).symm⟩
    | invalid => exact ⟨_, false, rfl, (Item.hold_false _).symm⟩
  | validationFailed task =>
    obtain ⟨s', htask⟩ := h
    refine ⟨s'.item p, false, item_takeTask_first htask (by simp [FetchTask.isFirst]) rfl, ?_⟩
    simp [step, htask]
  | _ => exact h.elim

theorem not_endsBadly_of_releases (hs : Sound (s.item p)) (h : Releases cfg p e s) :
    ¬EndsBadly cfg p e s := by
  intro hbad
  obtain ⟨i, b, hbefore, hafter⟩ := item_of_endsBadly hbad
  obtain ⟨hle, hheld⟩ := hs
  rw [hbefore, Item.live_addFirst] at hle hheld
  have hfetching : Fetching p s := by
    rw [fetching_iff, hbefore, Item.live_addFirst]
    exact Nat.succ_pos _
  have hended : ¬Fetching p (s.step cfg e) := by
    rw [fetching_iff, hafter, Item.live_hold]
    omega
  -- the mark is still there
  have hmark : i.held = true := hheld (Nat.succ_pos _)
  have hreleased := (released_item_iff.mpr (h hfetching hended)).2
  rw [hafter, Item.hold] at hreleased
  simp [hmark] at hreleased

/-- In a run every fetch of the publication that ends leaves it in neither map iff none of
    them ends badly. -/
theorem releases_iff (cfg : PubSubConfig) (count : UInt32) (p : Publication)
    (events : List (UInt64 × Event)) :
    Run.Always (step cfg) (Releases cfg p) events { subscriptionCount := count } ↔
      Run.Always (step cfg) (fun e s => ¬EndsBadly cfg p e s) events
        { subscriptionCount := count } := by
  constructor
  · intro h
    exact h.imp (I := fun s => Sound (s.item p)) (sound_init p count) (fun _ _ hs _ => sound_step hs)
      fun _ _ hs hreleases => not_endsBadly_of_releases hs hreleases
  · intro h
    exact h.imp (I := fun s => Sound (s.item p)) (sound_init p count) (fun _ _ hs _ => sound_step hs)
      fun _ _ _ hbad => releases_of_not_endsBadly hbad

/-- After a Nack the publication stays in both maps. -/
theorem not_releases : ¬∀ cfg count p events,
    Run.Always (step cfg) (Releases cfg p) events { subscriptionCount := count } := by
  intro h
  have hrun : ¬Run.Always (step { decodeData := fun _ => none })
      (Releases { decodeData := fun _ => none } ⟨.ofBytes [[97]], 1⟩)
      [(0, .subscribeToProducer (.ofBytes [[97]]) false false),
        (0, .update [⟨.ofBytes [[97]], 1, 1, 0⟩]), (0, .fetchData (.nack 1) none)]
      { subscriptionCount := 0 } := by
    decide
  exact hrun (h _ _ _ _)

end PubSub

end Svs
