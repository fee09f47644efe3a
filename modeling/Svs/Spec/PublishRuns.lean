import Svs.ForStd.Run
import Svs.Native.Publish
import Svs.Spec.ExactlyOnce

/-!
# Fresh sequence numbers

The numbers that `publishData` hands out, over runs: on several threads, where other
steps come between the read and the write of a call, and on the face's thread, where the
successor may wrap.

## Key results

- `keepsSeqNos_iff`: the runs on several threads that neither lower an entry nor hand out
  a number twice
- `keepsSeqNos_of_inTurn`: those in which nothing comes between the two steps of a call
- `returnsFresh_iff`: the runs on one thread that hand out fresh numbers only
-/

namespace Svs

open VersionVector

/-! ## The number that a call reads -/

namespace Publishers

theorem targetNode_targetNode (cfg : Config) (nid : NodeID) :
    Core.targetNode cfg (Core.targetNode cfg nid) = Core.targetNode cfg nid := by
  unfold Core.targetNode
  split
  · simp
  · rfl

/-- The number that `publishData` returns. -/
theorem nextSeqNo_eq (cfg : Config) (id : NodeID) (c : Core) :
    Core.nextSeqNo cfg id c = c.vv.get (Core.targetNode cfg id) + 1 := by
  rw [Core.nextSeqNo, Core.getSeqNo, targetNode_targetNode]

/-- The successor is above a number unless it wraps to zero. -/
theorem lt_add_one_iff (s : SeqNo) : s < s + 1 ↔ s.toNat < 2 ^ 64 - 1 := by
  rw [UInt64.lt_iff_toNat_lt, UInt64.toNat_add, UInt64.toNat_one]
  have hlt := s.toNat_lt
  omega

end Publishers

/-! ## Several threads -/

namespace Publishers

variable {κ : Type} [DecidableEq κ] {cfg : Config} {s : Publishers κ}

/-- The step lowers no entry. -/
def LowersNone (cfg : Config) (e : Moment × LockedStep κ) (s : Publishers κ) : Prop :=
  ∀ n, s.core.vv.get n ≤ (step cfg e s).core.vv.get n

/-- If the step is the write of a call, the number it writes is above the entry, or it is
    the entry itself and no call has returned it: a merge raised the entry to it. -/
def WritesAbove (e : Moment × LockedStep κ) (s : Publishers κ) : Prop :=
  match e.2 with
  | .updateSeqNo thread => ∀ pubId newSeq, s.pending thread = some (pubId, newSeq) →
      s.core.vv.get pubId < newSeq ∨
        s.core.vv.get pubId = newSeq ∧ (pubId, newSeq) ∉ s.returned
  | _ => True

/-- Calls run under resolved ids, the numbers returned are at most the entries, and none
    was returned twice. -/
structure Fresh (cfg : Config) (s : Publishers κ) : Prop where
  resolved : ∀ thread pubId newSeq, s.pending thread = some (pubId, newSeq) →
    Core.targetNode cfg pubId = pubId
  returned_le : ∀ pubId seq, (pubId, seq) ∈ s.returned → seq ≤ s.core.vv.get pubId
  nodup : s.returned.Nodup

omit [DecidableEq κ] in
theorem fresh_idle (core : Core) : Fresh (κ := κ) cfg (idle core) where
  resolved := by simp [idle]
  returned_le := by simp [idle]
  nodup := List.nodup_nil

/-- A merge lowers no entry. -/
theorem le_mergeStateVector (m : Moment) (vvOther : VersionVector) (c : Core) (n : NodeID) :
    c.vv.get n ≤ (Core.mergeStateVector m vvOther c).1.vv.get n := by
  have hknows : c.vv.knows ≤ (Core.mergeStateVector m vvOther c).1.vv.knows := by
    rw [Core.mergeStateVector_fst]
    exact le_sup_left.trans_eq (Core.knows_raiseEntries m c.vv vvOther).symm
  exact UInt64.le_iff_toNat_le.mpr (hknows n)

/-- The entries after the write of a call. -/
theorem get_updateSeqNo (m : Moment) {pubId : NodeID} (newSeq : SeqNo) (c : Core) (n : NodeID)
    (h : Core.targetNode cfg pubId = pubId) :
    (Core.updateSeqNo cfg m newSeq pubId c).vv.get n = if pubId = n then newSeq else c.vv.get n := by
  rw [(Core.updateSeqNo_frame cfg m newSeq pubId).1, h, get_set]

/-- A write above the entry, or at it, lowers nothing. -/
theorem lowersNone_of_writesAbove {e : Moment × LockedStep κ} (h : Fresh cfg s)
    (hw : WritesAbove e s) : LowersNone cfg e s := by
  intro n
  obtain ⟨m, e⟩ := e
  cases e with
  | getSeqNo thread id =>
    cases hp : s.pending thread <;> simp [step, hp]
  | mergeStateVector vvOther => exact le_mergeStateVector m vvOther s.core n
  | updateSeqNo thread =>
    cases hp : s.pending thread with
    | none => simp [step, hp]
    | some call =>
      obtain ⟨pubId, newSeq⟩ := call
      have hget := get_updateSeqNo m newSeq s.core n (h.resolved thread pubId newSeq hp)
      have habove := hw pubId newSeq hp
      simp only [step, hp]
      rw [hget]
      split
      · next hn =>
        subst hn
        rcases habove with hlt | ⟨heq, -⟩
        · exact UInt64.le_of_lt hlt
        · exact UInt64.le_of_eq heq
      · exact UInt64.le_refl _

/-- Where a write lowers nothing and its number is new, it is above the entry, or at it
    and new. -/
theorem writesAbove_of_lowersNone {e : Moment × LockedStep κ} (h : Fresh cfg s)
    (hlow : LowersNone cfg e s) (hnodup : (step cfg e s).returned.Nodup) : WritesAbove e s := by
  obtain ⟨m, e⟩ := e
  cases e with
  | getSeqNo thread id => trivial
  | mergeStateVector vvOther => trivial
  | updateSeqNo thread =>
    intro pubId newSeq hp
    have hle := hlow pubId
    simp only [step, hp] at hle hnodup
    rw [get_updateSeqNo m newSeq s.core pubId (h.resolved thread pubId newSeq hp), if_pos rfl] at hle
    rw [List.nodup_append] at hnodup
    rcases UInt64.lt_or_eq_of_le hle with hlt | heq
    · exact .inl hlt
    · exact .inr ⟨heq, fun hmem => hnodup.2.2 _ hmem _ List.mem_cons_self rfl⟩

/-- A step whose write is above the entry, or at it and new, keeps the numbers fresh. -/
theorem Fresh.step (h : Fresh cfg s) {e : Moment × LockedStep κ} (hw : WritesAbove e s) :
    Fresh cfg (step cfg e s) := by
  have hlow := lowersNone_of_writesAbove h hw
  obtain ⟨m, e⟩ := e
  cases e with
  | getSeqNo thread id =>
    cases hp : s.pending thread with
    | some call => simpa [Publishers.step, hp] using h
    | none =>
      simp only [Publishers.step, hp]
      refine ⟨?_, h.returned_le, h.nodup⟩
      intro thread' pubId newSeq hcall
      dsimp only at hcall
      by_cases ht : thread' = thread
      · -- the call that has just read the entry
        subst ht
        rw [Function.update_self, Option.some.injEq, Prod.mk.injEq] at hcall
        rw [← hcall.1, targetNode_targetNode]
      · rw [Function.update_of_ne ht] at hcall
        exact h.resolved thread' pubId newSeq hcall
  | mergeStateVector vvOther =>
    exact ⟨h.resolved, fun pubId seq hmem => UInt64.le_trans (h.returned_le pubId seq hmem) (hlow pubId),
      h.nodup⟩
  | updateSeqNo thread =>
    cases hp : s.pending thread with
    | none => simpa [Publishers.step, hp] using h
    | some call =>
      obtain ⟨pubId, newSeq⟩ := call
      have hres := h.resolved thread pubId newSeq hp
      have habove := hw pubId newSeq hp
      -- a number above the entry cannot have been returned
      have hnew : (pubId, newSeq) ∉ s.returned := by
        intro hmem
        rcases habove with hlt | ⟨-, hnew⟩
        · exact UInt64.not_le.mpr hlt (h.returned_le pubId newSeq hmem)
        · exact hnew hmem
      simp only [LowersNone, Publishers.step, hp] at hlow ⊢
      constructor
      case resolved =>
        intro thread' pubId' newSeq' hcall
        dsimp only at hcall
        by_cases ht : thread' = thread
        · rw [ht, Function.update_self] at hcall
          cases hcall
        · rw [Function.update_of_ne ht] at hcall
          exact h.resolved thread' pubId' newSeq' hcall
      case returned_le =>
        intro pubId' seq hmem
        rcases List.mem_append.mp hmem with hmem | hmem
        · exact UInt64.le_trans (h.returned_le pubId' seq hmem) (hlow pubId')
        · obtain ⟨rfl, rfl⟩ := Prod.mk.inj (List.mem_singleton.mp hmem)
          rw [get_updateSeqNo m seq s.core pubId' hres, if_pos rfl]
          exact UInt64.le_refl seq
      case nodup =>
        rw [List.nodup_append]
        exact ⟨h.nodup, List.nodup_singleton _, fun a ha b hb hab =>
          hnew (List.mem_singleton.mp hb ▸ hab ▸ ha)⟩

/-- What calls have returned is never taken back. -/
theorem returned_sublist (events : List (Moment × LockedStep κ)) (s : Publishers κ) :
    s.returned.Sublist (Run.state (step cfg) events s).returned := by
  induction events generalizing s with
  | nil => exact List.Sublist.refl _
  | cons e events ih =>
    apply List.Sublist.trans _ (ih (step cfg e s))
    obtain ⟨m, e⟩ := e
    cases e with
    | getSeqNo thread id => cases hp : s.pending thread <;> simp [step, hp]
    | mergeStateVector vvOther => exact List.Sublist.refl _
    | updateSeqNo thread => cases hp : s.pending thread <;> simp [step, hp]

/-- A run lowers no entry and hands out no number twice iff every write of a call is above
    the entry, or at an entry that a merge raised to it. -/
theorem keepsSeqNos_iff (cfg : Config) (core : Core) (events : List (Moment × LockedStep κ)) :
    Run.Always (step cfg) (LowersNone cfg) events (idle core) ∧
        (Run.state (step cfg) events (idle core)).returned.Nodup ↔
      Run.Always (step cfg) WritesAbove events (idle core) := by
  have key : ∀ s : Publishers κ, Fresh cfg s →
      (Run.Always (step cfg) (LowersNone cfg) events s ∧ (Run.state (step cfg) events s).returned.Nodup ↔
        Run.Always (step cfg) WritesAbove events s) := by
    intro s hfresh
    constructor
    · intro h
      obtain ⟨hlow, hnodup⟩ := h
      induction events generalizing s with
      | nil => trivial
      | cons e events ih =>
        have hreturned := hnodup.sublist (returned_sublist events (step cfg e s))
        have hw := writesAbove_of_lowersNone hfresh hlow.1 hreturned
        exact ⟨hw, ih _ (hfresh.step hw) hlow.2 hnodup⟩
    · intro h
      have hstep : ∀ e (s : Publishers κ), Fresh cfg s → WritesAbove e s → Fresh cfg (step cfg e s) :=
        fun e s hs hw => hs.step hw
      exact ⟨h.imp hfresh hstep fun e s hs hw => lowersNone_of_writesAbove hs hw,
        (h.invariant hfresh hstep).nodup⟩
  exact key (idle core) (fresh_idle core)

/-! ### Calls that come in turn -/

/-- No call reads the entry while another one for the node is between its two steps, nor
    finds the entry at the largest number; and no merge raises the entry of a node while a
    call for it is between its steps. -/
def InTurn (cfg : Config) (e : Moment × LockedStep κ) (s : Publishers κ) : Prop :=
  match e.2 with
  | .getSeqNo thread id => s.pending thread = none →
      (s.core.vv.get (Core.targetNode cfg id)).toNat < 2 ^ 64 - 1 ∧
        ∀ thread' newSeq, s.pending thread' ≠ some (Core.targetNode cfg id, newSeq)
  | .updateSeqNo _ => True
  | .mergeStateVector vvOther => ∀ thread pubId newSeq,
      s.pending thread = some (pubId, newSeq) → vvOther.get pubId ≤ s.core.vv.get pubId

/-- A call between its steps is the only one for its node, and the entry is what it read. -/
structure Exclusive (s : Publishers κ) : Prop where
  read : ∀ thread pubId newSeq, s.pending thread = some (pubId, newSeq) →
    newSeq = s.core.vv.get pubId + 1 ∧ (s.core.vv.get pubId).toNat < 2 ^ 64 - 1
  alone : ∀ thread thread' pubId newSeq newSeq', s.pending thread = some (pubId, newSeq) →
    s.pending thread' = some (pubId, newSeq') → thread = thread'

omit [DecidableEq κ] in
theorem exclusive_idle (core : Core) : Exclusive (κ := κ) (idle core) where
  read := by simp [idle]
  alone := by simp [idle]

/-- A merge leaves an entry alone that it does not raise. -/
theorem get_mergeStateVector_of_le {m : Moment} {vvOther : VersionVector} {c : Core} {n : NodeID}
    (h : vvOther.get n ≤ c.vv.get n) : (Core.mergeStateVector m vvOther c).1.vv.get n = c.vv.get n := by
  have hle : vvOther.knows n ≤ c.vv.knows n := UInt64.le_iff_toNat_le.mp h
  have hknows : (Core.mergeStateVector m vvOther c).1.vv.knows n = c.vv.knows n := by
    rw [Core.mergeStateVector_fst, Core.knows_raiseEntries, Pi.sup_apply, sup_eq_left.mpr hle]
  exact UInt64.toNat_inj.mp hknows

omit [DecidableEq κ] in
/-- The write of a call that is alone is above the entry. -/
theorem Exclusive.writesAbove (h : Exclusive s) (e : Moment × LockedStep κ) : WritesAbove e s := by
  obtain ⟨m, e⟩ := e
  cases e with
  | getSeqNo thread id => trivial
  | mergeStateVector vvOther => trivial
  | updateSeqNo thread =>
    intro pubId newSeq hp
    obtain ⟨rfl, hlimit⟩ := h.read thread pubId newSeq hp
    exact .inl ((lt_add_one_iff _).mpr hlimit)

/-- Steps that come in turn keep calls alone. -/
theorem Exclusive.step (h : Exclusive s) (hfresh : Fresh cfg s) {e : Moment × LockedStep κ}
    (hturn : InTurn cfg e s) : Exclusive (step cfg e s) := by
  obtain ⟨m, e⟩ := e
  cases e with
  | getSeqNo thread id =>
    cases hp : s.pending thread with
    | some call => simpa [Publishers.step, hp] using h
    | none =>
      obtain ⟨hlimit, hnobody⟩ := hturn hp
      simp only [Publishers.step, hp]
      -- the call that has just read the entry, and the others
      have hcases : ∀ thread' pubId newSeq,
          Function.update s.pending thread (some (Core.targetNode cfg id, Core.nextSeqNo cfg id s.core))
            thread' = some (pubId, newSeq) →
          (thread' = thread ∧ pubId = Core.targetNode cfg id ∧ newSeq = s.core.vv.get pubId + 1) ∨
            (pubId ≠ Core.targetNode cfg id ∧ s.pending thread' = some (pubId, newSeq)) := by
        intro thread' pubId newSeq hcall
        by_cases ht : thread' = thread
        · rw [ht, Function.update_self, Option.some.injEq, Prod.mk.injEq] at hcall
          obtain ⟨rfl, rfl⟩ := hcall
          exact .inl ⟨ht, rfl, nextSeqNo_eq cfg id s.core⟩
        · rw [Function.update_of_ne ht] at hcall
          refine .inr ⟨?_, hcall⟩
          rintro rfl
          exact hnobody thread' newSeq hcall
      constructor
      case read =>
        intro thread' pubId newSeq hcall
        rcases hcases thread' pubId newSeq hcall with ⟨-, rfl, hread⟩ | ⟨-, hother⟩
        · exact ⟨hread, hlimit⟩
        · exact h.read thread' pubId newSeq hother
      case alone =>
        intro thread₁ thread₂ pubId newSeq₁ newSeq₂ hcall₁ hcall₂
        rcases hcases thread₁ pubId newSeq₁ hcall₁ with ⟨rfl, hid, -⟩ | ⟨hne, hother₁⟩
        · rcases hcases thread₂ pubId newSeq₂ hcall₂ with ⟨rfl, -, -⟩ | ⟨hne, -⟩
          · rfl
          · exact absurd hid hne
        · rcases hcases thread₂ pubId newSeq₂ hcall₂ with ⟨-, hid, -⟩ | ⟨-, hother₂⟩
          · exact absurd hid hne
          · exact h.alone thread₁ thread₂ pubId newSeq₁ newSeq₂ hother₁ hother₂
  | mergeStateVector vvOther =>
    refine ⟨?_, h.alone⟩
    intro thread pubId newSeq hp
    dsimp only [Publishers.step]
    rw [get_mergeStateVector_of_le (hturn thread pubId newSeq hp)]
    exact h.read thread pubId newSeq hp
  | updateSeqNo thread =>
    cases hp : s.pending thread with
    | none => simpa [Publishers.step, hp] using h
    | some call =>
      obtain ⟨pubId, newSeq⟩ := call
      simp only [Publishers.step, hp]
      -- the calls that stay are for other nodes
      have hcases : ∀ thread' pubId' newSeq',
          Function.update s.pending thread none thread' = some (pubId', newSeq') →
          pubId ≠ pubId' ∧ s.pending thread' = some (pubId', newSeq') := by
        intro thread' pubId' newSeq' hcall
        by_cases ht : thread' = thread
        · rw [ht, Function.update_self] at hcall
          cases hcall
        · rw [Function.update_of_ne ht] at hcall
          refine ⟨?_, hcall⟩
          rintro rfl
          exact ht (h.alone thread' thread pubId newSeq' newSeq hcall hp)
      constructor
      case read =>
        intro thread' pubId' newSeq' hcall
        obtain ⟨hne, hother⟩ := hcases thread' pubId' newSeq' hcall
        dsimp only
        rw [get_updateSeqNo m newSeq s.core pubId' (hfresh.resolved thread pubId newSeq hp), if_neg hne]
        exact h.read thread' pubId' newSeq' hother
      case alone =>
        intro thread₁ thread₂ pubId' newSeq₁ newSeq₂ hcall₁ hcall₂
        exact h.alone thread₁ thread₂ pubId' newSeq₁ newSeq₂ (hcases _ _ _ hcall₁).2
          (hcases _ _ _ hcall₂).2

/-- A run whose calls come in turn lowers no entry and hands out no number twice. -/
theorem keepsSeqNos_of_inTurn (cfg : Config) (core : Core) (events : List (Moment × LockedStep κ))
    (h : Run.Always (step cfg) (InTurn cfg) events (idle core)) :
    Run.Always (step cfg) (LowersNone cfg) events (idle core) ∧
      (Run.state (step cfg) events (idle core)).returned.Nodup := by
  refine (keepsSeqNos_iff cfg core events).mpr ?_
  refine h.imp (I := fun s => Fresh cfg s ∧ Exclusive s) ⟨fresh_idle core, exclusive_idle core⟩ ?_ ?_
  · rintro e s ⟨hfresh, halone⟩ hturn
    exact ⟨hfresh.step (halone.writesAbove e), halone.step hfresh hturn⟩
  · rintro e s ⟨-, halone⟩ -
    exact halone.writesAbove e

/-- Two threads publish one after the other, and a merge of another node's entry comes
    between the steps of the second call. -/
def inTurn : List (Moment × LockedStep Bool) :=
  [(.atMs 0, .getSeqNo false EMPTY_NODE_ID), (.atMs 0, .updateSeqNo false),
    (.atMs 1, .getSeqNo true EMPTY_NODE_ID),
    (.atMs 1, .mergeStateVector (VersionVector.empty.set (.ofBytes [[98]]) 3 0)),
    (.atMs 2, .updateSeqNo true)]

theorem keepsSeqNos_of_inTurn_two :
    Run.Always (step { id := .ofBytes [[97]] }) (LowersNone { id := .ofBytes [[97]] }) inTurn
        (idle (Core.init { id := .ofBytes [[97]] } 0)) ∧
      (Run.state (step { id := .ofBytes [[97]] }) inTurn
        (idle (Core.init { id := .ofBytes [[97]] } 0))).returned.Nodup := by
  apply keepsSeqNos_of_inTurn
  refine ⟨?_, trivial, ?_, ?_, trivial, trivial⟩
  · exact fun _ => ⟨by decide, fun _ _ => by simp [idle]⟩
  · intro _
    refine ⟨by decide, ?_⟩
    -- the first call has returned
    have hidle : ∀ thread, (Run.state (step { id := .ofBytes [[97]] }) (inTurn.take 2)
        (idle (Core.init { id := .ofBytes [[97]] } 0))).pending thread = none := by
      decide
    intro thread newSeq hp
    cases (hidle thread).symm.trans hp
  · intro thread pubId newSeq hp
    have hall : ∀ thread, ((Run.state (step { id := .ofBytes [[97]] }) (inTurn.take 3)
        (idle (Core.init { id := .ofBytes [[97]] } 0))).pending thread).all fun call =>
          (VersionVector.empty.set (.ofBytes [[98]]) 3 0).get call.1 = 0 := by
      decide
    have hzero := of_decide_eq_true ((Option.all_eq_true _ _).mp (hall thread) _ hp)
    rw [hzero]
    exact UInt64.zero_le

/-- Two threads that read before either writes get the same number. -/
theorem not_keepsSeqNos :
    ¬∀ (κ : Type) [DecidableEq κ] (cfg : Config) (uninitialized : Int)
      (events : List (Moment × LockedStep κ)),
      (∀ e ∈ events, ∀ vvOther n, e.2 = .mergeStateVector vvOther → (vvOther.get n).toNat < 2 ^ 64 - 1) →
      Run.Always (step cfg) (LowersNone cfg) events (idle (Core.init cfg uninitialized)) ∧
        (Run.state (step cfg) events (idle (Core.init cfg uninitialized))).returned.Nodup := by
  intro h
  have hnodup := (h Bool { id := .ofBytes [[97]] } 0
    [(.atMs 0, .getSeqNo false EMPTY_NODE_ID), (.atMs 0, .getSeqNo true EMPTY_NODE_ID),
      (.atMs 1, .updateSeqNo false), (.atMs 1, .updateSeqNo true)] (by simp)).2
  exact absurd hnodup (by decide)

end Publishers

/-! ## One thread -/

namespace NodeEvent

variable {P : Platform} {cfg : Config} {h : History}

/-- A node that was just set up. -/
def initial (cfg : Config) (uninitialized : Int) : History :=
  (Core.init cfg uninitialized, [(Core.init cfg uninitialized).vv])

/-- If the event is a call of `publishData`, it returns a positive number above every value
    that the entry has had. -/
def ReturnsFresh (cfg : Config) (e : Moment × NodeEvent) (h : History) : Prop :=
  match e.2 with
  | .publishData id => 1 ≤ (Core.publishData cfg e.1 id h.1).2 ∧
      ∀ vv ∈ h.2, vv.get (Core.targetNode cfg id) < (Core.publishData cfg e.1 id h.1).2
  | _ => True

/-- If the event is a call of `publishData`, it finds the entry below the largest number. -/
def BelowLimit (cfg : Config) (e : Moment × NodeEvent) (h : History) : Prop :=
  match e.2 with
  | .publishData id => (h.1.vv.get (Core.targetNode cfg id)).toNat < 2 ^ 64 - 1
  | _ => True

/-- Nothing recorded is ahead of the vector, and no earlier vector is. -/
structure Monotone (h : History) : Prop where
  recordedBelow : Core.RecordedBelow h.1
  le : ∀ vv ∈ h.2, vv.knows ≤ h.1.vv.knows

theorem monotone_initial (cfg : Config) (uninitialized : Int) :
    Monotone (initial cfg uninitialized) where
  recordedBelow := Core.recordedBelow_init cfg uninitialized
  le := by simp [initial]

/-- A step that does not publish at the limit raises entries only. -/
theorem Monotone.next (hmono : Monotone h) {e : Moment × NodeEvent} (hlimit : BelowLimit cfg e h) :
    Monotone (NodeEvent.next P cfg e h) := by
  obtain ⟨m, e⟩ := e
  have hraise : Core.Raises cfg (e.toEvent cfg h.1) h.1 := by
    cases e with
    | publishData id =>
      have hlt := (Publishers.lt_add_one_iff _).mpr hlimit
      rw [← Publishers.nextSeqNo_eq] at hlt
      rwa [toEvent, Core.Raises, Core.getSeqNo, Publishers.targetNode_targetNode]
    | start | syncInterest vvOther face | retx => trivial
  have hknows : (NodeEvent.next P cfg (m, e) h).1.vv.knows = Core.knowsAfter cfg (e.toEvent cfg h.1) h.1 :=
    hmono.recordedBelow.knows_step m _
  have hle : h.1.vv.knows ≤ (NodeEvent.next P cfg (m, e) h).1.vv.knows := by
    apply le_of_le_of_eq _ hknows.symm
    cases e with
    | start | retx => exact le_rfl
    | syncInterest vvOther face => exact le_sup_left
    | publishData id =>
      rw [toEvent, Core.knowsAfter, le_update_iff]
      refine ⟨?_, fun _ _ => le_rfl⟩
      rw [Publishers.targetNode_targetNode]
      rw [toEvent, Core.Raises, Core.getSeqNo, Publishers.targetNode_targetNode] at hraise
      exact (UInt64.lt_iff_toNat_lt.mp hraise).le
  constructor
  · exact hmono.recordedBelow.step m _ hraise
  · intro vv hvv
    rcases List.mem_append.mp hvv with hvv | hvv
    · exact (hmono.le vv hvv).trans hle
    · rw [List.mem_singleton.mp hvv]
      exact le_rfl

/-- A run hands out fresh numbers only iff no call finds its entry at the largest number. -/
theorem returnsFresh_iff (P : Platform) (cfg : Config) (uninitialized : Int)
    (events : List (Moment × NodeEvent)) :
    Run.Always (next P cfg) (ReturnsFresh cfg) events (initial cfg uninitialized) ↔
      Run.Always (next P cfg) (BelowLimit cfg) events (initial cfg uninitialized) := by
  constructor
  · intro h
    apply h.imp (I := fun _ => True) trivial (fun _ _ _ _ => trivial)
    intro e h _ hfresh
    obtain ⟨m, e⟩ := e
    cases e with
    | publishData id =>
      -- at the limit the number returned would be zero
      have hpos : 1 ≤ Core.nextSeqNo cfg id h.1 := hfresh.1
      rw [Publishers.nextSeqNo_eq, UInt64.le_iff_toNat_le, UInt64.toNat_add, UInt64.toNat_one] at hpos
      have hlt := (h.1.vv.get (Core.targetNode cfg id)).toNat_lt
      change (h.1.vv.get (Core.targetNode cfg id)).toNat < 2 ^ 64 - 1
      omega
    | start | syncInterest vvOther face | retx => trivial
  · intro h
    apply h.imp (monotone_initial cfg uninitialized) (fun e h hmono hlimit => hmono.next hlimit)
    intro e h hmono hlimit
    obtain ⟨m, e⟩ := e
    cases e with
    | publishData id =>
      have hlt : h.1.vv.get (Core.targetNode cfg id) < Core.nextSeqNo cfg id h.1 := by
        rw [Publishers.nextSeqNo_eq, Publishers.lt_add_one_iff]
        exact hlimit
      rw [UInt64.lt_iff_toNat_lt] at hlt
      constructor
      · rw [UInt64.le_iff_toNat_le, UInt64.toNat_one]
        exact Nat.one_le_of_lt hlt
      · intro vv hvv
        rw [UInt64.lt_iff_toNat_lt]
        exact (hmono.le vv hvv _).trans_lt hlt
    | start | syncInterest vvOther face | retx => trivial

/-- A peer claims the largest number for node `a`, whose next publication gets zero. -/
theorem not_returnsFresh :
    ¬∀ (P : Platform) (cfg : Config) (uninitialized : Int) (events : List (Moment × NodeEvent)),
      Run.Always (next P cfg) (ReturnsFresh cfg) events (initial cfg uninitialized) := by
  intro h
  obtain ⟨-, hfresh, -⟩ := h .plain { id := .ofBytes [[97]] } 0
    [(.atMs 0, .syncInterest (VersionVector.empty.set (.ofBytes [[97]]) (.ofNat (2 ^ 64 - 1)) 0).wire 0),
      (.atMs 1, .publishData EMPTY_NODE_ID)]
  exact absurd hfresh.1 (by decide +kernel)

end NodeEvent

end Svs
