import Svs.Spec.Persistence

/-!
# Convergence

What a node has published when it stops publishing, every node knows from some time on:
timers, suppression and partial vectors together do not keep news back for ever.

## Key results

- `Execution.node`: a group runs as its nodes do
- `causal_traffic`: what a node hears has been sent
- `finite_contents`: the group sends finitely many vectors
- `group_converges`: the group agrees once publishing has stopped
-/

namespace Svs

/-- There are finitely many vectors with entries for finitely many nodes, without update times. -/
theorem VersionVector.finite_of_nodes {S : Set NodeID} (hS : S.Finite) :
    {vv : VersionVector | vv.lastUpdate = ∅ ∧ ∀ nid, vv.has nid = true → nid ∈ S}.Finite := by
  have := hS.to_subtype
  have hnumbers : Finite SeqNo :=
    Finite.of_injective (fun s : SeqNo => (⟨s.toNat, s.toNat_lt⟩ : Fin (2 ^ 64)))
      fun s s' h => UInt64.toNat_inj.mp (Fin.mk.inj h)
  -- the entries for the nodes determine the vector
  let entry (vv : VersionVector) (nid : S) : Option SeqNo := vv.map[nid.1]?
  refine Set.Finite.of_injOn (f := entry) (t := Set.univ) (fun _ _ => Set.mem_univ _) ?_ Set.finite_univ
  rintro ⟨map, lastUpdate⟩ ⟨hlast, hnodes⟩ ⟨map', lastUpdate'⟩ ⟨hlast', hnodes'⟩ heq
  obtain rfl : lastUpdate = ∅ := hlast
  obtain rfl : lastUpdate' = ∅ := hlast'
  have hnone : ∀ {vv : VersionVector} {nid : NodeID}, (vv.has nid = true → nid ∈ S) → nid ∉ S →
      vv.map[nid]? = none := by
    intro vv nid hmem hnid
    rw [← Option.not_isSome_iff_eq_none]
    intro hsome
    obtain ⟨s, hs⟩ := Option.isSome_iff_exists.mp hsome
    exact hnid (hmem ((has_iff vv nid).mpr ⟨s, hs⟩))
  congr 1
  apply Std.ExtTreeMap.ext_getElem?
  intro nid
  by_cases hnid : nid ∈ S
  · exact congrFun heq ⟨nid, hnid⟩
  · exact (hnone (hnodes nid) hnid).trans (hnone (hnodes' nid) hnid).symm

namespace Network

open Filter VersionVector
open Gossip (Packet)

variable {ι : Type*} [DecidableEq ι] {P : Platform} {cfg : ι → Config}

/-! ## Runs of the group -/

/-- What may happen is a transition of the group. -/
theorem step_perform (P : Platform) {s : Network ι} {a : Action ι} (h : a.Allowed cfg s) :
    Step P cfg s (perform P cfg s a) := by
  cases a with
  | publish i m => exact .publish i m h
  | fire i m e => exact .fire i m e h
  | deliver i m face p => exact .deliver i m face p h
  | lose rest => exact .lose rest h

/-- An action changes the core of a node as its input there does. -/
theorem cores_perform (P : Platform) (s : Network ι) (a : Action ι) (i : ι) :
    (perform P cfg s a).cores i =
      match a.input cfg s i with
      | none => s.cores i
      | some e => (Core.step P (cfg i) e.1 e.2 (s.cores i)).1 := by
  cases a with
  | lose rest => rfl
  | fire j m e =>
    by_cases hj : j = i
    · subst hj
      simp only [perform, Action.input, if_true, Function.update_self]
    · simp only [perform, Action.input, if_neg hj, Function.update_of_ne (Ne.symm hj)]
  | publish j m | deliver j m face p =>
    by_cases hj : j = i
    · subst hj
      simp only [perform, Action.input, if_true, Function.update_self]
      rfl
    · simp only [perform, Action.input, if_neg hj, Function.update_of_ne (Ne.symm hj)]

/-- Only a firing is a timer event of a node. -/
theorem Action.eq_fire_of_input {s : Network ι} {a : Action ι} {i : ι} {m : Moment} {e : Event}
    (h : a.input cfg s i = some (m, e)) (he : e = .start ∨ e = .retx) : a = .fire i m e := by
  cases a with
  | lose rest => cases h
  | fire j m' e' =>
    rw [Action.input, Option.ite_none_right_eq_some] at h
    obtain ⟨rfl, h⟩ := h
    obtain ⟨rfl, rfl⟩ := Prod.mk.inj (Option.some.inj h)
    rfl
  | publish j m' | deliver j m' face p =>
    rw [Action.input, Option.ite_none_right_eq_some] at h
    obtain ⟨-, rfl⟩ := Prod.mk.inj (Option.some.inj h.2)
    rcases he with h | h <;> cases h

namespace Execution

/-- One node of a group. -/
def node (ex : Execution P cfg) (i : ι) : Core.Execution P (cfg i) where
  core t := (ex.state t).cores i
  input t := (ex.action t).input cfg (ex.state t) i
  uninitialized := ex.uninitialized i
  core_zero := by rw [ex.state_zero, init]
  core_succ t :=
    (congrArg (fun s => s.cores i) (ex.state_succ t)).trans
      (cores_perform P (ex.state t) (ex.action t) i)

variable {ex : Execution P cfg} {i j : ι} {t : ℕ}

theorem step_state (ex : Execution P cfg) (t : ℕ) : Step P cfg (ex.state t) (ex.state (t + 1)) := by
  rw [ex.state_succ]
  exact step_perform P (ex.allowed t)

theorem reachable (ex : Execution P cfg) (t : ℕ) : Reachable P cfg (ex.state t) := by
  induction t with
  | zero =>
    rw [ex.state_zero]
    exact .init ex.uninitialized
  | succ t ih => exact ih.step (ex.step_state t)

/-! ## Traffic -/

/-- A vector that a node sends is one that it knows, with its own entry as it is. -/
theorem knows_of_sends (hid : ∀ i, (cfg i).id.isEmpty = false)
    (hlimit : ∀ i, (cfg i).stateVectorStrategy = .Full ∨ 1 ≤ (cfg i).maxStateVectorEntries)
    {p : Packet ι VersionVector} (h : ex.traffic.sends t i p) :
    p.content.knows ≤ ((ex.state (t + 1)).cores i).vv.knows := by
  obtain ⟨m, e, haction, hp⟩ := h
  have hallowed := ex.allowed t
  rw [haction] at hallowed
  have hnext : (ex.state (t + 1)).cores i = (Core.step P (cfg i) m e ((ex.state t).cores i)).1 := by
    rw [ex.state_succ, haction, perform]
    exact Function.update_self ..
  -- a firing from any state, that of `start` included
  have hfire : ∀ c : Core, p ∈ packets i (ex.state t).clock (Core.retxSyncInterest P (cfg i) m true 0 c).2 →
      p.content.knows ≤ (Core.retxSyncInterest P (cfg i) m true 0 c).1.vv.knows := by
    intro c hmem
    rcases Core.effects_retxSyncInterest P (cfg i) m (c := c) 0 with hnone | ⟨c', hsent, hc'⟩
    · rw [hnone] at hmem
      cases hmem
    · rw [hsent] at hmem
      obtain rfl := List.mem_singleton.mp hmem
      rw [← hc']
      exact (Core.knows_buildSyncVector (P := P) (m := m) (c := c') (hid i) (hlimit i)).1
  rw [hnext]
  rcases hallowed with rfl | rfl
  · exact hfire _ hp
  · exact hfire _ hp

/-- A packet in flight has been sent. -/
theorem exists_sends (ex : Execution P cfg) {p : Packet ι VersionVector}
    (hp : p ∈ (ex.state t).flight) : ∃ s k, ex.traffic.sends s k p := by
  induction t with
  | zero =>
    rw [ex.state_zero] at hp
    cases hp
  | succ t ih =>
    rw [ex.state_succ] at hp
    cases haction : ex.action t with
    | publish i m =>
      rw [haction] at hp
      exact ih hp
    | deliver i m face q =>
      rw [haction] at hp
      exact ih hp
    | lose rest =>
      have hallowed := ex.allowed t
      rw [haction] at hp hallowed
      exact ih (hallowed.subset hp)
    | fire i m e =>
      rw [haction] at hp
      rcases List.mem_append.mp hp with hp | hp
      · exact ih hp
      · exact ⟨t, i, m, e, haction, hp⟩

theorem causal_traffic (ex : Execution P cfg) : ex.traffic.Causal where
  sent t i p h := by
    obtain ⟨m, face, haction⟩ := h
    have hallowed := ex.allowed t
    rw [haction] at hallowed
    exact ex.exists_sends hallowed
  finite t := by
    cases haction : ex.action t with
    | fire i m e =>
      apply (List.finite_toSet (packets i (ex.state t).clock
        (Core.step P (cfg i) m e ((ex.state t).cores i)).2)).subset
      rintro p ⟨k, m', e', haction', hp⟩
      obtain ⟨rfl, rfl, rfl⟩ := Action.fire.inj (haction.symm.trans haction')
      exact hp
    | _ =>
      apply Set.finite_empty.subset
      rintro p ⟨k, m', e', haction', -⟩
      rw [haction] at haction'
      cases haction'

/-- A packet that a node sends is in flight, and has no update times. -/
theorem mem_flight_of_sends {p : Packet ι VersionVector} (h : ex.traffic.sends t i p) :
    p ∈ (ex.state (t + 1)).flight ∧ p.content.lastUpdate = ∅ := by
  obtain ⟨m, e, haction, hp⟩ := h
  rw [ex.state_succ, haction]
  refine ⟨List.mem_append_right _ hp, ?_⟩
  obtain ⟨effect, -, heffect⟩ := List.mem_filterMap.mp hp
  cases effect with
  | onUpdate info => cases heffect
  | expressInterest vv =>
    rw [← Option.some.inj heffect]
    rfl

/-- The group sends finitely many vectors. -/
theorem finite_contents [Finite ι] (hid : ∀ i, (cfg i).id.isEmpty = false)
    (hlimit : ∀ i, (cfg i).stateVectorStrategy = .Full ∨ 1 ≤ (cfg i).maxStateVectorEntries)
    (ex : Execution P cfg) : {vv | ∃ t k p, ex.traffic.sends t k p ∧ p.content = vv}.Finite := by
  apply (VersionVector.finite_of_nodes (Set.finite_range fun i => (cfg i).id)).subset
  rintro vv ⟨t, k, p, hsends, rfl⟩
  obtain ⟨hflight, hlast⟩ := mem_flight_of_sends hsends
  exact ⟨hlast, (has_id hid hlimit (ex.reachable (t + 1))).2 p hflight⟩

/-- What a node sends or hears, as traffic of the group. -/
theorem traffic_of_node {vv : VersionVector} (h : (ex.node i).Sends t vv ∨ (ex.node i).Hears t vv) :
    ∃ p : Packet ι VersionVector, (∀ nid, p.content.get nid = vv.get nid) ∧
      (ex.traffic.sends t i p ∨ ex.traffic.hears t i p) := by
  rcases h with ⟨e, hinput, hsent⟩ | ⟨m, face, hinput⟩
  · change (ex.action t).input cfg (ex.state t) i = some e at hinput
    change .expressInterest vv ∈ (Core.step P (cfg i) e.1 e.2 ((ex.state t).cores i)).2 at hsent
    cases haction : ex.action t with
    | lose rest => simp [haction, Action.input] at hinput
    | publish j m =>
      rw [haction, Action.input, Option.ite_none_right_eq_some] at hinput
      obtain ⟨-, hinput⟩ := hinput
      rw [← Option.some.inj hinput] at hsent
      cases hsent
    | deliver j m face p =>
      rw [haction, Action.input, Option.ite_none_right_eq_some] at hinput
      obtain ⟨-, hinput⟩ := hinput
      rw [← Option.some.inj hinput] at hsent
      have hnone := Core.processVector_sends P (cfg i) m p.content face ((ex.state t).cores i)
      have hmem : vv ∈ Core.sentVectors (Core.processVector P (cfg i) m p.content face
          ((ex.state t).cores i)).2 := List.mem_filterMap.mpr ⟨_, hsent, rfl⟩
      rw [hnone] at hmem
      cases hmem
    | fire j m e' =>
      rw [haction, Action.input, Option.ite_none_right_eq_some] at hinput
      obtain ⟨rfl, hinput⟩ := hinput
      obtain rfl := Option.some.inj hinput
      exact ⟨⟨j, vv.wire, (ex.state t).clock⟩, fun _ => rfl,
        Or.inl ⟨m, e', haction, List.mem_filterMap.mpr ⟨_, hsent, rfl⟩⟩⟩
  · change (ex.action t).input cfg (ex.state t) i = some _ at hinput
    have hallowed := ex.allowed t
    cases haction : ex.action t with
    | lose rest => simp [haction, Action.input] at hinput
    | publish j m' => simp [haction, Action.input] at hinput
    | fire j m' e' =>
      rw [haction, Action.input, Option.ite_none_right_eq_some] at hinput
      obtain ⟨-, hinput⟩ := hinput
      obtain ⟨-, rfl⟩ := Prod.mk.inj (Option.some.inj hinput)
      rw [haction] at hallowed
      rcases hallowed with h | h <;> cases h
    | deliver j m' face' p =>
      rw [haction, Action.input, Option.ite_none_right_eq_some] at hinput
      obtain ⟨rfl, hinput⟩ := hinput
      obtain ⟨-, hevent⟩ := Prod.mk.inj (Option.some.inj hinput)
      obtain ⟨rfl, -⟩ := Event.syncInterest.inj hevent
      exact ⟨p, fun _ => rfl, Or.inr ⟨m', face', haction⟩⟩

/-- A node that does not publish has no update. -/
theorem input_ne_updateSeqNo (h : ∀ m, ex.action t ≠ .publish i m) {m : Moment} {seq : SeqNo}
    {nid : NodeID} : (ex.node i).input t ≠ some (m, .updateSeqNo seq nid) := by
  intro hinput
  change (ex.action t).input cfg (ex.state t) i = some _ at hinput
  have hallowed := ex.allowed t
  cases haction : ex.action t with
  | lose rest => simp [haction, Action.input] at hinput
  | deliver j m' face p => simp [haction, Action.input] at hinput
  | publish j m' =>
    rw [haction, Action.input, Option.ite_none_right_eq_some] at hinput
    exact h m' (hinput.1 ▸ haction)
  | fire j m' e =>
    rw [haction, Action.input, Option.ite_none_right_eq_some] at hinput
    obtain ⟨-, rfl⟩ := Prod.mk.inj (Option.some.inj hinput.2)
    rw [haction] at hallowed
    rcases hallowed with h | h <;> cases h

/-! ## Agreement -/

section

variable (hinj : Function.Injective fun i => (cfg i).id) (hid : ∀ i, (cfg i).id.isEmpty = false)
  (hlimit : ∀ i, (cfg i).stateVectorStrategy = .Full ∨ 1 ≤ (cfg i).maxStateVectorEntries)

include hinj hid hlimit

/-- Nobody knows more than was published, and the publisher knows all of it. -/
theorem knows_le_published (ex : Execution P cfg) (t : ℕ) :
    (∀ i, ((ex.state t).cores i).vv.knows ≤ (ex.state t).published) ∧
      (∀ i, ((ex.state t).cores i).vv.knows (cfg i).id = (ex.state t).published (cfg i).id) ∧
      ∀ nid, nid ∉ Set.range (fun i => (cfg i).id) → (ex.state t).published nid = 0 := by
  have hinv := Gossip.inv_of_reachable hinj (abstract_reachable hid hlimit (ex.reachable t)).1
  exact ⟨hinv.know_le, hinv.own_eq, hinv.outside⟩

omit hinj in
/-- Nobody forgets. -/
theorem knows_mono (ex : Execution P cfg) (i : ι) :
    Monotone fun t => ((ex.state t).cores i).vv.knows := by
  apply monotone_nat_of_le_succ
  intro t
  exact (abstract_step hid hlimit (abstract_reachable hid hlimit (ex.reachable t)).2
    (ex.step_state t)).1.know_le i

/-- The entry of a node that publishes no more stays as it is, update time included. -/
theorem own_constant (ex : Execution P cfg) {T : ℕ}
    (hquiet : ∀ t ≥ T, ∀ m, ex.action t ≠ .publish i m) (ht : T ≤ t) :
    (ex.state t).published (cfg i).id = (ex.state T).published (cfg i).id ∧
      ((ex.state t).cores i).vv.getLastUpdate (cfg i).id =
        ((ex.state T).cores i).vv.getLastUpdate (cfg i).id := by
  induction t, ht using Nat.le_induction with
  | base => exact ⟨rfl, rfl⟩
  | succ t ht ih =>
    suffices hstep : (ex.state (t + 1)).published (cfg i).id = (ex.state t).published (cfg i).id ∧
        ((ex.state (t + 1)).cores i).vv.getLastUpdate (cfg i).id =
          ((ex.state t).cores i).vv.getLastUpdate (cfg i).id by
      exact ⟨hstep.1.trans ih.1, hstep.2.trans ih.2⟩
    obtain ⟨hrec, hallowed⟩ :=
      And.intro (abstract_reachable hid hlimit (ex.reachable t)).2 (ex.allowed t)
    obtain ⟨hknown, hown, -⟩ := ex.knows_le_published hinj hid hlimit t
    rw [ex.state_succ]
    cases haction : ex.action t with
    | lose rest => exact ⟨rfl, rfl⟩
    | publish j m =>
      have hj : j ≠ i := by
        rintro rfl
        exact hquiet t ht m haction
      -- somebody else publishes, under another id
      simp only [perform, Function.update_of_ne (Ne.symm hj),
        Function.update_of_ne fun heq => hj (hinj heq).symm, and_self]
    | fire j m e =>
      refine ⟨rfl, ?_⟩
      by_cases hj : j = i
      · subst hj
        have hstart : Core.RecordedBelow { (ex.state t).cores j with initialized := true } :=
          (hrec j).of_same rfl rfl
        rw [haction] at hallowed
        rcases hallowed with rfl | rfl
        · simp only [perform, Function.update_self, Core.step, hstart.retxSyncInterest_vv m 0]
        · simp only [perform, Function.update_self, Core.step, (hrec j).retxSyncInterest_vv m 0]
      · simp only [perform, Function.update_of_ne (Ne.symm hj)]
    | deliver j m face p =>
      refine ⟨rfl, ?_⟩
      by_cases hj : j = i
      · subst hj
        rw [haction] at hallowed
        have hinv := Gossip.inv_of_reachable hinj (abstract_reachable hid hlimit (ex.reachable t)).1
        have hle := (hinv.flight _ (List.mem_map_of_mem hallowed)).content_le (cfg j).id
        -- a vector in flight does not raise the entry of its publisher
        have hnot : ¬((ex.state t).cores j).vv.get (cfg j).id < p.content.get (cfg j).id := by
          rw [UInt64.lt_iff_toNat_lt, Nat.not_lt]
          exact hle.trans (hown j).ge
        simp only [perform, Function.update_self, Core.processVector_vv,
          (Core.raiseEntries_spec m _ p.content (cfg j).id).2.1, if_neg hnot]
      · simp only [perform, Function.update_of_ne (Ne.symm hj)]

variable [Finite ι] (hsmall : ∀ i, (cfg i).minSendInterval < 2 ^ 32)

include hsmall

/-- What a node has published when it publishes no more, every node knows from some time on. -/
theorem eventually_knows (ex : Execution P cfg) (htimely : ∀ i, (ex.node i).Timely)
    (hlossy : ex.traffic.FairLossy Packet.content) (hquiet : ∀ᶠ t in atTop, ∀ m, ex.action t ≠ .publish i m) (j : ι) :
    ∀ᶠ t in atTop, ((ex.state t).cores j).vv.knows (cfg i).id = (ex.state t).published (cfg i).id := by
  obtain ⟨T, hT⟩ := eventually_atTop.mp hquiet
  have hconstant := fun t (ht : t ≥ T) => ex.own_constant hinj hid hlimit hT ht
  have hown := fun t => (ex.knows_le_published hinj hid hlimit t).2.1 i
  let s := ((ex.state T).cores i).vv.get (cfg i).id
  have hs : ∀ t ≥ T, ((ex.state t).cores i).vv.get (cfg i).id = s := by
    intro t ht
    rw [← UInt64.toNat_inj]
    exact (hown t).trans ((hconstant t ht).1.trans (hown T).symm)
  -- the node keeps sending or hearing its entry, so every other node does
  have hown_eq : ∀ᶠ t in atTop, ((ex.state t).cores i).vv.get (cfg i).id = s ∧
      ((ex.state t).cores i).vv.getLastUpdate (cfg i).id =
        ((ex.state T).cores i).vv.getLastUpdate (cfg i).id :=
    eventually_atTop.mpr ⟨T, fun t ht => ⟨hs t ht, (hconstant t ht).2⟩⟩
  have htelling := Core.Execution.keeps_telling (htimely i) (hid i) (hlimit i) (hsmall i) hown_eq
    (hquiet.mono fun t ht m seq nid => input_ne_updateSeqNo ht)
  have hduty : ∃ᶠ t in atTop, ∃ p : Packet ι VersionVector,
      p.content ∈ {vv : VersionVector | s ≤ vv.get (cfg i).id} ∧
        (ex.traffic.sends t i p ∨ ex.traffic.hears t i p) := by
    refine htelling.mono ?_
    rintro t ⟨vv, hle, htraffic⟩
    obtain ⟨p, hp, htraffic⟩ := traffic_of_node htraffic
    refine ⟨p, ?_, htraffic⟩
    rwa [Set.mem_ofPred_eq, hp]
  have hspread := hlossy.spreads ex.causal_traffic (finite_contents hid hlimit ex) hduty j
  obtain ⟨t, ⟨p, hp, htraffic⟩, ht⟩ := (hspread.and_eventually (eventually_ge_atTop T)).exists
  have hlearned : p.content.knows ≤ ((ex.state (t + 1)).cores j).vv.knows := by
    rcases htraffic with hsends | ⟨m, face, haction⟩
    · exact knows_of_sends hid hlimit hsends
    · rw [ex.state_succ, haction, perform]
      simp only [Function.update_self, Core.processVector_vv, Core.knows_raiseEntries]
      exact le_sup_right
  -- and nobody forgets
  refine eventually_atTop.mpr ⟨t + 1, fun t' ht' => ?_⟩
  apply le_antisymm ((ex.knows_le_published hinj hid hlimit t').1 j _)
  calc (ex.state t').published (cfg i).id
      = s.toNat := by rw [(hconstant t' (by omega)).1, ← hown T]; rfl
    _ ≤ p.content.knows (cfg i).id := UInt64.le_iff_toNat_le.mp hp
    _ ≤ ((ex.state (t + 1)).cores j).vv.knows (cfg i).id := hlearned _
    _ ≤ ((ex.state t').cores j).vv.knows (cfg i).id := ex.knows_mono hid hlimit j ht' _

end

end Execution

/-! ## A run that converges -/

/-- The clocks in step `t`: later than in the step before, and the event of node `a` is due. -/
def tick (t : ℕ) (x : Network (Fin 2) × Int) : Moment :=
  { Moment.atMs 0 with
    currentTime := max x.2 ((x.1.cores ⟨0, Nat.two_pos⟩).retxEvent.getD 0) + 1
    now := 1000000000 * t }

/-- Node `a` publishes, both nodes start, and then the timer of `a` fires again and again, and
    the vector that it sends arrives at `b`. -/
def teller : ℕ → Network (Fin 2) × Int → Action (Fin 2)
  | 0, x => .publish ⟨0, Nat.two_pos⟩ (tick 0 x)
  | 1, x => .fire ⟨1, Nat.one_lt_two⟩ (tick 1 x) .start
  | 2, x => .fire ⟨0, Nat.two_pos⟩ (tick 2 x) .start
  | t + 3, x =>
    if t % 2 = 1 then .fire ⟨0, Nat.two_pos⟩ (tick (t + 3) x) .retx
    else
      match x.1.flight.getLast? with
      | some p => .deliver ⟨1, Nat.one_lt_two⟩ (tick (t + 3) x) 0 p
      | none => .lose x.1.flight

/-- The group with the time of its last step. -/
def telling : ℕ → Network (Fin 2) × Int
  | 0 => (init pair fun _ => 0, 0)
  | t + 1 => (perform .plain pair (telling t).1 (teller t (telling t)), (tick t (telling t)).currentTime)

theorem teller_fire_odd {t : ℕ} (hodd : t % 2 = 1) (x : Network (Fin 2) × Int) :
    teller (t + 3) x = .fire 0 (tick (t + 3) x) .retx := by
  rw [teller, if_pos hodd]
  rfl

theorem teller_deliver {t : ℕ} (hodd : ¬t % 2 = 1) {x : Network (Fin 2) × Int}
    {p : Packet (Fin 2) VersionVector} (hlast : x.1.flight.getLast? = some p) :
    teller (t + 3) x = .deliver 1 (tick (t + 3) x) 0 p := by
  rw [teller, if_neg hodd, hlast]
  rfl

theorem teller_allowed (t : ℕ) : (teller t (telling t)).Allowed pair (telling t).1 := by
  match t with
  | 0 => exact (by decide : Core.getSeqNo (pair 0) (pair 0).id (Core.init (pair 0) 0) <
      Core.nextSeqNo (pair 0) (pair 0).id (Core.init (pair 0) 0))
  | 1 => exact Or.inl rfl
  | 2 => exact Or.inl rfl
  | t + 3 =>
    rw [teller]
    split
    · exact Or.inr rfl
    · split
      · next p hp => exact List.mem_of_getLast? hp
      · exact List.Sublist.refl _

/-- The run of the group. -/
def tellingRun : Execution .plain pair where
  state t := (telling t).1
  action t := teller t (telling t)
  uninitialized _ := 0
  state_zero := rfl
  allowed := teller_allowed
  state_succ _ := rfl

theorem withinGap_pair (i : Fin 2) (m : Moment) (c : Core) : Core.withinGap (pair i) m c = false := by
  have hgap : Core.minGapUs (pair i) c = 0 := by
    rw [Core.minGapUs]
    exact if_neg fun h => lt_irrefl _ h.1
  rw [Core.withinGap, hgap, decide_eq_false_iff_not]
  exact fun h => lt_irrefl _ h.1

/-- What a node in steady state does when its timer fires. -/
theorem fire_pair (i : Fin 2) (m : Moment) {c : Core} (hrec : c.recordedVv = none)
    (hinit : c.initialized = true) :
    (Core.retxSyncInterest .plain (pair i) m true 0 c).1.recordedVv = none ∧
      (Core.retxSyncInterest .plain (pair i) m true 0 c).2 =
        [.expressInterest (Core.buildSyncVector .plain (pair i) m c).2] := by
  rw [Core.retxSyncInterest_pastGap _ _ m 0 (withinGap_pair i m c),
    Core.sendUnlessSuppressed_of_none _ _ m hrec, Core.sendSyncInterest_snd, if_pos hinit]
  exact ⟨(Core.sameWindow_sendSyncInterest .plain (pair i) m c).recordedVv.trans hrec, rfl⟩

/-- Both nodes stay in steady state, and what `a` has sent last is all that was published. -/
structure Told (t : ℕ) : Prop where
  steady : ∀ i, ((telling t).1.cores i).recordedVv = none
  started : 3 ≤ t → ((telling t).1.cores 0).initialized = true ∧
    ((telling t).1.cores 0).retxEvent ≠ none
  alone : ∀ nid, nid ≠ (pair 0).id → (telling t).1.published nid = 0
  sent : 3 ≤ t → t % 2 = 1 → ∃ vv, (telling t).1.flight.getLast? = some ⟨0, vv, t - 1⟩ ∧
    (telling t).1.published ≤ vv.knows

theorem clock_telling (t : ℕ) : (telling t).1.clock = t := by
  induction t with
  | zero => rfl
  | succ t ih =>
    rw [telling]
    cases teller t (telling t) <;> simp only [perform, ih]

theorem pair_hypotheses : (Function.Injective fun i => (pair i).id) ∧
    (∀ i, (pair i).id.isEmpty = false) ∧
    ∀ i, (pair i).stateVectorStrategy = .Full ∨ 1 ≤ (pair i).maxStateVectorEntries := by
  decide

/-- A firing of `a` puts all that was published in flight. -/
theorem told_fire {t : ℕ} (h : Told t) (e : Event)
    (haction : teller t (telling t) = .fire 0 (tick t (telling t)) e) (c : Core)
    (hcore : Core.step .plain (pair 0) (tick t (telling t)) e ((telling t).1.cores 0) =
      Core.retxSyncInterest .plain (pair 0) (tick t (telling t)) true 0 c)
    (hinit : c.initialized = true) (hvv : c.vv = ((telling t).1.cores 0).vv)
    (hrec : c.recordedVv = none) : Told (t + 1) := by
  obtain ⟨hinj, hid, hlimit⟩ := pair_hypotheses
  obtain ⟨hsteady, hsent⟩ := fire_pair 0 (tick t (telling t)) hrec hinit
  have hnext : (telling (t + 1)).1 = perform .plain pair (telling t).1 (.fire 0 (tick t (telling t)) e) := by
    rw [telling, haction]
  have hother : ∀ i, i ≠ 0 → (telling (t + 1)).1.cores i = (telling t).1.cores i := by
    intro i hi
    rw [hnext, perform]
    exact Function.update_of_ne hi _ _
  have hself : (telling (t + 1)).1.cores 0 =
      (Core.retxSyncInterest .plain (pair 0) (tick t (telling t)) true 0 c).1 := by
    simp only [hnext, perform, Function.update_self, hcore]
  constructor
  · intro i
    by_cases hi : i = 0
    · rw [hi, hself]
      exact hsteady
    · rw [hother i hi]
      exact h.steady i
  · intro _
    rw [hself]
    obtain ⟨_, _, _, _, _, _, _, _, _, _, hretx⟩ :=
      Core.retxSyncInterest_writes .plain (pair 0) (tick t (telling t)) 0 (c := c)
    refine ⟨by rw [hretx]; exact hinit, ?_⟩
    rw [(Core.schedules_retxSyncInterest .plain (pair 0) (tick t (telling t)) c c).1]
    exact Option.some_ne_none _
  · intro nid hnid
    rw [hnext]
    exact h.alone nid hnid
  · intro _ _
    refine ⟨(Core.buildSyncVector .plain (pair 0) (tick t (telling t)) c).2.wire, ?_, ?_⟩
    · rw [hnext, perform, hcore, hsent, clock_telling]
      exact List.getLast?_concat
    · obtain ⟨-, hown⟩ := Core.knows_buildSyncVector (P := .plain) (m := tick t (telling t)) (c := c)
        (hid 0) (hlimit 0)
      intro nid
      by_cases hnid : nid = (pair 0).id
      · subst hnid
        rw [hown, hvv, hnext]
        exact ((tellingRun.knows_le_published hinj hid hlimit t).2.1 0).ge
      · have hzero : (telling (t + 1)).1.published nid = 0 := by
          rw [hnext]
          exact h.alone nid hnid
        rw [hzero]
        exact Nat.zero_le _

/-- `b` hears what it knows already, or is told all of it. -/
theorem told_deliver {t : ℕ} (h : Told t) (ht : 3 ≤ t) (hodd : t % 2 = 1) {vv : VersionVector}
    (hle : (telling t).1.published ≤ vv.knows)
    (haction : teller t (telling t) = .deliver 1 (tick t (telling t)) 0 ⟨0, vv, t - 1⟩) :
    Told (t + 1) := by
  obtain ⟨hinj, hid, hlimit⟩ := pair_hypotheses
  have hnext : (telling (t + 1)).1 =
      perform .plain pair (telling t).1 (.deliver 1 (tick t (telling t)) 0 ⟨0, vv, t - 1⟩) := by
    rw [telling, haction]
  have hself : (telling (t + 1)).1.cores 1 =
      (Core.processVector .plain (pair 1) (tick t (telling t)) vv 0 ((telling t).1.cores 1)).1 := by
    simp only [hnext, perform, Function.update_self]
  have hother : ∀ i, i ≠ 1 → (telling (t + 1)).1.cores i = (telling t).1.cores i := by
    intro i hi
    rw [hnext, perform]
    exact Function.update_of_ne hi _ _
  constructor
  · intro i
    by_cases hi : i = 1
    · have hnew : (Core.receiveResult (pair 1) (tick t (telling t)) vv
          ((telling t).1.cores 1)).myVectorNew = false := by
        rw [← Bool.not_eq_true, Core.receiveResult, Core.myVectorNew_iff,
          (Core.sameSync_observePropagationFeedback _ _ _ _).vv]
        rintro ⟨nid, hlt, -⟩
        have hknown := ((tellingRun.knows_le_published hinj hid hlimit t).1 1).trans hle nid
        exact UInt64.not_lt.mpr (UInt64.le_iff_toNat_le.mpr hknown) hlt
      rw [hi, hself, Core.processVector_recordedVv, h.steady 1, hnew]
      rfl
    · rw [hother i hi]
      exact h.steady i
  · intro _
    rw [hother 0 (by decide)]
    exact h.started ht
  · intro nid hnid
    rw [hnext]
    exact h.alone nid hnid
  · omega

theorem told (t : ℕ) : Told t := by
  induction t with
  | zero => exact ⟨fun i => (Core.init_frame (pair i) 0).2.1, by omega, fun _ _ => rfl, by omega⟩
  | succ t ih =>
    match t with
    | 0 =>
      have hnext : (telling 1).1 = perform .plain pair (telling 0).1 (.publish 0 (tick 0 (telling 0))) := rfl
      refine ⟨fun i => ?_, by omega, fun nid hnid => ?_, by omega⟩
      · rw [hnext]
        by_cases hi : i = 0
        · subst hi
          simp only [perform, Function.update_self, Core.publishData]
          exact (Core.updateSeqNo_frame _ _ _ _).2.1.trans (ih.steady 0)
        · simp only [perform, Function.update_of_ne hi, ih.steady i]
      · rw [hnext]
        simp only [perform, Function.update_of_ne hnid, ih.alone nid hnid]
    | 1 =>
      have hnext : (telling 2).1 =
          perform .plain pair (telling 1).1 (.fire 1 (tick 1 (telling 1)) .start) := rfl
      refine ⟨fun i => ?_, by omega, fun nid hnid => ih.alone nid hnid, by omega⟩
      rw [hnext]
      by_cases hi : i = 1
      · subst hi
        have hrec : ∀ c : Core, (Core.retxSyncInterest .plain (pair 1) (tick 1 (telling 1)) true 0 c).1.recordedVv =
              c.recordedVv ∨
            (Core.retxSyncInterest .plain (pair 1) (tick 1 (telling 1)) true 0 c).1.recordedVv = none :=
          fun c => Core.retxSyncInterest_recordedVv 0 c
        simp only [perform, Function.update_self, Core.step]
        rcases hrec { (telling 1).1.cores 1 with initialized := true } with hsame | hnone
        · exact hsame.trans (ih.steady 1)
        · exact hnone
      · simp only [perform, Function.update_of_ne hi, ih.steady i]
    | 2 =>
      exact told_fire ih .start rfl { (telling 2).1.cores 0 with initialized := true } rfl rfl rfl
        (ih.steady 0)
    | t + 3 =>
      by_cases hodd : t % 2 = 1
      · exact told_fire ih .retx (teller_fire_odd hodd _) _ rfl (ih.started (by omega)).1 rfl
          (ih.steady 0)
      · obtain ⟨vv, hlast, hle⟩ := ih.sent (by omega) (by omega)
        exact told_deliver ih (by omega) (by omega) hle (teller_deliver hodd hlast)

/-- The clock that a step reads. -/
theorem currentTime_telling {t t' : ℕ} (h : t < t') :
    (tick t (telling t)).currentTime < (tick t' (telling t')).currentTime := by
  induction t', h using Nat.le_induction with
  | base => exact Int.lt_add_one_of_le (le_max_left _ _)
  | succ t' _ ih => exact ih.trans (Int.lt_add_one_of_le (le_max_left _ _))

theorem le_currentTime_telling (t : ℕ) : (t : Int) ≤ (tick t (telling t)).currentTime := by
  induction t with
  | zero => decide
  | succ t ih =>
    have hlt := currentTime_telling (Nat.lt_add_one t)
    push_cast
    omega

/-- When a timer fires in the run. -/
theorem teller_fire {t : ℕ} {x : Network (Fin 2) × Int} {i : Fin 2} {m : Moment} {e : Event}
    (h : teller t x = .fire i m e) :
    m = tick t x ∧ (i = 1 ∧ t = 1 ∧ e = .start ∨ i = 0 ∧ t = 2 ∧ e = .start ∨
      i = 0 ∧ 3 ≤ t ∧ t % 2 = 0 ∧ e = .retx) := by
  match t with
  | 0 => cases h
  | 1 =>
    obtain ⟨rfl, rfl, rfl⟩ := Action.fire.inj h
    exact ⟨rfl, Or.inl ⟨rfl, rfl, rfl⟩⟩
  | 2 =>
    obtain ⟨rfl, rfl, rfl⟩ := Action.fire.inj h
    exact ⟨rfl, Or.inr (Or.inl ⟨rfl, rfl, rfl⟩)⟩
  | t + 3 =>
    rw [teller] at h
    split at h
    · obtain ⟨rfl, rfl, rfl⟩ := Action.fire.inj h
      exact ⟨rfl, Or.inr (Or.inr ⟨rfl, by omega, by omega, rfl⟩)⟩
    · split at h <;> cases h

theorem teller_even {t : ℕ} (ht : 3 ≤ t) (heven : t % 2 = 0) (x : Network (Fin 2) × Int) :
    teller t x = .fire 0 (tick t x) .retx := by
  obtain ⟨t, rfl⟩ := Nat.exists_eq_add_of_le' ht
  exact teller_fire_odd (by omega) x

/-- `b` hears what `a` has sent last. -/
theorem teller_odd {t : ℕ} (ht : 3 ≤ t) (hodd : t % 2 = 1) {p : Packet (Fin 2) VersionVector}
    (hlast : (telling t).1.flight.getLast? = some p) :
    teller t (telling t) = .deliver 1 (tick t (telling t)) 0 p := by
  obtain ⟨t, rfl⟩ := Nat.exists_eq_add_of_le' ht
  exact teller_deliver (by omega) hlast

/-- What `b` hears was sent in the step before. -/
theorem hears_telling {t : ℕ} {i : Fin 2} {p : Packet (Fin 2) VersionVector}
    (h : tellingRun.traffic.hears t i p) : t = p.sentAt + 1 := by
  obtain ⟨m, face, haction⟩ := h
  change teller t (telling t) = .deliver i m face p at haction
  match t with
  | 0 | 1 | 2 => cases haction
  | t + 3 =>
    by_cases hodd : (t + 3) % 2 = 1
    · obtain ⟨vv, hlast, -⟩ := (told (t + 3)).sent (by omega) hodd
      rw [teller_odd (by omega) hodd hlast] at haction
      obtain ⟨-, -, -, rfl⟩ := Action.deliver.inj haction
      rfl
    · rw [teller_even (by omega) (by omega)] at haction
      cases haction

/-- What `a` sends is heard in the next step. -/
theorem sends_telling {t : ℕ} {p : Packet (Fin 2) VersionVector}
    (h : tellingRun.traffic.sends t 0 p) : tellingRun.traffic.hears (t + 1) 1 p := by
  obtain ⟨m, e, haction, hp⟩ := h
  obtain ⟨rfl, hwhen⟩ := teller_fire haction
  have hflight : (telling (t + 1)).1.flight = (telling t).1.flight ++
      packets 0 (telling t).1.clock (Core.step .plain (pair 0) (tick t (telling t)) e
        ((telling t).1.cores 0)).2 := by
    change teller t (telling t) = _ at haction
    rw [telling, haction]
    rfl
  -- a firing sends one packet at most
  have hlast : (telling (t + 1)).1.flight.getLast? = some p := by
    have hfire : ∀ c : Core, p ∈ packets 0 (telling t).1.clock
        (Core.retxSyncInterest .plain (pair 0) (tick t (telling t)) true 0 c).2 →
        packets 0 (telling t).1.clock
          (Core.retxSyncInterest .plain (pair 0) (tick t (telling t)) true 0 c).2 = [p] := by
      intro c hmem
      rcases Core.effects_retxSyncInterest .plain (pair 0) (tick t (telling t)) (c := c) 0 with
        hnone | ⟨c', hsent, -⟩
      · rw [hnone] at hmem
        cases hmem
      · rw [hsent] at hmem ⊢
        obtain rfl := List.mem_singleton.mp hmem
        rfl
    have hsingle : packets 0 (telling t).1.clock (Core.step .plain (pair 0) (tick t (telling t)) e
        ((telling t).1.cores 0)).2 = [p] := by
      rcases hwhen with ⟨h, -⟩ | ⟨-, -, rfl⟩ | ⟨-, -, -, rfl⟩
      · cases h
      · exact hfire _ hp
      · exact hfire _ hp
    rw [hflight, hsingle, List.getLast?_concat]
  have hodd : 3 ≤ t + 1 ∧ (t + 1) % 2 = 1 := by
    rcases hwhen with ⟨h, -⟩ | ⟨-, rfl, -⟩ | ⟨-, ht, heven, -⟩
    · cases h
    · decide
    · exact ⟨by omega, by omega⟩
  exact ⟨_, 0, teller_odd hodd.1 hodd.2 hlast⟩

theorem fairLossy_tellingRun : tellingRun.traffic.FairLossy Packet.content where
  loss k i hne x hsends := by
    by_cases hk : k = 0
    · subst hk
      obtain rfl := Fin.eq_one_of_ne_zero i (Ne.symm hne)
      rw [frequently_atTop] at hsends ⊢
      intro T
      obtain ⟨t, ht, p, hp, hsent⟩ := hsends T
      exact ⟨t + 1, by omega, p, hp, sends_telling hsent⟩
    · -- `b` sends once, when it starts
      obtain ⟨t, ht, p, -, m, e, haction, -⟩ := (frequently_atTop.mp hsends) 2
      obtain ⟨-, ⟨-, rfl, -⟩ | ⟨h, -⟩ | ⟨h, -⟩⟩ := teller_fire haction
      · omega
      · exact absurd h hk
      · exact absurd h hk
  duplication i p hheard := by
    obtain ⟨t, ht, hhears⟩ := (frequently_atTop.mp hheard) (p.sentAt + 2)
    have := hears_telling hhears
    omega

/-- A vector that is no news postpones the timer of `b`. -/
theorem retxEvent_telling {t : ℕ} (ht : 3 ≤ t) (hodd : t % 2 = 1) :
    ∃ τ, ((telling (t + 1)).1.cores 1).retxEvent = some τ ∧ (t : Int) ≤ τ := by
  obtain ⟨vv, hlast, -⟩ := (told t).sent ht hodd
  have hself : (telling (t + 1)).1.cores 1 =
      (Core.processVector .plain (pair 1) (tick t (telling t)) vv 0 ((telling t).1.cores 1)).1 := by
    simp only [telling, teller_odd ht hodd hlast, perform, Function.update_self]
  have hnew : (Core.receiveResult (pair 1) (tick t (telling t)) vv
      ((telling t).1.cores 1)).myVectorNew = false := by
    by_contra hnew
    have hrecorded := Core.processVector_recordedVv .plain (pair 1) (tick t (telling t)) vv 0
      (c := (telling t).1.cores 1)
    rw [← hself, (told (t + 1)).steady 1, (told t).steady 1, if_pos (by simpa using hnew)] at hrecorded
    cases hrecorded
  have hschedules := Core.schedules_processVector .plain (pair 1) (tick t (telling t)) vv 0
    ((telling t).1.cores 1)
  rw [Core.retxDelay, Core.retxCall, (told t).steady 1, hnew] at hschedules
  rw [hself]
  have hclock := le_currentTime_telling t
  exact ⟨_, hschedules.1, by omega⟩

/-- Every input of a node has the clocks of its step. -/
theorem input_telling {t : ℕ} {i : Fin 2} {e : Moment × Event}
    (h : (tellingRun.node i).input t = some e) : e.1 = tick t (telling t) := by
  change (teller t (telling t)).input pair (telling t).1 i = some e at h
  match t with
  | 0 | 1 | 2 =>
    exact congrArg Prod.fst (Option.some.inj (Option.ite_none_right_eq_some.mp h).2).symm
  | t + 3 =>
    by_cases hodd : (t + 3) % 2 = 1
    · obtain ⟨vv, hlast, -⟩ := (told (t + 3)).sent (by omega) hodd
      rw [teller_odd (by omega) hodd hlast] at h
      exact congrArg Prod.fst (Option.some.inj (Option.ite_none_right_eq_some.mp h).2).symm
    · rw [teller_even (by omega) (by omega)] at h
      exact congrArg Prod.fst (Option.some.inj (Option.ite_none_right_eq_some.mp h).2).symm

theorem timely_tellingRun (i : Fin 2) : (tellingRun.node i).Timely where
  due t m h := by
    obtain ⟨rfl, ⟨-, -, h⟩ | ⟨-, -, h⟩ | ⟨rfl, ht, -⟩⟩ :=
      teller_fire (Action.eq_fire_of_input h (Or.inr rfl))
    · cases h
    · cases h
    · obtain ⟨τ, hτ⟩ := Option.ne_none_iff_exists'.mp ((told t).started ht).2
      refine ⟨τ, hτ, ?_⟩
      show τ ≤ max (telling t).2 (((telling t).1.cores 0).retxEvent.getD 0) + 1
      rw [hτ]
      exact (le_max_right _ _).trans (Int.le_add_one le_rfl)
  fires t τ h := by
    by_cases hi : i = 0
    · -- the timer of `a` fires in every even step
      subst hi
      refine ⟨2 * t + 4, by omega, Or.inl ⟨tick (2 * t + 4) (telling (2 * t + 4)), ?_⟩⟩
      show (teller (2 * t + 4) (telling (2 * t + 4))).input pair _ 0 = _
      rw [teller_even (by omega) (by omega)]
      rfl
    · -- that of `b` is postponed again and again
      obtain rfl := Fin.eq_one_of_ne_zero i hi
      obtain ⟨τ', hτ', hle⟩ := retxEvent_telling (t := 2 * (t + τ.toNat) + 5) (by omega) (by omega)
      refine ⟨2 * (t + τ.toNat) + 6, by omega, Or.inr ?_⟩
      show ((telling (2 * (t + τ.toNat) + 6)).1.cores 1).retxEvent ≠ some τ
      rw [hτ']
      rintro ⟨⟩
      omega
  starts := by
    have hstart : ∀ t m, (tellingRun.node i).input t = some (m, .start) →
        i = 1 ∧ t = 1 ∨ i = 0 ∧ t = 2 := by
      intro t m h
      obtain ⟨-, ⟨hi, ht, -⟩ | ⟨hi, ht, -⟩ | ⟨-, -, -, h⟩⟩ :=
        teller_fire (Action.eq_fire_of_input h (Or.inl rfl))
      · exact Or.inl ⟨hi, ht⟩
      · exact Or.inr ⟨hi, ht⟩
      · cases h
    by_cases hi : i = 0
    · subst hi
      refine ⟨2, tick 2 (telling 2), rfl, fun t m h => ?_⟩
      rcases hstart t m h with ⟨h, -⟩ | ⟨-, h⟩
      · cases h
      · exact h
    · obtain rfl := Fin.eq_one_of_ne_zero i hi
      refine ⟨1, tick 1 (telling 1), rfl, fun t m h => ?_⟩
      rcases hstart t m h with ⟨-, h⟩ | ⟨h, -⟩
      · exact h
      · cases h
  steady t t' e e' hle h h' := by
    rw [input_telling h, input_telling h']
    rcases hle.eq_or_lt with rfl | hlt
    · exact le_rfl
    · exact (currentTime_telling hlt).le
  passes bound := by
    refine ⟨bound.toNat, fun t ht e h => ?_⟩
    rw [input_telling h]
    have hlate : ∀ b : Int, b.toNat ≤ t → b ≤ 1000000000 * t := by
      intro b hb
      omega
    exact hlate bound ht

end Network

end Svs
