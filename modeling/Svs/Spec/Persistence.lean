import Svs.Native.Execution
import Svs.Spec.Announcement
import Svs.Spec.NetworkAgreement
import Svs.Spec.NextSync
import Svs.Spec.SendGap

/-!
# A node never falls silent

A node that has published keeps sending vectors with its entry or keeps hearing them.  Only
a vector with the entry postpones its timer or suppresses its firing, once the entry is
older than the suppression time; so from silence there would follow two firings past the
minimum gap, and the second one sends.

## Key results

- `Silent.exists_pastGap`: a silent node fires past the gap again and again
- `keeps_telling`: a node sends or hears its own entry infinitely often
-/

namespace Svs.Core

open Filter VersionVector

variable {P : Platform} {cfg : Config} {m : Moment} {c : Core}

/-! ## One transition -/

/-- An entry that was updated more than 1200 milliseconds ago is not recent. -/
theorem updatedRecently_of_old (hwin : WindowBounded c) {nid : NodeID}
    (hold : c.vv.getLastUpdate nid + 1200000000 ≤ m.now) : updatedRecently m c nid = false := by
  have hlate : ∀ last now window : Int, last + 1200000000 ≤ now → window ≤ 1200 →
      ¬now - last < window * 1000000 := by
    intro last now window
    omega
  rw [updatedRecently, decide_eq_false_iff_not]
  exact hlate _ _ _ hold hwin.2

theorem withinGap_of_le (hcalm : Calm c)
    (hle : c.lastSyncTxUs + cfg.minSendInterval * 1000 ≤ m.currentTime) :
    withinGap cfg m c = false := by
  rw [withinGap, hcalm.minGapUs_eq, decide_eq_false_iff_not]
  omega

/-- A firing within the gap schedules the next one for the end of the gap or later. -/
theorem retxSyncInterest_withinGap_retxEvent (P : Platform) (hcalm : Calm c)
    (hsmall : cfg.minSendInterval < 2 ^ 32) (hlast : c.lastSyncTxUs ≤ m.currentTime)
    (hgap : withinGap cfg m c = true) :
    ∃ delay τ, retxSyncInterest P cfg m true 0 c = (scheduleRetx cfg m delay c, []) ∧
      (scheduleRetx cfg m delay c).retxEvent = some τ ∧
      c.lastSyncTxUs + cfg.minSendInterval * 1000 ≤ τ := by
  have hgap' := hgap
  rw [withinGap, hcalm.minGapUs_eq, decide_eq_true_eq] at hgap'
  let rest := (c.lastSyncTxUs + minGapUs cfg c - m.currentTime + 999).tdiv 1000
  have hrest : rest = (c.lastSyncTxUs + cfg.minSendInterval * 1000 - m.currentTime + 999) / 1000 := by
    rw [← Int.tdiv_eq_ediv_of_nonneg (by omega), ← hcalm.minGapUs_eq cfg]
  -- the rest is a whole number of milliseconds that an `unsigned int` holds
  have hdelay : (toUnsigned (max 1 rest) : Int) = rest := by
    rw [toUnsigned, max_eq_right (by omega), Int.toNat_of_nonneg (by omega),
      Int.emod_eq_of_lt (by omega) (by omega)]
  refine ⟨toUnsigned (max 1 rest), m.currentTime + 1000 * toUnsigned (max 1 rest), ?_, ?_, ?_⟩
  · rw [retxSyncInterest, if_pos rfl, if_pos hgap]
  · exact scheduleRetx_retxEvent cfg m (by omega)
  · omega

/-- A vector that is behind in an old entry does not reset the timer. -/
theorem processVector_of_behind (hwin : WindowBounded c) {vvOther : VersionVector} {nid : NodeID}
    (hbehind : vvOther.get nid < c.vv.get nid)
    (hold : c.vv.getLastUpdate nid + 1200000000 ≤ m.now) (face : UInt64) :
    match c.recordedVv with
    | some r =>
      (processVector P cfg m vvOther face c).1.recordedVv = some (raiseEntries m r vvOther) ∧
        (processVector P cfg m vvOther face c).1.retxEvent = c.retxEvent
    | none => (processVector P cfg m vvOther face c).1.recordedVv = some vvOther := by
  have hrecorded := processVector_recordedVv P cfg m vvOther face (c := c)
  cases hr : c.recordedVv with
  | some r =>
    rw [hr] at hrecorded
    refine ⟨hrecorded, ?_⟩
    rw [processVector_of_some P cfg m vvOther face hr]
    exact received_retxEvent cfg m vvOther
  | none =>
    have hvv := (sameSync_observePropagationFeedback cfg m c vvOther).vv
    have hnew : (receiveResult cfg m vvOther c).myVectorNew = true := by
      rw [receiveResult, myVectorNew_iff]
      refine ⟨nid, ?_, updatedRecently_of_old (hwin.observePropagationFeedback m vvOther) ?_⟩
      · rwa [hvv]
      · rwa [hvv]
    rw [hr, hnew, if_pos rfl] at hrecorded
    exact hrecorded

/-- Once `start` has set them, every step keeps `m_initialized` and an event pending. -/
theorem started_step (P : Platform) (cfg : Config) (m : Moment) (e : Event)
    (h : e = .start ∨ c.initialized = true ∧ c.retxEvent ≠ none) :
    (step P cfg m e c).1.initialized = true ∧ (step P cfg m e c).1.retxEvent ≠ none := by
  have hfire : ∀ c : Core, c.initialized = true →
      (retxSyncInterest P cfg m true 0 c).1.initialized = true ∧
        (retxSyncInterest P cfg m true 0 c).1.retxEvent ≠ none := by
    intro c hc
    obtain ⟨_, _, _, _, _, _, _, _, _, _, hretx⟩ := retxSyncInterest_writes P cfg m 0 (c := c)
    refine ⟨by rw [hretx]; exact hc, ?_⟩
    rw [(schedules_retxSyncInterest P cfg m c c).1]
    exact Option.some_ne_none _
  -- the other events keep the event or replace it
  have hevent : c.retxEvent ≠ none → (step P cfg m e c).1.retxEvent ≠ none := by
    intro hne
    have hschedules := schedules_step P cfg m e c
    cases hdelay : retxDelay P cfg m e c with
    | none =>
      rw [hdelay] at hschedules
      rwa [hschedules.1]
    | some delay =>
      rw [hdelay] at hschedules
      rw [hschedules.1]
      exact Option.some_ne_none _
  cases e with
  | start => exact hfire _ rfl
  | retx => exact hfire c (h.resolve_left (by simp)).1
  | updateSeqNo seq nid =>
    obtain ⟨hinit, hne⟩ := h.resolve_left (by simp)
    exact ⟨(updateSeqNo_frame cfg m seq nid).2.2.1.trans hinit, hevent hne⟩
  | syncInterest vv face =>
    obtain ⟨hinit, hne⟩ := h.resolve_left (by simp)
    refine ⟨?_, hevent hne⟩
    obtain ⟨_, _, _, hprocess⟩ := processVector_writes P cfg m vv face (c := c)
    have hreceived : (received cfg m vv c).initialized = c.initialized := by
      rw [received, (sameWindow_updateSyncInterval cfg m _ _).initialized, mergeStateVector_fst,
        (sameSync_observePropagationFeedback cfg m c vv).initialized]
    rw [step, hprocess]
    exact hreceived.trans hinit

namespace Execution

variable {ex : Execution P cfg} {s : SeqNo} {T : ℕ}

theorem calm (ex : Execution P cfg) (t : ℕ) : Calm (ex.core t) := by
  induction t with
  | zero =>
    rw [ex.core_zero]
    exact (calm_init cfg _).1
  | succ t ih =>
    rw [ex.core_succ]
    split
    · exact ih
    · exact ih.step P cfg _ _

theorem windowBounded (ex : Execution P cfg) (t : ℕ) : WindowBounded (ex.core t) := by
  induction t with
  | zero =>
    rw [ex.core_zero]
    exact windowBounded_init _
  | succ t ih =>
    rw [ex.core_succ]
    split
    · exact ih
    · exact ih.step P cfg _ _

theorem core_succ_of_input {t : ℕ} {e : Moment × Event} (h : ex.input t = some e) :
    ex.core (t + 1) = (step P cfg e.1 e.2 (ex.core t)).1 := by
  rw [ex.core_succ, h]

theorem core_succ_of_none {t : ℕ} (h : ex.input t = none) : ex.core (t + 1) = ex.core t := by
  rw [ex.core_succ, h]

/-- A transmission was made in an earlier step. -/
theorem lastSyncTxUs_le (htimely : ex.Timely) {t : ℕ} {e : Moment × Event}
    (he : ex.input t = some e) (hpos : 0 < (ex.core t).lastSyncTxUs) :
    (ex.core t).lastSyncTxUs ≤ e.1.currentTime := by
  -- the stored time is the reading of a step before
  have key : ∀ t, (ex.core t).lastSyncTxUs = 0 ∨
      ∃ t' < t, ∃ e, ex.input t' = some e ∧ (ex.core t).lastSyncTxUs = e.1.currentTime := by
    intro t
    induction t with
    | zero =>
      rw [ex.core_zero]
      exact Or.inl (calm_init cfg _).2
    | succ t ih =>
      have hbefore : (ex.core t).lastSyncTxUs = 0 ∨ ∃ t' < t + 1, ∃ e, ex.input t' = some e ∧
          (ex.core t).lastSyncTxUs = e.1.currentTime := by
        rcases ih with hzero | ⟨t', ht', hsent⟩
        · exact Or.inl hzero
        · exact Or.inr ⟨t', by omega, hsent⟩
      cases hinput : ex.input t with
      | none =>
        rw [core_succ_of_none hinput]
        exact hbefore
      | some e =>
        rw [core_succ_of_input hinput]
        rcases step_transmits P cfg e.1 e.2 (ex.core t) with ⟨-, hsame⟩ | ⟨-, -, hstored⟩
        · rw [hsame]
          exact hbefore
        · exact Or.inr ⟨t, Nat.lt_succ_self t, e, hinput, hstored⟩
  rcases key t with hzero | ⟨t', ht', e', he', hstored⟩
  · omega
  · rw [hstored]
    exact htimely.steady t' t e' e ht'.le he' he

/-! ## Silence -/

/-- From step `T` on the node has started, its own entry stays as it is and is old, and it
    neither sends nor hears the entry. -/
structure Silent (ex : Execution P cfg) (s : SeqNo) (T : ℕ) : Prop where
  started : ∀ t ≥ T, (ex.core t).initialized = true ∧ (ex.core t).retxEvent ≠ none ∧
    ∀ m, ex.input t ≠ some (m, .start)
  quiet : ∀ t ≥ T, ∀ m seq nid, ex.input t ≠ some (m, .updateSeqNo seq nid)
  own : ∀ t ≥ T, (ex.core t).vv.get cfg.id = s
  old : ∀ t ≥ T, ∀ e, ex.input t = some e →
    (ex.core t).vv.getLastUpdate cfg.id + 1200000000 ≤ e.1.now
  sends : ∀ t ≥ T, ∀ vv, ex.Sends t vv → vv.get cfg.id < s
  hears : ∀ t ≥ T, ∀ vv, ex.Hears t vv → vv.get cfg.id < s

/-- The timer fires past the minimum gap. -/
def PastGap (ex : Execution P cfg) (t : ℕ) : Prop :=
  ∃ m, ex.input t = some (m, .retx) ∧ withinGap cfg m (ex.core t) = false

theorem Silent.input_cases (h : ex.Silent s T) {t : ℕ} (ht : T ≤ t) {e : Moment × Event}
    (he : ex.input t = some e) :
    (∃ m, e = (m, .retx)) ∨ ∃ m vv face, e = (m, .syncInterest vv face) ∧ vv.get cfg.id < s := by
  obtain ⟨m, event⟩ := e
  cases event with
  | start => exact absurd he ((h.started t ht).2.2 m)
  | updateSeqNo seq nid => exact absurd he (h.quiet t ht m seq nid)
  | retx => exact Or.inl ⟨m, rfl⟩
  | syncInterest vv face => exact Or.inr ⟨m, vv, face, rfl, h.hears t ht vv ⟨m, face, he⟩⟩

/-- What a silent node sends would hold its own entry. -/
theorem Silent.not_sends (h : ex.Silent s T) (hid : cfg.id.isEmpty = false)
    (hlimit : cfg.stateVectorStrategy = .Full ∨ 1 ≤ cfg.maxStateVectorEntries) {t : ℕ} (ht : T ≤ t)
    {m : Moment} (hm : ex.input t = some (m, .retx)) :
    ¬∃ vv, .expressInterest vv ∈ (retxSyncInterest P cfg m true 0 (ex.core t)).2 := by
  rintro ⟨vv, hvv⟩
  have hsends : ex.Sends t vv := ⟨(m, .retx), hm, hvv⟩
  rcases effects_retxSyncInterest P cfg m (c := ex.core t) 0 with hnone | ⟨c', hsent, hc'⟩
  · rw [hnone] at hvv
    cases hvv
  · rw [hsent, List.mem_singleton, Effect.expressInterest.injEq] at hvv
    have hown := (knows_buildSyncVector (P := P) (m := m) (c := c') hid hlimit).2
    have hnext : (retxSyncInterest P cfg m true 0 (ex.core t)).1.vv = (ex.core (t + 1)).vv := by
      rw [core_succ_of_input hm]
      rfl
    rw [hc', hnext, ← hvv, VersionVector.knows, VersionVector.knows, get_wire,
      h.own (t + 1) (by omega), UInt64.toNat_inj] at hown
    exact UInt64.lt_irrefl s (hown ▸ h.sends t ht vv hsends)

/-- A firing past the gap finds the entry recorded, and ends the suppression. -/
theorem Silent.pastGap (h : ex.Silent s T) (hid : cfg.id.isEmpty = false)
    (hlimit : cfg.stateVectorStrategy = .Full ∨ 1 ≤ cfg.maxStateVectorEntries) {t : ℕ} (ht : T ≤ t)
    (hpast : ex.PastGap t) :
    (∃ r, (ex.core t).recordedVv = some r ∧ s ≤ r.get cfg.id) ∧
      (ex.core (t + 1)).recordedVv = none := by
  obtain ⟨m, hm, hgap⟩ := hpast
  have hsent := sent_iff (P := P) (h.started t ht).1 hgap 0
  constructor
  · by_contra hnot
    apply h.not_sends hid hlimit ht hm
    rw [hsent]
    intro r hr
    refine ⟨cfg.id, ?_, updatedRecently_of_old (ex.windowBounded t) (h.old t ht _ hm)⟩
    rw [h.own t ht]
    by_contra hge
    exact hnot ⟨r, hr, UInt64.not_lt.mp hge⟩
  · rw [core_succ_of_input hm]
    show (retxSyncInterest P cfg m true 0 (ex.core t)).1.recordedVv = none
    rw [retxSyncInterest_pastGap P cfg m 0 hgap]
    exact sendUnlessSuppressed_recordedVv P cfg m

/-- A received vector, which lacks the entry, is recorded.  Where one was recorded before,
    the timer stays as it is. -/
theorem Silent.hearing (h : ex.Silent s T) {t : ℕ} (ht : T ≤ t) {m : Moment} {vv : VersionVector}
    {face : UInt64} (hm : ex.input t = some (m, .syncInterest vv face)) :
    (ex.core (t + 1)).lastSyncTxUs = (ex.core t).lastSyncTxUs ∧
      match (ex.core t).recordedVv with
      | some r => (ex.core (t + 1)).recordedVv = some (raiseEntries m r vv) ∧
          (ex.core (t + 1)).retxEvent = (ex.core t).retxEvent
      | none => (ex.core (t + 1)).recordedVv = some vv := by
  have hnext := core_succ_of_input hm
  have hlt : vv.get cfg.id < (ex.core t).vv.get cfg.id := by
    rw [h.own t ht]
    exact h.hears t ht vv ⟨m, face, hm⟩
  constructor
  · rcases step_transmits P cfg m (.syncInterest vv face) (ex.core t) with ⟨-, hsame⟩ | ⟨⟨v, hv⟩, -⟩
    · rw [hnext]
      exact hsame
    · have hnone := processVector_sends P cfg m vv face (ex.core t)
      rw [Core.step, hnone] at hv
      cases hv
  · rw [hnext]
    exact processVector_of_behind (ex.windowBounded t) hlt (h.old t ht _ hm) face

/-! ## The timer of a silent node -/

/-- A vector is recorded, or none ever will be. -/
def Steadfast (ex : Execution P cfg) (t : ℕ) : Prop :=
  (ex.core t).recordedVv ≠ none ∨ ∀ t' ≥ t, (ex.core t').recordedVv = none

/-- A step that is no firing leaves the timer of a steadfast node alone. -/
theorem Silent.steadfast_step (h : ex.Silent s T) {t : ℕ} (ht : T ≤ t) (hsteadfast : ex.Steadfast t)
    (hfire : ∀ m, ex.input t ≠ some (m, .retx)) :
    (ex.core (t + 1)).retxEvent = (ex.core t).retxEvent ∧
      (ex.core (t + 1)).lastSyncTxUs = (ex.core t).lastSyncTxUs := by
  cases hinput : ex.input t with
  | none =>
    rw [core_succ_of_none hinput]
    exact ⟨rfl, rfl⟩
  | some e =>
    rcases h.input_cases ht hinput with ⟨m, rfl⟩ | ⟨m, vv, face, rfl, -⟩
    · exact absurd hinput (hfire m)
    · obtain ⟨hlast, hrecorded⟩ := h.hearing ht hinput
      rcases hsteadfast with hsome | hnone
      · obtain ⟨r, hr⟩ := Option.ne_none_iff_exists'.mp hsome
        rw [hr] at hrecorded
        exact ⟨hrecorded.2, hlast⟩
      · -- none is ever recorded, so nothing is heard
        rw [hnone t le_rfl] at hrecorded
        rw [hnone (t + 1) (by omega)] at hrecorded
        cases hrecorded

/-- Without firings past the gap a steadfast node stays so. -/
theorem Silent.steadfast_succ (h : ex.Silent s T) {t : ℕ} (ht : T ≤ t) (hpast : ¬ex.PastGap t)
    (hsteadfast : ex.Steadfast t) : ex.Steadfast (t + 1) := by
  rcases hsteadfast with hsome | hnone
  · left
    cases hinput : ex.input t with
    | none => rwa [core_succ_of_none hinput]
    | some e =>
      rcases h.input_cases ht hinput with ⟨m, rfl⟩ | ⟨m, vv, face, rfl, -⟩
      · -- the firing is within the gap, and moves the event only
        have hgap : withinGap cfg m (ex.core t) = true := by
          by_contra hgap
          exact hpast ⟨m, hinput, by simpa using hgap⟩
        obtain ⟨delay, hretx⟩ := retxSyncInterest_withinGap P cfg m (c := ex.core t) 0 hgap
        rw [core_succ_of_input hinput, Core.step, hretx]
        exact hsome
      · obtain ⟨r, hr⟩ := Option.ne_none_iff_exists'.mp hsome
        have hrecorded := (h.hearing ht hinput).2
        rw [hr] at hrecorded
        rw [hrecorded.1]
        exact Option.some_ne_none _
  · right
    intro t' ht'
    exact hnone t' (by omega)

/-- The next firing of a steadfast node is that of the pending event. -/
theorem Silent.exists_firing (h : ex.Silent s T) (htimely : ex.Timely)
    (hsteadfast : ∀ t ≥ T, ex.Steadfast t) {t : ℕ} (ht : T ≤ t) :
    ∃ t' ≥ t, (∃ m, ex.input t' = some (m, .retx)) ∧
      (ex.core t').retxEvent = (ex.core t).retxEvent ∧
      (ex.core t').lastSyncTxUs = (ex.core t).lastSyncTxUs := by
  -- up to the next firing the timer stays as it is
  have hstays : ∀ k, (∀ j < k, ∀ m, ex.input (t + j) ≠ some (m, .retx)) →
      (ex.core (t + k)).retxEvent = (ex.core t).retxEvent ∧
        (ex.core (t + k)).lastSyncTxUs = (ex.core t).lastSyncTxUs := by
    intro k
    induction k with
    | zero => exact fun _ => ⟨rfl, rfl⟩
    | succ k ih =>
      intro hnone
      obtain ⟨hevent, hlast⟩ := ih fun j hj => hnone j (by omega)
      obtain ⟨hevent', hlast'⟩ :=
        h.steadfast_step (by omega) (hsteadfast (t + k) (by omega)) (hnone k (by omega))
      exact ⟨hevent'.trans hevent, hlast'.trans hlast⟩
  have hfires : ∃ k, ∃ m, ex.input (t + k) = some (m, .retx) := by
    by_contra hnever
    push Not at hnever
    obtain ⟨τ, hτ⟩ := Option.ne_none_iff_exists'.mp (h.started t ht).2.1
    obtain ⟨t', ht', hfire⟩ := htimely.fires t τ hτ
    obtain ⟨k, rfl⟩ := Nat.exists_eq_add_of_le ht'
    rcases hfire with ⟨m, hm⟩ | hmoved
    · exact hnever k m hm
    · exact hmoved ((hstays k fun j _ => hnever j).1.trans hτ)
  classical
  obtain ⟨m, hm⟩ := Nat.find_spec hfires
  obtain ⟨hevent, hlast⟩ := hstays (Nat.find hfires) fun j hj m hjm => Nat.find_min hfires hj ⟨m, hjm⟩
  exact ⟨t + Nat.find hfires, by omega, ⟨m, hm⟩, hevent, hlast⟩

/-- A silent node fires past the gap again and again: at the latest the second firing from
    when it is steadfast on is past the gap. -/
theorem Silent.exists_pastGap (h : ex.Silent s T) (htimely : ex.Timely)
    (hsmall : cfg.minSendInterval < 2 ^ 32) {t₀ : ℕ} (ht₀ : T ≤ t₀) : ∃ t ≥ t₀, ex.PastGap t := by
  by_contra hnever
  push Not at hnever
  -- from some step on the node is steadfast
  obtain ⟨t₁, ht₁, hstart⟩ : ∃ t₁ ≥ t₀, ex.Steadfast t₁ := by
    by_cases hsome : ∃ t ≥ t₀, (ex.core t).recordedVv ≠ none
    · obtain ⟨t, ht, hne⟩ := hsome
      exact ⟨t, ht, Or.inl hne⟩
    · push Not at hsome
      exact ⟨t₀, le_rfl, Or.inr hsome⟩
  have hsteadfast : ∀ t ≥ t₁, ex.Steadfast t := by
    intro t ht
    induction t, ht using Nat.le_induction with
    | base => exact hstart
    | succ t ht ih => exact h.steadfast_succ (by omega) (hnever t (by omega)) ih
  have hlater : ex.Silent s t₁ :=
    ⟨fun t ht => h.started t (by omega), fun t ht => h.quiet t (by omega),
      fun t ht => h.own t (by omega), fun t ht => h.old t (by omega), fun t ht => h.sends t (by omega),
      fun t ht => h.hears t (by omega)⟩
  -- the first firing is within the gap, and schedules the next one for its end or later
  obtain ⟨t₂, ht₂, ⟨m₂, hm₂⟩, -⟩ := hlater.exists_firing htimely hsteadfast le_rfl
  have hgap : withinGap cfg m₂ (ex.core t₂) = true := by
    by_contra hgap
    exact hnever t₂ (by omega) ⟨m₂, hm₂, by simpa using hgap⟩
  have hpos : 0 < (ex.core t₂).lastSyncTxUs := by
    rw [withinGap, decide_eq_true_eq] at hgap
    exact hgap.2.1
  obtain ⟨delay, τ, hretx, hτ, hle⟩ := retxSyncInterest_withinGap_retxEvent P (ex.calm t₂) hsmall
    (lastSyncTxUs_le htimely hm₂ hpos) hgap
  have hnext : ex.core (t₂ + 1) = scheduleRetx cfg m₂ delay (ex.core t₂) := by
    rw [core_succ_of_input hm₂, Core.step, hretx]
  -- so the second one is past it
  obtain ⟨t₃, ht₃, ⟨m₃, hm₃⟩, hevent, hlast⟩ :=
    hlater.exists_firing htimely hsteadfast (t := t₂ + 1) (by omega)
  obtain ⟨τ', hτ', hdue⟩ := htimely.due t₃ m₃ hm₃
  rw [hevent, hnext, hτ, Option.some.injEq] at hτ'
  have hsame : (ex.core t₃).lastSyncTxUs = (ex.core t₂).lastSyncTxUs := by
    rw [hlast, hnext]
    rfl
  exact hnever t₃ (by omega) ⟨m₃, hm₃, withinGap_of_le (ex.calm t₃) (by omega)⟩

/-- No node is silent for ever. -/
theorem not_silent (htimely : ex.Timely) (hid : cfg.id.isEmpty = false)
    (hlimit : cfg.stateVectorStrategy = .Full ∨ 1 ≤ cfg.maxStateVectorEntries)
    (hsmall : cfg.minSendInterval < 2 ^ 32) : ¬ex.Silent s T := by
  intro h
  obtain ⟨t₁, ht₁, hfirst⟩ := h.exists_pastGap htimely hsmall le_rfl
  -- what is recorded after the first firing lacks the entry
  have hlacks : ∀ t ≥ t₁ + 1, ∀ r, (ex.core t).recordedVv = some r → r.get cfg.id < s := by
    intro t ht
    induction t, ht using Nat.le_induction with
    | base =>
      rw [(h.pastGap hid hlimit ht₁ hfirst).2]
      intro r hr
      cases hr
    | succ t ht ih =>
      intro r hr
      cases hinput : ex.input t with
      | none =>
        rw [core_succ_of_none hinput] at hr
        exact ih r hr
      | some e =>
        rcases h.input_cases (by omega) hinput with ⟨m, rfl⟩ | ⟨m, vv, face, rfl, hlt⟩
        · rw [core_succ_of_input hinput] at hr
          have hrecorded : (retxSyncInterest P cfg m true 0 (ex.core t)).1.recordedVv = (ex.core t).recordedVv ∨
              (retxSyncInterest P cfg m true 0 (ex.core t)).1.recordedVv = none :=
            retxSyncInterest_recordedVv 0 (ex.core t)
          rcases hrecorded with hsame | hnone
          · exact ih r (hsame ▸ hr)
          · rw [Core.step, hnone] at hr
            cases hr
        · have hrecorded := (h.hearing (by omega) hinput).2
          cases hbefore : (ex.core t).recordedVv with
          | none =>
            rw [hbefore] at hrecorded
            rw [hrecorded] at hr
            exact Option.some.inj hr ▸ hlt
          | some r' =>
            rw [hbefore] at hrecorded
            rw [hrecorded.1] at hr
            rw [← Option.some.inj hr, (raiseEntries_spec m r' vv cfg.id).1]
            split
            · exact hlt
            · exact ih r' hbefore
  obtain ⟨t₂, ht₂, hsecond⟩ := h.exists_pastGap htimely hsmall (show T ≤ t₁ + 1 by omega)
  obtain ⟨⟨r, hr, hle⟩, -⟩ := h.pastGap hid hlimit (by omega) hsecond
  exact UInt64.not_lt.mpr hle (hlacks t₂ ht₂ r hr)

/-- The node has started for good. -/
theorem eventually_started (htimely : ex.Timely) :
    ∀ᶠ t in atTop, (ex.core t).initialized = true ∧ (ex.core t).retxEvent ≠ none ∧
      ∀ m, ex.input t ≠ some (m, .start) := by
  obtain ⟨t₀, m₀, hstart, honce⟩ := htimely.starts
  rw [eventually_atTop]
  refine ⟨t₀ + 1, fun t ht => ?_⟩
  have hlater : ∀ m, ex.input t ≠ some (m, .start) := by
    intro m hm
    have := honce t m hm
    omega
  -- a step keeps what `start` has set
  have hkept : (ex.core t).initialized = true ∧ (ex.core t).retxEvent ≠ none := by
    clear hlater
    induction t, ht using Nat.le_induction with
    | base =>
      rw [core_succ_of_input hstart]
      exact started_step P cfg m₀ .start (Or.inl rfl)
    | succ t ht ih =>
      cases hinput : ex.input t with
      | none => rwa [core_succ_of_none hinput]
      | some e =>
        rw [core_succ_of_input hinput]
        exact started_step P cfg e.1 e.2 (Or.inr ih)
  exact ⟨hkept.1, hkept.2, hlater⟩

/-- A node that has published, and does so no more, sends or hears its own entry infinitely
    often. -/
theorem keeps_telling (htimely : ex.Timely) (hid : cfg.id.isEmpty = false)
    (hlimit : cfg.stateVectorStrategy = .Full ∨ 1 ≤ cfg.maxStateVectorEntries)
    (hsmall : cfg.minSendInterval < 2 ^ 32) {updated : TimePoint}
    (hown : ∀ᶠ t in atTop, (ex.core t).vv.get cfg.id = s ∧
      (ex.core t).vv.getLastUpdate cfg.id = updated)
    (hquiet : ∀ᶠ t in atTop, ∀ m seq nid, ex.input t ≠ some (m, .updateSeqNo seq nid)) :
    ∃ᶠ t in atTop, ∃ vv, s ≤ vv.get cfg.id ∧ (ex.Sends t vv ∨ ex.Hears t vv) := by
  intro hnever
  obtain ⟨T, hT⟩ := htimely.passes (updated + 1200000000)
  have hall := ((eventually_started htimely).and (hown.and hquiet)).and
    ((eventually_ge_atTop T).and hnever)
  obtain ⟨T', hT'⟩ := eventually_atTop.mp hall
  refine not_silent (s := s) (T := T') htimely hid hlimit hsmall ?_
  refine ⟨fun t ht => (hT' t ht).1.1, fun t ht => (hT' t ht).1.2.2, fun t ht => (hT' t ht).1.2.1.1,
    ?_, ?_, ?_⟩
  · intro t ht e he
    rw [(hT' t ht).1.2.1.2]
    exact hT t (hT' t ht).2.1 e he
  · intro t ht vv hvv
    by_contra hge
    exact (hT' t ht).2.2 ⟨vv, UInt64.not_lt.mp hge, Or.inl hvv⟩
  · intro t ht vv hvv
    by_contra hge
    exact (hT' t ht).2.2 ⟨vv, UInt64.not_lt.mp hge, Or.inr hvv⟩

end Execution

end Svs.Core
