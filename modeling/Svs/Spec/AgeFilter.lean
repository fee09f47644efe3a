import Svs.Spec.MalformedMapping

/-!
# The age filter

`processMapping` subtracts the time of a publication from the local clock on `unsigned
long`.  A time stamp from a clock that runs ahead makes the difference wrap around, so
that the newest publications count as very old ones.

## Key results

- `tooOld_eq`: the check of the time stamps, where all of them are numbers
- `misjudged_iff_of_fits`: with a limit that fits into 64 bits only the future is misjudged
- `filtersByAge_iff`: when the filter drops what is really too old, and nothing else
-/

namespace Svs

namespace PubSub

variable {cfg : PubSubConfig} {now pubTime : UInt64} {block : Block} {blocks : List Block} {p : Publication}
  {s : PubSub} {mapping : MappingEntryPair}

/-- The times that the time stamps among the blocks tell. -/
def pubTimes (blocks : List Block) : List UInt64 :=
  blocks.filterMap fun block =>
    if block.type = tlv.TimestampNameComponent then Codec.packetFormat.readNonNegativeInteger block
    else none

/-- `maxAge`: the limit in microseconds, on `unsigned long`. -/
def maxAge (maxPubAge : Int) : UInt64 := UInt64.ofInt (maxPubAge * 1000)

/-- The publication is really more than `maxPubAge` older than the local clock. -/
def ReallyOld (maxPubAge : Int) (now pubTime : UInt64) : Prop :=
  maxPubAge * 1000 < (now.toNat : Int) - pubTime.toNat

/-- The publication time lies in the future, but not so far that the difference wraps
    around into the limit; or the limit has wrapped around itself. -/
def Misjudged (maxPubAge : Int) (now pubTime : UInt64) : Prop :=
  (now < pubTime ∧ (maxAge maxPubAge).toNat + pubTime.toNat < now.toNat + 2 ^ 64) ∨
    (pubTime ≤ now ∧ (maxAge maxPubAge).toNat + pubTime.toNat < now.toNat ∧
      (now.toNat : Int) - pubTime.toNat ≤ maxPubAge * 1000)

instance (maxPubAge : Int) (now pubTime : UInt64) : Decidable (ReallyOld maxPubAge now pubTime) :=
  inferInstanceAs (Decidable (_ < _))

instance (maxPubAge : Int) (now pubTime : UInt64) : Decidable (Misjudged maxPubAge now pubTime) :=
  inferInstanceAs (Decidable (_ ∨ _))

/-- What the mapping's time stamps have to do with the publication being queued. -/
structure FiltersByAge (cfg : PubSubConfig) (now : UInt64) (p : Publication)
    (mapping : MappingEntryPair) (s : PubSub) : Prop where
  /-- What is dropped because of its age is really too old. -/
  dropped : expired cfg now mapping.blocks = .ok true →
    ∃ pubTime ∈ pubTimes mapping.blocks, ReallyOld cfg.opts.maxPubAge now pubTime
  /-- What is not too old is queued for every subscription that matches. -/
  queued : (∀ pubTime ∈ pubTimes mapping.blocks, ¬ReallyOld cfg.opts.maxPubAge now pubTime) →
    ∃ q s', processMapping cfg now p s = .ok (q, s') ∧
      s'.subscribers p = s.subscribers p ++
        s.prefixSubscriptions.filter fun sub => sub.pref.isPrefixOf mapping.name

/-! ## The check of the time stamps -/

theorem pubTimes_cons_of_type (htype : block.type = tlv.TimestampNameComponent)
    (hread : Codec.packetFormat.readNonNegativeInteger block = some pubTime) :
    pubTimes (block :: blocks) = pubTime :: pubTimes blocks := by
  rw [pubTimes, List.filterMap_cons, if_pos htype, hread]
  rfl

theorem pubTimes_cons_of_ne (htype : block.type ≠ tlv.TimestampNameComponent) :
    pubTimes (block :: blocks) = pubTimes blocks := by
  rw [pubTimes, List.filterMap_cons, if_neg htype]
  rfl

/-- Where every time stamp is a number, the loop looks for one whose difference to the
    clock exceeds the limit. -/
theorem tooOld_eq (maxPubAge : Int) (now : UInt64)
    (hread : ∀ block ∈ blocks, ¬UnreadableStamp block) :
    tooOld maxPubAge now blocks =
      .ok ((pubTimes blocks).any fun pubTime => maxAge maxPubAge < now - pubTime) := by
  induction blocks with
  | nil => rfl
  | cons block blocks ih =>
    rw [List.forall_mem_cons] at hread
    rw [tooOld, ih hread.2]
    by_cases htype : block.type = tlv.TimestampNameComponent
    · rw [if_neg (not_not_intro htype)]
      cases hblock : Codec.packetFormat.readNonNegativeInteger block with
      | none => exact absurd ⟨htype, hblock⟩ hread.1
      | some pubTime =>
        rw [pubTimes_cons_of_type htype hblock, List.any_cons]
        show (if now - pubTime > maxAge maxPubAge then Except.ok true else _) = _
        by_cases hold : maxAge maxPubAge < now - pubTime
        · rw [if_pos hold, decide_eq_true hold, Bool.true_or]
        · rw [if_neg hold, decide_eq_false hold, Bool.false_or]
    · rw [if_pos htype, pubTimes_cons_of_ne htype]

/-- Of the times that are not really too old, the check finds those that are misjudged. -/
theorem maxAge_lt_sub_iff {maxPubAge : Int} (hold : ¬ReallyOld maxPubAge now pubTime) :
    maxAge maxPubAge < now - pubTime ↔ Misjudged maxPubAge now pubTime := by
  rw [ReallyOld, not_lt] at hold
  have hnow := now.toNat_lt
  have hpub := pubTime.toNat_lt
  rw [UInt64.lt_iff_toNat_lt, UInt64.toNat_sub, Misjudged, UInt64.lt_iff_toNat_lt,
    UInt64.le_iff_toNat_le]
  rcases Nat.lt_or_ge now.toNat pubTime.toNat with hahead | hbehind
  · -- the difference wraps around
    have hmod : (2 ^ 64 - pubTime.toNat + now.toNat) % 2 ^ 64 = 2 ^ 64 - pubTime.toNat + now.toNat :=
      Nat.mod_eq_of_lt (by omega)
    have hnot : ¬pubTime.toNat ≤ now.toNat := not_le.mpr hahead
    rw [hmod, and_iff_right hahead, or_iff_left fun h => hnot h.1]
    omega
  · have hmod : (2 ^ 64 - pubTime.toNat + now.toNat) % 2 ^ 64 = now.toNat - pubTime.toNat := by
      rw [show 2 ^ 64 - pubTime.toNat + now.toNat = (now.toNat - pubTime.toNat) + 2 ^ 64 by omega,
        Nat.add_mod_right, Nat.mod_eq_of_lt (by omega)]
    have hnot : ¬now.toNat < pubTime.toNat := not_lt.mpr hbehind
    rw [hmod, or_iff_right fun h => hnot h.1, and_iff_right hbehind, and_iff_left hold]
    omega

/-- With a limit that fits into 64 bits only the future is misjudged. -/
theorem misjudged_iff_of_fits {maxPubAge : Int} (hpos : 0 < maxPubAge)
    (hfits : maxPubAge * 1000 < 2 ^ 64) :
    Misjudged maxPubAge now pubTime ↔
      now < pubTime ∧ maxPubAge * 1000 < now.toNat + 2 ^ 64 - pubTime.toNat := by
  have hlimit : ((maxAge maxPubAge).toNat : Int) = maxPubAge * 1000 := by
    have hmod : maxPubAge * 1000 % 2 ^ 64 = maxPubAge * 1000 := Int.emod_eq_of_lt (by omega) hfits
    rw [maxAge, UInt64.ofInt, hmod, UInt64.toNat_ofNat', Nat.mod_eq_of_lt (by omega),
      Int.toNat_of_nonneg (by omega)]
  have hpub := pubTime.toNat_lt
  have hpast : ¬((maxAge maxPubAge).toNat + pubTime.toNat < now.toNat ∧
      (now.toNat : Int) - pubTime.toNat ≤ maxPubAge * 1000) := by
    omega
  rw [Misjudged, UInt64.lt_iff_toNat_lt, UInt64.le_iff_toNat_le, or_iff_left fun h => hpast h.2]
  omega

/-! ## The filter -/

theorem subscribers_foldl_queue (subs : List Subscription) (p : Publication) (s : PubSub) :
    (subs.foldl (queue p) s).subscribers p = s.subscribers p ++ subs := by
  induction subs generalizing s with
  | nil => exact (List.append_nil _).symm
  | cons sub subs ih =>
    have hqueue : (s.queue p sub).subscribers p = s.subscribers p ++ [sub] := by
      simp [subscribers, queue]
    rw [List.foldl_cons, ih, hqueue, List.append_assoc, List.singleton_append]

/-- A mapping that is kept is queued for every subscription that matches. -/
theorem processMapping_of_kept (hmapping : s.mappings.getMapping p = some mapping)
    (hkept : expired cfg now mapping.blocks = .ok false) :
    ∃ q s', processMapping cfg now p s = .ok (q, s') ∧
      s'.subscribers p = s.subscribers p ++
        s.prefixSubscriptions.filter fun sub => sub.pref.isPrefixOf mapping.name := by
  have hprocess : processMapping cfg now p s =
      (expired cfg now mapping.blocks).bind fun old => if old then .ok (false, s) else
        .ok (!(s.prefixSubscriptions.filter fun sub => sub.pref.isPrefixOf mapping.name).isEmpty,
          (s.prefixSubscriptions.filter fun sub =>
            sub.pref.isPrefixOf mapping.name).foldl (queue p) s) := by
    rw [processMapping, hmapping]
    rfl
  rw [hprocess, hkept]
  exact ⟨_, _, rfl, subscribers_foldl_queue _ p s⟩

/-- The filter is right about a mapping just when some time stamp is really too old or
    none is misjudged. -/
theorem filtersByAge_iff (hage : 0 < cfg.opts.maxPubAge)
    (hmapping : s.mappings.getMapping p = some mapping)
    (hread : ∀ block ∈ mapping.blocks, ¬UnreadableStamp block) :
    FiltersByAge cfg now p mapping s ↔
      (∃ pubTime ∈ pubTimes mapping.blocks, ReallyOld cfg.opts.maxPubAge now pubTime) ∨
        ∀ pubTime ∈ pubTimes mapping.blocks, ¬Misjudged cfg.opts.maxPubAge now pubTime := by
  have hexpired : expired cfg now mapping.blocks = .ok ((pubTimes mapping.blocks).any fun pubTime =>
      maxAge cfg.opts.maxPubAge < now - pubTime) := by
    rw [expired, if_pos hage, tooOld_eq _ _ hread]
  rw [or_iff_not_imp_left]
  constructor
  · intro h hold pubTime hmem hmis
    have hnot : ¬ReallyOld cfg.opts.maxPubAge now pubTime := fun h => hold ⟨pubTime, hmem, h⟩
    -- a misjudged time stamp drops the publication
    refine hold (h.dropped ?_)
    rw [hexpired, Except.ok.injEq, List.any_eq_true]
    exact ⟨pubTime, hmem, decide_eq_true ((maxAge_lt_sub_iff hnot).mpr hmis)⟩
  · intro h
    constructor
    case dropped =>
      intro hdrop
      by_contra hold
      rw [hexpired, Except.ok.injEq, List.any_eq_true] at hdrop
      obtain ⟨pubTime, hmem, hlt⟩ := hdrop
      have hnot : ¬ReallyOld cfg.opts.maxPubAge now pubTime := fun h => hold ⟨pubTime, hmem, h⟩
      exact h hold pubTime hmem ((maxAge_lt_sub_iff hnot).mp (of_decide_eq_true hlt))
    case queued =>
      intro hold
      have hkept : expired cfg now mapping.blocks = .ok false := by
        rw [hexpired, Except.ok.injEq, List.any_eq_false]
        intro pubTime hmem hlt
        have hyoung : ¬∃ t ∈ pubTimes mapping.blocks, ReallyOld cfg.opts.maxPubAge now t := by
          rintro ⟨t, ht, h⟩
          exact hold t ht h
        refine h hyoung pubTime hmem ?_
        exact (maxAge_lt_sub_iff (hold pubTime hmem)).mp (of_decide_eq_true hlt)
      exact processMapping_of_kept hmapping hkept

/-- A mapping from a clock that is a second ahead of the reader's. -/
def aheadMapping : MappingEntryPair where
  name := .ofBytes [[120]]
  blocks := [timestampBlock 1700000001000000]

theorem pubTimes_aheadMapping : pubTimes aheadMapping.blocks = [1700000001000000] := by decide

/-- The subscription matches the mapping's name `/x`. -/
def aheadSubscription : Subscription where
  id := 1
  pref := .ofBytes [[120]]
  callback := ⟨0, false⟩
  isPacketSubscription := false
  prefetch := false

/-- A node that knows the mapping, and has the subscription. -/
def aheadNode : PubSub where
  subscriptionCount := 1
  registrations := 1
  prefixSubscriptions := [aheadSubscription]
  mappings := (∅ : MappingStore).insertMapping .packetFormat (.ofBytes [[97]]) 1 aheadMapping

/-- With a limit of ten seconds, a publication that is a second ahead is dropped. -/
theorem not_filtersByAge :
    ¬∀ (cfg : PubSubConfig) (now : UInt64) (p : Publication) (mapping : MappingEntryPair)
      (s : PubSub), 0 < cfg.opts.maxPubAge → s.mappings.getMapping p = some mapping →
      (∀ block ∈ mapping.blocks, ¬UnreadableStamp block) → FiltersByAge cfg now p mapping s := by
  intro h
  have hfilters := h ⟨{ maxPubAge := 10000 }, {}, fun _ => none⟩ 1700000000000000
    ⟨.ofBytes [[97]], 1⟩ aheadMapping aheadNode (by decide) (by decide) (by
      intro block hblock hunreadable
      obtain rfl := List.mem_singleton.mp hblock
      exact absurd hunreadable.2 (by decide))
  obtain ⟨pubTime, hmem, hold⟩ := hfilters.dropped (by decide)
  rw [pubTimes_aheadMapping, List.mem_singleton] at hmem
  rw [hmem] at hold
  exact absurd hold (by decide)

/-- Two seconds later the same publication is queued. -/
theorem filtersByAge_later :
    FiltersByAge ⟨{ maxPubAge := 10000 }, {}, fun _ => none⟩ 1700000002000000 ⟨.ofBytes [[97]], 1⟩
        aheadMapping aheadNode ∧
      ∃ q s', processMapping ⟨{ maxPubAge := 10000 }, {}, fun _ => none⟩ 1700000002000000
          ⟨.ofBytes [[97]], 1⟩ aheadNode = .ok (q, s') ∧
        s'.subscribers ⟨.ofBytes [[97]], 1⟩ = [aheadSubscription] := by
  have hfilters : FiltersByAge ⟨{ maxPubAge := 10000 }, {}, fun _ => none⟩ 1700000002000000
      ⟨.ofBytes [[97]], 1⟩ aheadMapping aheadNode := by
    refine (filtersByAge_iff (by decide) (by decide) ?_).mpr (.inr ?_)
    · intro block hblock hunreadable
      obtain rfl := List.mem_singleton.mp hblock
      exact absurd hunreadable.2 (by decide)
    · rw [pubTimes_aheadMapping, List.forall_mem_singleton]
      decide
  refine ⟨hfilters, hfilters.queued ?_⟩
  rw [pubTimes_aheadMapping, List.forall_mem_singleton]
  decide

end PubSub

end Svs
