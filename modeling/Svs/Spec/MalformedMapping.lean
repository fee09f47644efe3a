import Svs.ForStd.List
import Svs.Native.MappingQuery
import Svs.Spec.StoredMappings
import Svs.Spec.UpdateActions

/-!
# Malformed mapping data

Extra data is decoded in a `try`, a mapping reply is not: what the decoder throws, and
what `processMapping` throws at a time stamp, leaves the callback of the Data.

## Key results

- `decode_ok_iff`: the blocks that are mapping lists
- `tooOld_ok_iff`: the time stamps that can be checked
- `rejectedAtomically_iff`: the inputs that let nothing escape
-/

namespace Svs

open Std

namespace MappingList

/-! ## Decoding -/

/-- The entry has two elements at least, an integer and a name in front. -/
def ReadableEntry (entry : Block) : Prop :=
  ∃ first second rest, Codec.packetFormat.elements entry.value = some (first :: second :: rest) ∧
    (∃ seqNo, Codec.packetFormat.readNonNegativeInteger first = some seqNo) ∧
    ∃ name, Codec.packetFormat.decodeName second = some name

/-- Names and entries are readable; other elements are skipped. -/
def ReadableElement (element : Block) : Prop :=
  (element.type = tlv.Name → ∃ name, Codec.packetFormat.decodeName element = some name) ∧
    (element.type = tlv.MappingEntry → ReadableEntry element)

/-- The value is a sequence of blocks, and each of them is readable. -/
def Readable (block : Block) : Prop :=
  ∃ elements, Codec.packetFormat.elements block.value = some elements ∧
    ∀ element ∈ elements, ReadableElement element

theorem decodeEntry_ok_iff (entry : Block) :
    (∃ x, decodeEntry .packetFormat entry = .ok x) ↔ ReadableEntry entry := by
  rw [ReadableEntry]
  cases helements : Codec.packetFormat.elements entry.value with
  | none => simp [decodeEntry, helements, bind, Except.bind]
  | some elements =>
    rcases elements with _ | ⟨first, _ | ⟨second, rest⟩⟩
    · simp [decodeEntry, helements, bind, Except.bind]
    · cases hseqNo : Codec.packetFormat.readNonNegativeInteger first <;>
        simp [decodeEntry, helements, bind, Except.bind, hseqNo]
    · cases hseqNo : Codec.packetFormat.readNonNegativeInteger first <;>
        cases hname : Codec.packetFormat.decodeName second <;>
          simp [decodeEntry, helements, bind, Except.bind, hseqNo, hname, pure, Except.pure]

theorem decodeElement_ok_iff (list : MappingList) (element : Block) :
    (∃ list', decodeElement .packetFormat list element = .ok list') ↔ ReadableElement element := by
  have hne : tlv.MappingEntry ≠ tlv.Name := by decide
  rw [decodeElement, ReadableElement]
  split
  · next hname =>
    cases hdecode : Codec.packetFormat.decodeName element <;>
      simp [hname, hne.symm, bind, Except.bind, pure, Except.pure]
  · next hname =>
    split
    · next hentry =>
      rw [← decodeEntry_ok_iff]
      cases hdecode : decodeEntry .packetFormat element <;>
        simp [hentry, hne, bind, Except.bind, pure, Except.pure]
    · next hentry => simp [hname, hentry, pure, Except.pure]

/-- The decoder accepts what is readable. -/
theorem decode_ok_iff (block : Block) :
    (∃ list, decode .packetFormat block = .ok list) ↔ Readable block := by
  rw [decode, Readable]
  cases Codec.packetFormat.elements block.value with
  | none => simp [bind, Except.bind]
  | some elements =>
    have hfold := List.foldlM_ok_iff_forall decodeElement_ok_iff elements {}
    simpa [bind, Except.bind] using hfold

end MappingList

namespace PubSub

variable {cfg : PubSubConfig} {now : UInt64} {s : PubSub}

/-! ## Time stamps -/

/-- A time stamp that is not a number. -/
def UnreadableStamp (block : Block) : Prop :=
  block.type = tlv.TimestampNameComponent ∧ Codec.packetFormat.readNonNegativeInteger block = none

/-- A time stamp that is too old. -/
def StaleStamp (maxPubAge : Int) (now : UInt64) (block : Block) : Prop :=
  block.type = tlv.TimestampNameComponent ∧
    ∃ pubTime, Codec.packetFormat.readNonNegativeInteger block = some pubTime ∧
      UInt64.ofInt (maxPubAge * 1000) < now - pubTime

/-- Unreadable time stamps come after one that is too old only. -/
def StampsReadable (maxPubAge : Int) (now : UInt64) (blocks : List Block) : Prop :=
  ∀ before block after, blocks = before ++ block :: after → UnreadableStamp block →
    ∃ b ∈ before, StaleStamp maxPubAge now b

theorem stampsReadable_cons_iff {maxPubAge : Int} {block : Block} {blocks : List Block} :
    StampsReadable maxPubAge now (block :: blocks) ↔ ¬UnreadableStamp block ∧
      (StaleStamp maxPubAge now block ∨ StampsReadable maxPubAge now blocks) := by
  constructor
  · intro h
    refine ⟨fun hun => ?_, or_iff_not_imp_left.mpr ?_⟩
    · obtain ⟨b, hb, -⟩ := h [] block blocks rfl hun
      exact List.not_mem_nil hb
    · intro hfresh before b after heq hun
      obtain ⟨b', hb', hstale⟩ := h (block :: before) b after (by rw [heq, List.cons_append]) hun
      rcases List.mem_cons.mp hb' with rfl | hb'
      · exact absurd hstale hfresh
      · exact ⟨b', hb', hstale⟩
  · rintro ⟨hread, hblocks⟩ before b after heq hun
    cases before with
    | nil =>
      obtain ⟨rfl, -⟩ := List.cons.inj heq
      exact absurd hun hread
    | cons b' before =>
      obtain ⟨rfl, hrest⟩ := List.cons.inj heq
      rcases hblocks with hstale | hblocks
      · exact ⟨block, List.mem_cons_self, hstale⟩
      · obtain ⟨b', hb', hstale⟩ := hblocks before b after hrest hun
        exact ⟨b', List.mem_cons_of_mem _ hb', hstale⟩

/-- The check of the time stamps returns where it finds one that is too old, or can read
    them all. -/
theorem tooOld_ok_iff (maxPubAge : Int) (now : UInt64) (blocks : List Block) :
    (∃ old, tooOld maxPubAge now blocks = .ok old) ↔ StampsReadable maxPubAge now blocks := by
  induction blocks with
  | nil => simp [tooOld, StampsReadable]
  | cons block blocks ih =>
    rw [stampsReadable_cons_iff, ← ih, tooOld]
    split
    · next htype => simp [UnreadableStamp, StaleStamp, htype]
    · next htype =>
      rw [not_not] at htype
      cases hread : Codec.packetFormat.readNonNegativeInteger block with
      | none => simp [UnreadableStamp, htype, hread, bind, Except.bind]
      | some pubTime =>
        by_cases hold : UInt64.ofInt (maxPubAge * 1000) < now - pubTime <;>
          simp [UnreadableStamp, StaleStamp, htype, hread, hold, bind, Except.bind, -UInt64.ofInt_mul]

/-- The mapping can be processed. -/
def Checkable (cfg : PubSubConfig) (now : UInt64) (mapping : MappingEntryPair) : Prop :=
  0 < cfg.opts.maxPubAge → StampsReadable cfg.opts.maxPubAge now mapping.blocks

theorem expired_ok_iff (cfg : PubSubConfig) (now : UInt64) (mapping : MappingEntryPair) :
    (∃ old, expired cfg now mapping.blocks = .ok old) ↔ Checkable cfg now mapping := by
  rw [expired, Checkable]
  split
  · next hage =>
    rw [tooOld_ok_iff]
    exact ⟨fun h _ => h, fun h => h hage⟩
  · next hage => simp [hage]

theorem processMapping_ok_iff (p : Publication) (s : PubSub) :
    (∃ r, processMapping cfg now p s = .ok r) ↔
      ∃ mapping, s.mappings.getMapping p = some mapping ∧ Checkable cfg now mapping := by
  rw [processMapping]
  cases s.mappings.getMapping p with
  | none => simp
  | some mapping =>
    simp only [← expired_ok_iff, Option.some.injEq, exists_eq_left']
    cases expired cfg now mapping.blocks with
    | error e => simp [bind, Except.bind]
    | ok old => cases old <;> simp [bind, Except.bind, pure, Except.pure]

/-! ## The callbacks -/

/-- What a node receives about mappings. -/
inductive MappingInput
  /-- The `MappingData` block of a Sync Interest. -/
  | extraData (block : Block)
  /-- The Data that a request ends with. -/
  | reply (info : MissingDataInfo) (data : Data)

/-- The list in it. -/
def MappingInput.list : MappingInput → Decoded MappingList
  | .extraData block => MappingList.decode .packetFormat block
  | .reply _ data => decodeReply data

/-- The callback for the input: the state it leaves, and the exception that escapes it. -/
def receiveMapping (cfg : PubSubConfig) (now : UInt64) (input : MappingInput) (s : PubSub) :
    PubSub × Option Exception :=
  match input with
  | .extraData block => (s.onRecvExtraData block, none)
  | .reply info data => s.onDataValidated cfg now info data

theorem onMappingList_fst (streamName : NodeID) (pairs : List (SeqNo × MappingEntryPair))
    (queued : Bool) (s : PubSub) :
    (onMappingList cfg now streamName pairs queued s).1 =
      processMappings cfg now streamName pairs queued s := by
  induction pairs generalizing queued s with
  | nil => rfl
  | cons x pairs ih =>
    rw [onMappingList, processMappings]
    cases processMapping cfg now ⟨streamName, x.1⟩ s with
    | error e => rfl
    | ok r => exact ih _ _

/-- The states are those that the steps of a run lead to. -/
theorem receiveMapping_fst (input : MappingInput) (s : PubSub) :
    (receiveMapping cfg now input s).1 = match input with
      | .extraData block => s.onRecvExtraData block
      | .reply info data => s.onMappingData cfg now info data := by
  cases input with
  | extraData block => rfl
  | reply info data =>
    have hlist : mappingListOf data = (decodeReply data).toOption := by
      rw [mappingListOf, decodeReply]
      cases blockFromValue data.content <;> rfl
    simp only [receiveMapping, onDataValidated, onMappingData, hlist]
    cases decodeReply data with
    | error e => rfl
    | ok list => exact onMappingList_fst _ _ _ _

/-- No exception escapes, and where the list does not decode nothing changes. -/
structure RejectedAtomically (cfg : PubSubConfig) (now : UInt64) (input : MappingInput) (s : PubSub) :
    Prop where
  escaped : (receiveMapping cfg now input s).2 = none
  mappings : (¬∃ list, input.list = .ok list) →
    (receiveMapping cfg now input s).1.mappings = s.mappings
  fetchMap : (¬∃ list, input.list = .ok list) →
    (receiveMapping cfg now input s).1.fetchMap = s.fetchMap
  fetchingMap : (¬∃ list, input.list = .ok list) →
    (receiveMapping cfg now input s).1.fetchingMap = s.fetchingMap

/-- The mapping that the store has for a publication after a list from the publication's
    node: the one it had, else the first one in the list. -/
def mappingAfter (s : PubSub) (list : MappingList) (p : Publication) : Option MappingEntryPair :=
  (s.mappings.getMapping p).or (MappingList.firstEntry list.pairs p.seqNo)

/-- Extra data always; a reply whose content is one block, and a readable list, such that
    the time stamps of the mappings it names can be checked. -/
def Digestible (cfg : PubSubConfig) (now : UInt64) (s : PubSub) : MappingInput → Prop
  | .extraData _ => True
  | .reply info data =>
    (∃ block, blockFromValue data.content = some block ∧ MappingList.Readable block) ∧
      ∀ list, decodeReply data = .ok list → ∀ x ∈ list.pairs, ∀ mapping,
        s.mappingAfter list ⟨info.nodeId, x.1⟩ = some mapping → Checkable cfg now mapping

/-- No exception escapes the loop over a list just when all its mappings can be
    processed. -/
theorem onMappingList_snd_iff (streamName : NodeID) (pairs : List (SeqNo × MappingEntryPair))
    (queued : Bool) (s : PubSub) :
    (onMappingList cfg now streamName pairs queued s).2 = none ↔ ∀ x ∈ pairs, ∃ mapping,
      s.mappings.getMapping ⟨streamName, x.1⟩ = some mapping ∧ Checkable cfg now mapping := by
  induction pairs generalizing queued s with
  | nil => simp [onMappingList]
  | cons x pairs ih =>
    rw [onMappingList, List.forall_mem_cons, ← processMapping_ok_iff]
    cases hprocess : processMapping cfg now ⟨streamName, x.1⟩ s with
    | error e => simp
    | ok r =>
      -- processing a mapping leaves the store as it is
      dsimp only
      rw [ih, (performs_processMapping hprocess).frame.mappings]
      simp

theorem decodeReply_ok_iff (data : Data) :
    (∃ list, decodeReply data = .ok list) ↔
      ∃ block, blockFromValue data.content = some block ∧ MappingList.Readable block := by
  rw [decodeReply]
  cases blockFromValue data.content with
  | none => simp [bind, Except.bind]
  | some block => simp [← MappingList.decode_ok_iff, bind, Except.bind]

theorem onDataValidated_snd_iff (info : MissingDataInfo) (data : Data) (s : PubSub) :
    (s.onDataValidated cfg now info data).2 = none ↔ Digestible cfg now s (.reply info data) := by
  rw [Digestible, ← decodeReply_ok_iff, onDataValidated]
  cases decodeReply data with
  | error e => simp
  | ok list =>
    simp only [Except.ok.injEq, exists_eq', true_and, forall_eq', onMappingList_snd_iff,
      MappingStore.getMapping_addMappings, if_true, mappingAfter]
    refine forall₂_congr fun x hx => ?_
    -- the store has a mapping for each number in the list
    have hsome : MappingList.firstEntry list.pairs x.1 ≠ none := by
      rw [Ne, MappingList.firstEntry_eq_none_iff, not_not]
      exact List.mem_map_of_mem hx
    obtain ⟨entry, hentry⟩ := Option.ne_none_iff_exists'.mp hsome
    rw [hentry]
    cases s.mappings.getMapping ⟨info.nodeId, x.1⟩ <;> simp

/-- An input is rejected atomically just when it is digestible. -/
theorem rejectedAtomically_iff (cfg : PubSubConfig) (now : UInt64) (input : MappingInput)
    (s : PubSub) : RejectedAtomically cfg now input s ↔ Digestible cfg now s input := by
  have hunchanged : (¬∃ list, input.list = .ok list) → (receiveMapping cfg now input s).1 = s := by
    intro hmalformed
    cases input with
    | extraData block =>
      cases hdecode : MappingList.decode .packetFormat block with
      | ok list => exact absurd ⟨list, hdecode⟩ hmalformed
      | error e => simp [receiveMapping, onRecvExtraData, MappingStore.onRecvExtraData, hdecode]
    | reply info data =>
      cases hdecode : decodeReply data with
      | ok list => exact absurd ⟨list, hdecode⟩ hmalformed
      | error e => simp [receiveMapping, onDataValidated, hdecode]
  have hescaped : (receiveMapping cfg now input s).2 = none ↔ Digestible cfg now s input := by
    cases input with
    | extraData block => simp [receiveMapping, Digestible]
    | reply info data => exact onDataValidated_snd_iff info data s
  rw [← hescaped]
  constructor
  · exact RejectedAtomically.escaped
  · intro hnone
    refine ⟨hnone, ?_, ?_, ?_⟩ <;> exact fun h => by rw [hunchanged h]

/-- A reply without content throws through the callback. -/
theorem not_rejectedAtomically :
    ¬∀ cfg now input s, RejectedAtomically cfg now input s := by
  intro h
  have hescaped := (h ⟨{}, {}, fun _ => none⟩ 0 (.reply ⟨.ofBytes [[97]], 1, 1, 0⟩ { name := ⟨[]⟩ })
    { subscriptionCount := 0 }).escaped
  exact absurd hescaped (by decide)

end PubSub

end Svs
