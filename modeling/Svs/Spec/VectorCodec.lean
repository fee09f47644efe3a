import Svs.Spec.MalformedInterest
import Svs.Spec.TlvRoundTrip

/-!
# The codec of state vectors

What `VersionVector(const Block&)` accepts and what it makes of it, and that it reads
back what `VersionVector::encode` writes.

## Key results

- `decode_getElem?`: a decoded vector has for each name its last entry
- `decode_ok_iff`, `decode_outOfRange_iff`: what the decoder accepts and what it throws
- `followsGrammar_iff`: the blocks on which it follows its grammar
- `encode_eq_wire`: `encode` writes a well-formed block
- `encode_roundTrip`: the round trip
-/

namespace Svs

open VersionVector

/-! ## Decoding -/

section

variable (codec : Codec)

/-- The entry begins with the name and an element that holds the sequence number. -/
def EntryReads (entry : Block) (nid : NodeID) (s : SeqNo) : Prop :=
  entry.type = tlv.StateVectorEntry ∧ ∃ name seqNo rest,
    codec.elements entry.value = some (name :: seqNo :: rest) ∧
    codec.decodeName name = some nid ∧ codec.readNonNegativeInteger seqNo = some s

/-- The last of the entries for the name has the sequence number. -/
def LastEntryReads (entries : List Block) (nid : NodeID) (s : SeqNo) : Prop :=
  ∃ before entry after, entries = before ++ entry :: after ∧ EntryReads codec entry nid s ∧
    ∀ e ∈ after, ∀ s', ¬EntryReads codec e nid s'

end

variable {codec : Codec}

theorem decodeElements_eq_ok_iff (elements : List Block) (nid : NodeID) (s : SeqNo) :
    decodeElements codec elements = .ok (nid, s) ↔ ∃ name seqNo rest,
      elements = name :: seqNo :: rest ∧ codec.decodeName name = some nid ∧
      codec.readNonNegativeInteger seqNo = some s := by
  fun_cases decodeElements codec elements with
  | case1 => simp
  | case2 name rest hname => simp [hname]
  | case3 name nodeId hname => simp
  | case4 name nodeId seqNo rest hname hseq => simp [hseq]
  | case5 name nodeId seqNo rest hname s' hseq => simp [hname, hseq]

theorem decodeEntry_eq_ok_iff (entry : Block) (nid : NodeID) (s : SeqNo) :
    decodeEntry codec entry = .ok (nid, s) ↔ EntryReads codec entry nid s := by
  by_cases htype : entry.type = tlv.StateVectorEntry
  · cases helems : codec.elements entry.value with
    | none => simp [decodeEntry_unparsable (.inr helems), EntryReads, helems]
    | some elements =>
      rw [decodeEntry_parsed htype helems, decodeElements_eq_ok_iff, EntryReads, helems]
      simp [htype]
  · simp [decodeEntry_unparsable (.inl htype), EntryReads, htype]

/-- A name has one sequence number in an entry. -/
theorem EntryReads.unique {entry : Block} {nid nid' : NodeID} {s s' : SeqNo}
    (h : EntryReads codec entry nid s) (h' : EntryReads codec entry nid' s') :
    nid = nid' ∧ s = s' := by
  rw [← decodeEntry_eq_ok_iff] at h h'
  have heq := Except.ok.inj (h.symm.trans h')
  exact Prod.mk.inj heq

/-- The last entry for a name is the last one of the list, or one before it if that one is
    for another name. -/
theorem lastEntryReads_append_singleton (entries : List Block) (entry : Block) (nid : NodeID)
    (s : SeqNo) :
    LastEntryReads codec (entries ++ [entry]) nid s ↔ EntryReads codec entry nid s ∨
      (∀ s', ¬EntryReads codec entry nid s') ∧ LastEntryReads codec entries nid s := by
  constructor
  · intro h
    obtain ⟨before, e, after, heq, he, hafter⟩ := h
    rcases List.eq_nil_or_concat after with rfl | ⟨after, x, rfl⟩
    · obtain ⟨-, hlast⟩ := List.append_inj' heq rfl
      rw [List.singleton_inj.mp hlast]
      exact .inl he
    · rw [List.concat_eq_append, ← List.cons_append, ← List.append_assoc] at heq
      obtain ⟨hinit, hlast⟩ := List.append_inj' heq rfl
      rw [List.singleton_inj.mp hlast]
      rw [List.concat_eq_append, List.forall_mem_append, List.forall_mem_singleton] at hafter
      exact .inr ⟨hafter.2, before, e, after, hinit, he, hafter.1⟩
  · intro h
    obtain he | ⟨hnone, before, e, after, rfl, he, hafter⟩ := h
    · exact ⟨entries, entry, [], rfl, he, by simp⟩
    · refine ⟨before, e, after ++ [entry], by simp, he, ?_⟩
      rw [List.forall_mem_append, List.forall_mem_singleton]
      exact ⟨hafter, hnone⟩

/-- What an accepted list of entries makes of a vector. -/
theorem foldlM_decodeElement_getElem? {entries : List Block} {vv vv' : VersionVector}
    (h : entries.foldlM (decodeElement codec) vv = .ok vv') (nid : NodeID) (s : SeqNo) :
    vv'.map[nid]? = some s ↔ LastEntryReads codec entries nid s ∨
      (∀ e ∈ entries, ∀ s', ¬EntryReads codec e nid s') ∧ vv.map[nid]? = some s := by
  induction entries using List.reverseRecOn generalizing vv' with
  | nil =>
    have hsame : vv = vv' := Except.ok.inj h
    simp [← hsame, LastEntryReads]
  | append_singleton entries entry ih =>
    rw [decodeElement_eq, List.foldlM_append_singleton_eq_ok_iff, ← decodeElement_eq] at h
    obtain ⟨vv₁, ⟨nid', s'⟩, hread, hentry, rfl⟩ := h
    rw [decodeEntry_eq_ok_iff] at hentry
    simp only [insertEntry, Std.ExtTreeMap.getElem?_insert', List.forall_mem_append,
      List.forall_mem_singleton, lastEntryReads_append_singleton]
    by_cases hnid : nid' = nid
    · -- the entry overwrites what was there
      subst hnid
      have hsame : EntryReads codec entry nid' s ↔ s' = s :=
        ⟨fun h => (hentry.unique h).2, fun h => h ▸ hentry⟩
      have hsome : ¬∀ s', ¬EntryReads codec entry nid' s' := fun hnone => hnone s' hentry
      simp [hsame, hsome]
    · have hnone : ∀ s', ¬EntryReads codec entry nid s' := fun s'' h => hnid (hentry.unique h).1
      simp [hnid, hnone, ih hread]

/-! ## The grammar -/

theorem decode_parsed {b : Block} {entries : List Block} (htype : b.type = tlv.StateVector)
    (helems : codec.elements b.value = some entries) :
    decode codec b = entries.foldlM (decodeElement codec) empty := by
  simp [decode, htype, helems, bind, Except.bind]

/-- A block of another type, or one that cannot be parsed, is a `tlv::Error`. -/
theorem decode_unparsable {b : Block}
    (h : b.type ≠ tlv.StateVector ∨ codec.elements b.value = none) :
    decode codec b = .error .tlvError := by
  unfold decode
  by_cases htype : b.type = tlv.StateVector
  · have helems := h.resolve_left (not_not_intro htype)
    simp [htype, helems, bind, Except.bind]
  · simp [htype, bind, Except.bind, throw, throwThe, MonadExceptOf.throw]

/-- The decoder accepts the sequences of readable entries. -/
theorem decode_ok_iff (b : Block) :
    (∃ vv, decode codec b = .ok vv) ↔ b.type = tlv.StateVector ∧
      ∃ entries, codec.elements b.value = some entries ∧ ∀ e ∈ entries, ReadableEntry codec e := by
  by_cases htype : b.type = tlv.StateVector
  · cases helems : codec.elements b.value with
    | none => simp [decode_unparsable (.inr helems)]
    | some entries =>
      rw [decode_parsed htype helems, foldlM_decodeElement_ok_iff]
      simp [htype]
  · simp [decode_unparsable (.inl htype), htype]

/-- It throws `std::out_of_range` where it reaches a short entry. -/
theorem decode_outOfRange_iff (b : Block) :
    decode codec b = .error .outOfRange ↔ b.type = tlv.StateVector ∧
      ∃ entries, codec.elements b.value = some entries ∧ ReachesShortEntry codec entries := by
  by_cases htype : b.type = tlv.StateVector
  · cases helems : codec.elements b.value with
    | none => simp [decode_unparsable (.inr helems)]
    | some entries =>
      rw [decode_parsed htype helems, foldlM_decodeElement_outOfRange_iff]
      simp [htype]
  · simp [decode_unparsable (.inl htype), htype]

/-- A decoded vector has for each name its last entry. -/
theorem decode_getElem? {b : Block} {vv : VersionVector} (h : decode codec b = .ok vv) :
    ∃ entries, codec.elements b.value = some entries ∧
      ∀ nid s, vv.map[nid]? = some s ↔ LastEntryReads codec entries nid s := by
  obtain ⟨htype, entries, helems, -⟩ := (decode_ok_iff b).mp ⟨vv, h⟩
  rw [decode_parsed htype helems] at h
  refine ⟨entries, helems, fun nid s => ?_⟩
  simp [foldlM_decodeElement_getElem? h, empty]

/-- The decoder accepts the block iff it is a well-formed state vector, then maps each
    name to the sequence number of its last entry, and otherwise throws a `tlv::Error`. -/
structure FollowsGrammar (codec : Codec) (b : Block) : Prop where
  accepts : (∃ vv, decode codec b = .ok vv) ↔ WellFormedStateVector codec b
  last : ∀ vv, decode codec b = .ok vv → ∃ entries, codec.elements b.value = some entries ∧
    ∀ nid s, vv.map[nid]? = some s ↔ LastEntryReads codec entries nid s
  throws : ∀ e, decode codec b = .error e → e = .tlvError

/-- The first entry that cannot be read is not a short one; and if all entries can be read,
    each of them is a name and a `SeqNo` and nothing more. -/
structure EntriesReadCleanly (codec : Codec) (entries : List Block) : Prop where
  not_short : ¬ReachesShortEntry codec entries
  strict : (∀ e ∈ entries, ReadableEntry codec e) → ∀ e ∈ entries, WellFormedEntry codec e

/-- The decoder follows its grammar exactly on the blocks whose entries read cleanly. -/
theorem followsGrammar_iff (codec : Codec) (b : Block) :
    FollowsGrammar codec b ↔ ∀ entries, b.type = tlv.StateVector →
      codec.elements b.value = some entries → EntriesReadCleanly codec entries := by
  constructor
  · intro h entries htype helems
    constructor
    · intro hshort
      have hthrows := h.throws .outOfRange ((decode_outOfRange_iff b).mpr ⟨htype, entries, helems, hshort⟩)
      cases hthrows
    · intro hread
      have haccepts := h.accepts.mp ((decode_ok_iff b).mpr ⟨htype, entries, helems, hread⟩)
      obtain ⟨-, entries', helems', hentries⟩ := haccepts
      rw [helems, Option.some.injEq] at helems'
      exact helems' ▸ hentries
  · intro h
    constructor
    case accepts =>
      rw [decode_ok_iff]
      constructor
      · intro haccepts
        obtain ⟨htype, entries, helems, hread⟩ := haccepts
        exact ⟨htype, entries, helems, (h entries htype helems).strict hread⟩
      · intro hwell
        obtain ⟨htype, entries, helems, hentries⟩ := hwell
        exact ⟨htype, entries, helems, fun e he => (hentries e he).readable⟩
    case last => exact fun vv => decode_getElem?
    case throws =>
      intro e he
      cases e with
      | tlvError => rfl
      | outOfRange =>
        obtain ⟨htype, entries, helems, hshort⟩ := (decode_outOfRange_iff b).mp he
        exact absurd hshort (h entries htype helems).not_short

/-- An entry whose second element is not a `SeqNo` is accepted. -/
theorem not_followsGrammar : ¬∀ (codec : Codec) (b : Block), FollowsGrammar codec b := by
  intro h
  have haccepts := (h .packetFormat ⟨tlv.StateVector, [202, 5, 7, 0, 128, 1, 5]⟩).accepts.mp
    ⟨_, rfl⟩
  obtain ⟨-, entries, helems, hentries⟩ := haccepts
  have hparsed : Codec.packetFormat.elements [202, 5, 7, 0, 128, 1, 5] =
      some [⟨202, [7, 0, 128, 1, 5]⟩] := by decide
  obtain rfl := Option.some.inj (hparsed.symm.trans helems)
  obtain ⟨-, name, seqNo, hparts, -, htype, -⟩ := hentries _ List.mem_cons_self
  have hpair : Codec.packetFormat.elements [7, 0, 128, 1, 5] = some [⟨7, []⟩, ⟨128, [5]⟩] := by
    decide
  obtain ⟨-, rfl⟩ : ⟨7, []⟩ = name ∧ ⟨128, [5]⟩ = seqNo := by
    simpa using Option.some.inj (hpair.symm.trans hparts)
  exact absurd htype (by decide)

/-- An empty entry lets `std::out_of_range` escape. -/
example : decode .packetFormat ⟨tlv.StateVector, [202, 0]⟩ = .error .outOfRange := rfl

/-! ## Encoding -/

section

open EncodingBuffer

/-- A sequence number as a block. -/
def seqNoBlock (s : SeqNo) : Block := { type := tlv.SeqNo, value := Codec.integerBytes s }

/-- An entry as a block: the name, then the sequence number. -/
def entryBlock (e : NodeID × SeqNo) : Block where
  type := tlv.StateVectorEntry
  value := [e.1.wireEncode, seqNoBlock e.2].flatMap Block.wire

/-- A vector as a block: its entries in the order of the names. -/
def stateVectorBlock (vv : VersionVector) : Block where
  type := tlv.StateVector
  value := (vv.entries.map entryBlock).flatMap Block.wire

/-- One round of the encoder puts an entry block in front. -/
theorem prependEntry_eq (totalLength : Nat) (e : NodeID × SeqNo) (buffer : List UInt8) :
    prependEntry totalLength e buffer =
      (totalLength + (entryBlock e).wire.length, (entryBlock e).wire ++ buffer) := by
  have hseq : prependNonNegativeIntegerBlock tlv.SeqNo e.2 buffer =
      ((seqNoBlock e.2).wire.length, (seqNoBlock e.2).wire ++ buffer) :=
    prepends_integerBlock tlv.SeqNo e.2 buffer
  have hvalue : (entryBlock e).value = e.1.wireEncode.wire ++ (seqNoBlock e.2).wire := by
    simp [entryBlock]
  -- the length that the round adds up is that of the value
  have hlength : (seqNoBlock e.2).wire.length + e.1.wireEncode.wire.length =
      (entryBlock e).value.length := by
    rw [hvalue, List.length_append, Nat.add_comm]
  have hwire : (entryBlock e).wire = Codec.varNumber tlv.StateVectorEntry ++
      Codec.varNumber (entryBlock e).value.length ++ (entryBlock e).value := rfl
  simp only [prependEntry, bind, StateT.bind, hseq, prepends_block _ _, prepends_varNumber _ _, pure,
    StateT.pure, hlength]
  rw [hwire, List.length_append, List.length_append, hvalue]
  simp only [List.append_assoc]
  congr 1
  omega

/-- The encoder writes a block; all lengths in it are those of what they cover. -/
theorem encode_eq_wire (vv : VersionVector) : vv.encode = (stateVectorBlock vv).wire := by
  have hentries := prepends_foldlM prependEntry_eq vv.entries.reverse []
  rw [List.reverse_reverse, List.append_nil] at hentries
  have hvalue : vv.entries.flatMap (fun e => (entryBlock e).wire) = (stateVectorBlock vv).value := by
    rw [stateVectorBlock, List.flatMap_map]
  simp only [encode, prependVector, bind, StateT.bind, StateT.run, hentries, prepends_varNumber _ _, pure,
    StateT.pure, hvalue]
  rw [← List.append_assoc]
  rfl

end

/-! ## Round trip -/

/-- The names are those of `ndn::Name`s, and the encoding fits into memory. -/
structure VersionVector.Encodable (vv : VersionVector) : Prop where
  names : ∀ e ∈ vv.entries, e.1.Valid
  length_lt : vv.encode.length < 2 ^ 64

theorem VersionVector.Encodable.length_value_lt {vv : VersionVector} (h : vv.Encodable) :
    (stateVectorBlock vv).value.length < 2 ^ 64 := by
  have hwire := h.length_lt
  rw [encode_eq_wire, Block.wire, List.length_append] at hwire
  omega

/-- The entry block of a valid entry reads as the entry. -/
theorem entryReads_entryBlock {e : NodeID × SeqNo} (hname : e.1.Valid)
    (hlength : (entryBlock e).value.length < 2 ^ 64) (nid : NodeID) (s : SeqNo) :
    EntryReads .packetFormat (entryBlock e) nid s ↔ e = (nid, s) := by
  have hvalid : ∀ b ∈ [e.1.wireEncode, seqNoBlock e.2], b.Valid := by
    intro b hb
    rcases List.mem_pair.mp hb with rfl | rfl
    · exact Block.valid_of_mem hlength hb (by decide : 0 < tlv.Name) (by decide : tlv.Name < 2 ^ 32)
    · exact Block.valid_of_mem hlength hb (by decide : 0 < tlv.SeqNo) (by decide : tlv.SeqNo < 2 ^ 32)
  have hnameLength : e.1.wireEncode.value.length < 2 ^ 64 := (hvalid _ List.mem_cons_self).length_lt
  have hreads : EntryReads .packetFormat (entryBlock e) e.1 e.2 :=
    ⟨rfl, e.1.wireEncode, seqNoBlock e.2, [], Codec.elements_wires hvalid,
      Codec.decodeName_wireEncode hname hnameLength,
      Codec.readNonNegativeInteger_integerBytes tlv.SeqNo e.2⟩
  constructor
  · intro h
    obtain ⟨hnid, hs⟩ := hreads.unique h
    exact Prod.ext hnid hs
  · intro h
    subst h
    exact hreads

/-- Among entry blocks of distinct names, each entry is the last one for its name. -/
theorem lastEntryReads_map_entryBlock {l : List (NodeID × SeqNo)} (hl : (l.map Prod.fst).Nodup)
    (hreads : ∀ e ∈ l, ∀ nid s, EntryReads .packetFormat (entryBlock e) nid s ↔ e = (nid, s))
    (nid : NodeID) (s : SeqNo) :
    LastEntryReads .packetFormat (l.map entryBlock) nid s ↔ (nid, s) ∈ l := by
  constructor
  · intro h
    obtain ⟨before, entry, after, heq, hentry, -⟩ := h
    have hmem : entry ∈ l.map entryBlock := heq ▸ List.mem_append_right _ List.mem_cons_self
    obtain ⟨e, he, rfl⟩ := List.mem_map.mp hmem
    exact (hreads e he nid s).mp hentry ▸ he
  · intro h
    obtain ⟨before, after, rfl⟩ := List.append_of_mem h
    refine ⟨before.map entryBlock, entryBlock (nid, s), after.map entryBlock, by simp,
      (hreads _ h nid s).mpr rfl, ?_⟩
    -- a later entry for the same name would repeat the name
    intro entry hentry s' hreads'
    obtain ⟨e, he, rfl⟩ := List.mem_map.mp hentry
    have heq : e = (nid, s') :=
      (hreads e (List.mem_append_right _ (List.mem_cons_of_mem _ he)) nid s').mp hreads'
    rw [List.map_append, List.map_cons, List.nodup_append] at hl
    exact (List.nodup_cons.mp hl.2.1).1 (List.mem_map.mpr ⟨e, he, by rw [heq]⟩)

/-- A decoded vector has no update times. -/
theorem decode_lastUpdate {codec : Codec} {b : Block} {vv : VersionVector}
    (h : decode codec b = .ok vv) : vv.lastUpdate = ∅ := by
  obtain ⟨htype, entries, helems, -⟩ := (decode_ok_iff b).mp ⟨vv, h⟩
  rw [decode_parsed htype helems] at h
  clear helems
  induction entries using List.reverseRecOn generalizing vv with
  | nil =>
    have hsame : empty = vv := Except.ok.inj h
    rw [← hsame]
    rfl
  | append_singleton entries entry ih =>
    rw [decodeElement_eq, List.foldlM_append_singleton_eq_ok_iff, ← decodeElement_eq] at h
    obtain ⟨vv₁, p, hread, -, rfl⟩ := h
    exact @ih vv₁ hread

/-- The decoder reads back what the encoder writes. -/
theorem decode_stateVectorBlock {vv : VersionVector} (h : vv.Encodable) :
    decode .packetFormat (stateVectorBlock vv) = .ok vv.wire := by
  have hlength := h.length_value_lt
  have hmem : ∀ e ∈ vv.entries, entryBlock e ∈ vv.entries.map entryBlock :=
    fun e he => List.mem_map_of_mem he
  have hvalid : ∀ b ∈ vv.entries.map entryBlock, b.Valid := by
    intro b hb
    obtain ⟨e, he, rfl⟩ := List.mem_map.mp hb
    exact Block.valid_of_mem hlength hb (by decide : 0 < tlv.StateVectorEntry)
      (by decide : tlv.StateVectorEntry < 2 ^ 32)
  have helems : Codec.packetFormat.elements (stateVectorBlock vv).value =
      some (vv.entries.map entryBlock) := Codec.elements_wires hvalid
  have hreads : ∀ e ∈ vv.entries, ∀ nid s,
      EntryReads .packetFormat (entryBlock e) nid s ↔ e = (nid, s) :=
    fun e he => entryReads_entryBlock (h.names e he) (hvalid _ (hmem e he)).length_lt
  -- every entry block is readable, so the decoder succeeds
  have hreadable : ∀ b ∈ vv.entries.map entryBlock, ReadableEntry .packetFormat b := by
    intro b hb
    obtain ⟨e, he, rfl⟩ := List.mem_map.mp hb
    rw [← decodeEntry_ok_iff]
    exact ⟨e, (decodeEntry_eq_ok_iff _ _ _).mpr ((hreads e he e.1 e.2).mpr rfl)⟩
  obtain ⟨vv', hdecode⟩ := (decode_ok_iff (stateVectorBlock vv)).mpr ⟨rfl, _, helems, hreadable⟩
  -- and each name has the entry it was written with
  obtain ⟨entries, helems', hlast⟩ := decode_getElem? hdecode
  obtain rfl := Option.some.inj (helems.symm.trans helems')
  have hmap : vv'.map = vv.map := by
    apply Std.ExtTreeMap.ext_getElem?
    intro nid
    apply Option.ext
    intro s
    rw [hlast, lastEntryReads_map_entryBlock (Core.entries_keys_nodup vv) hreads, mem_entries]
  rw [hdecode, wire, ← hmap, ← decode_lastUpdate hdecode]

/-- What the encoder writes is one block. -/
theorem readBlock_encode {vv : VersionVector} (h : vv.Encodable) :
    Codec.readBlock vv.encode = some (stateVectorBlock vv, []) := by
  have hvalid : (stateVectorBlock vv).Valid :=
    ⟨(by decide : 0 < tlv.StateVector), (by decide : tlv.StateVector < 2 ^ 32), h.length_value_lt⟩
  have hread := Codec.readBlock_wire hvalid []
  rwa [List.append_nil, ← encode_eq_wire] at hread

/-- Every length in the encoding is that of the bytes it covers, decoding gives the entries
    back, and two vectors have the same encoding iff they have the same entries. -/
theorem encode_roundTrip {vv : VersionVector} (h : vv.Encodable) :
    vv.encode = (stateVectorBlock vv).wire ∧
      (∃ b, Codec.readBlock vv.encode = some (b, []) ∧ decode .packetFormat b = .ok vv.wire) ∧
      ∀ vv' : VersionVector, vv'.Encodable → (vv'.encode = vv.encode ↔ vv'.map = vv.map) := by
  refine ⟨encode_eq_wire vv, ⟨_, readBlock_encode h, decode_stateVectorBlock h⟩, ?_⟩
  intro vv' h'
  constructor
  · intro heq
    -- the decoder is a function of the bytes
    have hblock := (readBlock_encode h').symm.trans ((congrArg _ heq).trans (readBlock_encode h))
    obtain ⟨hblock, -⟩ := Prod.mk.inj (Option.some.inj hblock)
    have hdecode := decode_stateVectorBlock h'
    rw [hblock, decode_stateVectorBlock h, Except.ok.injEq] at hdecode
    exact (congrArg VersionVector.map hdecode).symm
  · intro hmap
    simp only [encode_eq_wire, stateVectorBlock, entries, hmap]

/-- A one-byte and an eight-byte number, under the empty name and under a name of two
    components. -/
theorem encode_roundTrip_twoEntries :
    let vv := (VersionVector.empty.set ⟨[]⟩ 1 0).set (.ofBytes [[97], []]) (2 ^ 64 - 1) 0
    vv.Encodable ∧ vv.wire.Encodable ∧ vv.encode = (stateVectorBlock vv).wire ∧
      (∃ b, Codec.readBlock vv.encode = some (b, []) ∧ decode .packetFormat b = .ok vv.wire) ∧
      (vv.wire.encode = vv.encode ↔ vv.wire.map = vv.map) := by
  intro vv
  have h : vv.Encodable := ⟨by decide +kernel, by decide +kernel⟩
  have h' : vv.wire.Encodable := ⟨by decide +kernel, by decide +kernel⟩
  obtain ⟨hwire, hdecode, hinj⟩ := encode_roundTrip h
  exact ⟨h, h', hwire, hdecode, hinj vv.wire h'⟩

end Svs
