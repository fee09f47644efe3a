import Svs.Spec.TlvRoundTrip

/-!
# The codec of mapping lists

`MappingList::encode` writes into a buffer that is filled from the back, but walks the
entries and their blocks forwards, where `VersionVector::encode` walks backwards.  So
both arrive in reverse.

## Key results

- `encode_eq_wire`: what `encode` writes
- `decode_listBlock`: what the decoder makes of it
- `roundTrips_iff`: the lists that arrive as they were sent
-/

namespace Svs

namespace MappingList

open EncodingBuffer

/-! ## Encoding -/

/-- An entry with its blocks in reverse. -/
def mirrorEntry (p : SeqNo × MappingEntryPair) : SeqNo × MappingEntryPair :=
  (p.1, { p.2 with blocks := p.2.blocks.reverse })

/-- A list with its entries, and their blocks, in reverse. -/
def mirror (list : MappingList) : MappingList :=
  { list with pairs := (list.pairs.map mirrorEntry).reverse }

/-- The elements of an entry on the wire. -/
def entryElements (p : SeqNo × MappingEntryPair) : List Block :=
  { type := tlv.SeqNo, value := Codec.integerBytes p.1 } :: p.2.name.wireEncode :: p.2.blocks.reverse

/-- An entry as a block. -/
def entryBlock (p : SeqNo × MappingEntryPair) : Block where
  type := tlv.MappingEntry
  value := (entryElements p).flatMap Block.wire

/-- The elements of a list on the wire. -/
def listElements (list : MappingList) : List Block :=
  list.nodeId.wireEncode :: (list.pairs.map entryBlock).reverse

/-- A list as a block. -/
def listBlock (list : MappingList) : Block where
  type := tlv.MappingData
  value := (listElements list).flatMap Block.wire

theorem prependAdditional_eq (entryLength : Nat) (b : Block) (buffer : List UInt8) :
    prependAdditional entryLength b buffer = (entryLength + b.wire.length, b.wire ++ buffer) := rfl

/-- One round of the outer loop puts an entry block in front. -/
theorem prependEntry_eq (totalLength : Nat) (p : SeqNo × MappingEntryPair) (buffer : List UInt8) :
    prependEntry totalLength p buffer =
      (totalLength + (entryBlock p).wire.length, (entryBlock p).wire ++ buffer) := by
  have hblocks := prepends_foldlM prependAdditional_eq p.2.blocks
  have hvalue : (entryBlock p).value = Block.wire { type := tlv.SeqNo, value := Codec.integerBytes p.1 } ++
      (p.2.name.wireEncode.wire ++ p.2.blocks.reverse.flatMap Block.wire) := by
    simp [entryBlock, entryElements]
  -- the length that the round adds up is that of the value
  have hlength : (p.2.blocks.reverse.flatMap Block.wire).length + p.2.name.wireEncode.wire.length +
      (Block.wire { type := tlv.SeqNo, value := Codec.integerBytes p.1 }).length =
      (entryBlock p).value.length := by
    rw [hvalue, List.length_append, List.length_append]
    omega
  have hwire : (entryBlock p).wire = Codec.varNumber tlv.MappingEntry ++
      Codec.varNumber (entryBlock p).value.length ++ (entryBlock p).value := rfl
  simp only [prependEntry, bind, StateT.bind, hblocks _, prepends_block _ _, prepends_integerBlock _ _ _,
    prepends_varNumber _ _, pure, StateT.pure, hlength]
  rw [hwire, List.length_append, List.length_append, hvalue]
  simp only [List.append_assoc]
  congr 1
  omega

/-- The encoder writes a block whose entries, and their blocks, are in reverse. -/
theorem encode_eq_wire (list : MappingList) : list.encode = (listBlock list).wire := by
  have hentries := prepends_foldlM prependEntry_eq list.pairs []
  have hvalue : (listBlock list).value = list.nodeId.wireEncode.wire ++
      list.pairs.reverse.flatMap fun p => (entryBlock p).wire := by
    rw [listBlock, listElements, ← List.map_reverse, List.flatMap_cons, List.flatMap_map]
  have hlength : (list.pairs.reverse.flatMap fun p => (entryBlock p).wire).length +
      list.nodeId.wireEncode.wire.length = (listBlock list).value.length := by
    rw [hvalue, List.length_append, Nat.add_comm]
  rw [List.append_nil] at hentries
  simp only [encode, prependList, bind, StateT.bind, StateT.run, hentries, prepends_block _ _,
    prepends_varNumber _ _, pure, StateT.pure, hlength]
  rw [← hvalue, ← List.append_assoc]
  rfl

/-! ## Decoding -/

/-- The names are those of `ndn::Name`s, the blocks have types that a TLV block may have,
    and the encoding fits into memory. -/
structure Encodable (list : MappingList) : Prop where
  nodeId : list.nodeId.Valid
  names : ∀ p ∈ list.pairs, p.2.name.Valid
  types : ∀ p ∈ list.pairs, ∀ b ∈ p.2.blocks, 0 < b.type ∧ b.type < 2 ^ 32
  length_lt : list.encode.length < 2 ^ 64

/-- The decoder reads an entry with its blocks in reverse. -/
theorem decodeEntry_entryBlock {p : SeqNo × MappingEntryPair} (hname : p.2.name.Valid)
    (htypes : ∀ b ∈ p.2.blocks, 0 < b.type ∧ b.type < 2 ^ 32)
    (hlength : (entryBlock p).value.length < 2 ^ 64) :
    decodeEntry .packetFormat (entryBlock p) = .ok (mirrorEntry p) := by
  have htype : ∀ b ∈ entryElements p, 0 < b.type ∧ b.type < 2 ^ 32 := by
    intro b hb
    rw [entryElements, List.mem_cons, List.mem_cons, List.mem_reverse] at hb
    obtain rfl | rfl | hb := hb
    · exact (by decide : 0 < tlv.SeqNo ∧ tlv.SeqNo < 2 ^ 32)
    · exact (by decide : 0 < tlv.Name ∧ tlv.Name < 2 ^ 32)
    · exact htypes b hb
  have hvalid : ∀ b ∈ entryElements p, b.Valid :=
    fun b hb => Block.valid_of_mem hlength hb (htype b hb).1 (htype b hb).2
  have helems : Codec.packetFormat.elements (entryBlock p).value = some (entryElements p) :=
    Codec.elements_wires hvalid
  have hnameLength : p.2.name.wireEncode.value.length < 2 ^ 64 :=
    (hvalid _ (List.mem_cons_of_mem _ List.mem_cons_self)).length_lt
  simp only [decodeEntry, helems, orTlvError_some, bind, Except.bind, entryElements,
    elementAt_cons_zero, elementAt_cons_succ, Codec.readNonNegativeInteger_integerBytes,
    Codec.decodeName_wireEncode hname hnameLength, pure, Except.pure, List.drop_succ_cons, List.drop_zero]
  rfl

/-- The loop of the decoder appends the entries. -/
theorem foldlM_decodeElement {l : List (SeqNo × MappingEntryPair)}
    (h : ∀ p ∈ l, decodeEntry .packetFormat (entryBlock p) = .ok (mirrorEntry p)) (list : MappingList) :
    (l.map entryBlock).foldlM (decodeElement .packetFormat) list =
      .ok { list with pairs := list.pairs ++ l.map mirrorEntry } := by
  induction l generalizing list with
  | nil => simp [pure, Except.pure]
  | cons p l ih =>
    rw [List.forall_mem_cons] at h
    have hstep : decodeElement .packetFormat list (entryBlock p) =
        .ok { list with pairs := list.pairs ++ [mirrorEntry p] } := by
      have hname : ¬(entryBlock p).type = tlv.Name := (by decide : ¬tlv.MappingEntry = tlv.Name)
      have hentry : (entryBlock p).type = tlv.MappingEntry := rfl
      rw [decodeElement, if_neg hname, if_pos hentry, h.1]
      rfl
    rw [List.map_cons, List.foldlM_cons, hstep]
    apply (ih h.2 _).trans
    simp

theorem Encodable.length_value_lt {list : MappingList} (h : list.Encodable) :
    (listBlock list).value.length < 2 ^ 64 := by
  have hwire := h.length_lt
  rw [encode_eq_wire, Block.wire, List.length_append] at hwire
  omega

/-- The decoder makes of the encoding a list whose entries, and their blocks, are in
    reverse. -/
theorem decode_listBlock {list : MappingList} (h : list.Encodable) :
    decode .packetFormat (listBlock list) = .ok list.mirror := by
  have htype : ∀ b ∈ listElements list, 0 < b.type ∧ b.type < 2 ^ 32 := by
    intro b hb
    rw [listElements, List.mem_cons, List.mem_reverse, List.mem_map] at hb
    obtain rfl | ⟨p, -, rfl⟩ := hb
    · exact (by decide : 0 < tlv.Name ∧ tlv.Name < 2 ^ 32)
    · exact (by decide : 0 < tlv.MappingEntry ∧ tlv.MappingEntry < 2 ^ 32)
  have hvalid : ∀ b ∈ listElements list, b.Valid :=
    fun b hb => Block.valid_of_mem h.length_value_lt hb (htype b hb).1 (htype b hb).2
  have helems : Codec.packetFormat.elements (listBlock list).value = some (listElements list) :=
    Codec.elements_wires hvalid
  have hname : Codec.packetFormat.decodeName list.nodeId.wireEncode = some list.nodeId :=
    Codec.decodeName_wireEncode h.nodeId (hvalid _ List.mem_cons_self).length_lt
  have hentries : ∀ p ∈ list.pairs.reverse,
      decodeEntry .packetFormat (entryBlock p) = .ok (mirrorEntry p) := by
    intro p hp
    rw [List.mem_reverse] at hp
    have hmem : entryBlock p ∈ listElements list :=
      List.mem_cons_of_mem _ (List.mem_reverse.mpr (List.mem_map_of_mem hp))
    exact decodeEntry_entryBlock (h.names p hp) (h.types p hp) (hvalid _ hmem).length_lt
  have hfirst : decodeElement .packetFormat {} list.nodeId.wireEncode =
      .ok { nodeId := list.nodeId } := by
    have htype : list.nodeId.wireEncode.type = tlv.Name := rfl
    rw [decodeElement, if_pos htype, hname]
    rfl
  simp only [decode, helems, orTlvError_some, bind, Except.bind, listElements, List.foldlM_cons, hfirst]
  rw [← List.map_reverse, foldlM_decodeElement hentries, mirror, List.nil_append, List.map_reverse]

/-! ## Round trip -/

/-- The encoding is one block, of which the decoder makes the list. -/
def RoundTrips (list : MappingList) : Prop :=
  ∃ b, Codec.readBlock list.encode = some (b, []) ∧ decode .packetFormat b = .ok list

/-- The list arrives as it was sent iff it is its own reverse: entry by entry, and within
    each entry block by block, it reads the same from both ends. -/
theorem roundTrips_iff {list : MappingList} (h : list.Encodable) :
    list.RoundTrips ↔ list.pairs.reverse = list.pairs.map fun p =>
      (p.1, { name := p.2.name, blocks := p.2.blocks.reverse }) := by
  have hvalid : (listBlock list).Valid :=
    ⟨(by decide : 0 < tlv.MappingData), (by decide : tlv.MappingData < 2 ^ 32), h.length_value_lt⟩
  have hread := Codec.readBlock_wire hvalid []
  rw [List.append_nil, ← encode_eq_wire] at hread
  have hmirror : list.mirror = list ↔ list.pairs.reverse = list.pairs.map mirrorEntry := by
    constructor
    · intro heq
      exact (congrArg (fun l => l.pairs.reverse) heq).symm.trans (List.reverse_reverse _)
    · intro heq
      rw [mirror, ← heq, List.reverse_reverse]
  apply Iff.trans _ hmirror
  constructor
  · intro htrip
    obtain ⟨b, hb, hdecode⟩ := htrip
    obtain ⟨rfl, -⟩ := Prod.mk.inj (Option.some.inj (hread.symm.trans hb))
    exact Except.ok.inj ((decode_listBlock h).symm.trans hdecode)
  · intro heq
    refine ⟨listBlock list, hread, ?_⟩
    rw [decode_listBlock h, heq]

/-- A publication with a time stamp arrives as it was sent. -/
theorem roundTrips_iff_timestamp :
    RoundTrips { nodeId := .ofBytes [[97]], pairs := [(1, ⟨.ofBytes [[98], []], [⟨56, [5]⟩]⟩)] } :=
  (roundTrips_iff ⟨by decide, by decide, by decide, by decide⟩).mpr rfl

/-- Two entries arrive in reverse. -/
theorem not_roundTrips : ¬∀ list : MappingList, list.Encodable → list.RoundTrips := by
  intro h
  let list : MappingList :=
    { nodeId := .ofBytes [[97]], pairs := [(1, ⟨.ofBytes [[98]], []⟩), (2, ⟨.ofBytes [[99]], []⟩)] }
  have hencodable : list.Encodable := ⟨by decide, by decide, by decide, by decide⟩
  obtain ⟨b, hb, hdecode⟩ := h list hencodable
  have hread : Codec.readBlock list.encode = some (listBlock list, []) := by decide
  obtain ⟨rfl, -⟩ := Prod.mk.inj (Option.some.inj (hread.symm.trans hb))
  rw [decode_listBlock hencodable, Except.ok.injEq] at hdecode
  exact absurd (congrArg pairs hdecode) (by decide)

end MappingList

end Svs
