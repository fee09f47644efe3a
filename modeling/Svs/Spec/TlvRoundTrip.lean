import Svs.Native.Encoder

/-!
# TLV round trips

What the encoding functions write, the decoding functions of the packet format read
back, whatever bytes follow.  `Prepends` says which bytes an encoder puts in front of
the buffer, so that the encoders of the repository compose.

## Key results

- `readBlock_wire`: a block is read back
- `elements_wires`: a sequence of blocks is read back
- `decodeName_wireEncode`, `readNonNegativeInteger_integerBytes`: names and integers
-/

namespace Svs

namespace Codec

/-! ## Numbers -/

theorem bigEndian_append_singleton (bytes : List UInt8) (b : UInt8) :
    bigEndian (bytes ++ [b]) = bigEndian bytes * 256 + b.toNat := by
  simp [bigEndian]

@[simp] theorem length_toBigEndian (n size : Nat) : (toBigEndian n size).length = size := by
  induction size generalizing n with
  | zero => rfl
  | succ size ih => simp [toBigEndian, ih]

/-- A number is read back from enough bytes. -/
theorem bigEndian_toBigEndian {n size : Nat} (h : n < 256 ^ size) :
    bigEndian (toBigEndian n size) = n := by
  induction size generalizing n with
  | zero =>
    have hzero : n = 0 := by omega
    subst hzero
    rfl
  | succ size ih =>
    have hdiv : n / 256 < 256 ^ size := by
      rw [Nat.div_lt_iff_lt_mul (by omega), ← Nat.pow_succ]
      exact h
    have hbyte : (UInt8.ofNat n).toNat = n % 256 := UInt8.toNat_ofNat'
    rw [toBigEndian, bigEndian_append_singleton, ih hdiv, hbyte]
    omega

/-- A first byte of 253 or more says how many bytes the number takes. -/
theorem readVarNumber_long {first : UInt8} {n size : Nat} (hfirst : ¬first < 253)
    (hsize : (if first = 253 then 2 else if first = 254 then 4 else 8) = size)
    (hn : n < 256 ^ size) (rest : List UInt8) :
    readVarNumber (first :: toBigEndian n size ++ rest) = some (n, rest) := by
  have hlength : ¬(toBigEndian n size ++ rest).length < size := by
    rw [List.length_append, length_toBigEndian]
    omega
  have htake : (toBigEndian n size ++ rest).take size = toBigEndian n size :=
    List.take_left' (length_toBigEndian n size)
  have hdrop : (toBigEndian n size ++ rest).drop size = rest :=
    List.drop_left' (length_toBigEndian n size)
  rw [List.cons_append, readVarNumber, if_neg hfirst]
  simp only [hsize, if_neg hlength, htake, hdrop, bigEndian_toBigEndian hn]

/-- A TLV type or length is read back, whatever follows. -/
theorem readVarNumber_varNumber {n : Nat} (h : n < 2 ^ 64) (rest : List UInt8) :
    readVarNumber (varNumber n ++ rest) = some (n, rest) := by
  unfold varNumber
  split
  · next hsmall =>
    have hbyte : (UInt8.ofNat n).toNat = n := by
      rw [UInt8.toNat_ofNat']
      omega
    have hlt : UInt8.ofNat n < 253 := by
      rw [UInt8.lt_iff_toNat_lt, hbyte]
      exact hsmall
    simp [readVarNumber, hlt, hbyte]
  · split
    · exact readVarNumber_long (by decide) (by decide) (by omega) rest
    · split
      · exact readVarNumber_long (by decide) (by decide) (by omega) rest
      · exact readVarNumber_long (by decide) (by decide) (by omega) rest

theorem varNumber_ne_nil (n : Nat) : varNumber n ≠ [] := by
  unfold varNumber
  split
  · simp
  · split
    · simp
    · split <;> simp

/-- An integer is read back, whatever the type of its block. -/
theorem readNonNegativeInteger_integerBytes (type : Nat) (n : UInt64) :
    packetFormat.readNonNegativeInteger { type := type, value := integerBytes n } = some n := by
  have hn := n.toNat_lt
  have hread : ∀ size ∈ [1, 2, 4, 8], n.toNat < 256 ^ size →
      readInteger { type := type, value := toBigEndian n.toNat size } = some n := by
    intro size hsize hlt
    rw [readInteger, if_pos (by rw [length_toBigEndian]; exact hsize), bigEndian_toBigEndian hlt,
      UInt64.ofNat_toNat]
  simp only [packetFormat, integerBytes]
  split
  · exact hread 1 (by decide) (by omega)
  · split
    · exact hread 2 (by decide) (by omega)
    · split
      · exact hread 4 (by decide) (by omega)
      · exact hread 8 (by decide) (by omega)

end Codec

/-! ## Blocks -/

/-- A type that a TLV block may have, and a value that fits into memory. -/
structure Block.Valid (b : Block) : Prop where
  type_pos : 0 < b.type
  type_lt : b.type < 2 ^ 32
  length_lt : b.value.length < 2 ^ 64

namespace Codec

/-- A block is read back, whatever follows. -/
theorem readBlock_wire {b : Block} (h : b.Valid) (rest : List UInt8) :
    readBlock (b.wire ++ rest) = some (b, rest) := by
  have htype : b.type < 2 ^ 64 := h.type_lt.trans (by norm_num)
  have hguard : 0 < b.type ∧ b.type < 2 ^ 32 := ⟨h.type_pos, h.type_lt⟩
  have hlength : b.value.length ≤ (b.value ++ rest).length := by simp
  simp only [readBlock, Block.wire, List.append_assoc, Option.bind_eq_bind,
    readVarNumber_varNumber htype, readVarNumber_varNumber h.length_lt, Option.bind_some, guard,
    hguard, hlength, if_true]
  simp

theorem wire_ne_nil (b : Block) : b.wire ≠ [] := by
  simp [Block.wire, varNumber_ne_nil]

theorem readBlocks_succ {bytes : List UInt8} (h : bytes ≠ []) (fuel : Nat) :
    readBlocks (fuel + 1) bytes =
      (readBlock bytes).bind fun p => (readBlocks fuel p.2).map (p.1 :: ·) := by
  cases bytes with
  | nil => exact absurd rfl h
  | cons first bytes =>
    rw [readBlocks]
    · cases readBlock (first :: bytes) with
      | none => rfl
      | some p => cases hrest : readBlocks fuel p.2 <;> simp [hrest]
    · exact h

/-- A sequence of blocks is read back with enough fuel. -/
theorem readBlocks_wires {blocks : List Block} (h : ∀ b ∈ blocks, b.Valid) {fuel : Nat}
    (hfuel : blocks.length ≤ fuel) :
    readBlocks fuel (blocks.flatMap Block.wire) = some blocks := by
  induction blocks generalizing fuel with
  | nil => cases fuel <;> rfl
  | cons b blocks ih =>
    obtain ⟨fuel, rfl⟩ : ∃ k, fuel = k + 1 := ⟨fuel - 1, by rw [List.length_cons] at hfuel; omega⟩
    rw [List.length_cons, Nat.add_le_add_iff_right] at hfuel
    have hrest := ih (fun b hb => h b (List.mem_cons_of_mem _ hb)) hfuel
    have hne : (b :: blocks).flatMap Block.wire ≠ [] := by simp [wire_ne_nil]
    rw [readBlocks_succ hne, List.flatMap_cons, readBlock_wire (h b List.mem_cons_self)]
    simp [hrest]

/-- Every block takes a byte at least. -/
theorem length_le_length_wires (blocks : List Block) :
    blocks.length ≤ (blocks.flatMap Block.wire).length := by
  induction blocks with
  | nil => simp
  | cons b blocks ih =>
    have hpos := List.length_pos_of_ne_nil (wire_ne_nil b)
    rw [List.flatMap_cons, List.length_append, List.length_cons]
    omega

/-- A sequence of blocks is read back. -/
theorem elements_wires {blocks : List Block} (h : ∀ b ∈ blocks, b.Valid) :
    packetFormat.elements (blocks.flatMap Block.wire) = some blocks :=
  readBlocks_wires h (length_le_length_wires blocks)

end Codec

/-- A block inside a sequence is not longer than the sequence. -/
theorem Block.length_value_lt {b : Block} {blocks : List Block} (hb : b ∈ blocks) :
    b.value.length < (blocks.flatMap Block.wire).length := by
  obtain ⟨before, after, rfl⟩ := List.append_of_mem hb
  have hpos := List.length_pos_of_ne_nil (Codec.varNumber_ne_nil b.type)
  simp only [List.flatMap_append, List.flatMap_cons, List.length_append, Block.wire]
  omega

/-- Blocks of valid types in a sequence that fits into memory are valid. -/
theorem Block.valid_of_mem {blocks : List Block} (hlength : (blocks.flatMap Block.wire).length < 2 ^ 64)
    {b : Block} (hb : b ∈ blocks) (hpos : 0 < b.type) (hlt : b.type < 2 ^ 32) : b.Valid where
  type_pos := hpos
  type_lt := hlt
  length_lt := (Block.length_value_lt hb).trans hlength

/-! ## Names -/

/-- The components have types that a TLV block may have, as those of an `ndn::Name`. -/
def Name.Valid (n : Name) : Prop := ∀ c ∈ n.components, 0 < c.type ∧ c.type < 2 ^ 32

instance (n : Name) : Decidable n.Valid :=
  inferInstanceAs (Decidable (∀ c ∈ n.components, _))

theorem Name.wireEncode_value (n : Name) :
    n.wireEncode.value = (n.components.map Component.block).flatMap Block.wire := by
  rw [Name.wireEncode, List.flatMap_map]

/-- A name is read back. -/
theorem Codec.decodeName_wireEncode {n : Name} (h : n.Valid)
    (hlength : n.wireEncode.value.length < 2 ^ 64) :
    packetFormat.decodeName n.wireEncode = some n := by
  rw [Name.wireEncode_value] at hlength
  have hvalid : ∀ b ∈ n.components.map Component.block, b.Valid := by
    intro b hb
    obtain ⟨c, hc, rfl⟩ := List.mem_map.mp hb
    exact Block.valid_of_mem hlength hb (h c hc).1 (h c hc).2
  have hread := elements_wires hvalid
  rw [← Name.wireEncode_value] at hread
  have hblocks : readBlocks n.wireEncode.value.length n.wireEncode.value =
      some (n.components.map Component.block) := hread
  have htype : n.wireEncode.type = tlv.Name := rfl
  have hback : n.components.map ((fun c => { type := c.type, value := c.value : Component }) ∘
      Component.block) = n.components := List.map_id _
  simp only [packetFormat, htype, guard, if_true, Option.bind_eq_bind, Option.bind_some,
    hblocks, List.map_map, hback, pure]

/-! ## Encoders -/

namespace EncodingBuffer

/-- The encoder puts the bytes in front of the buffer and returns their number. -/
def Prepends (m : EncodingBuffer Nat) (bytes : List UInt8) : Prop :=
  ∀ buffer, m buffer = (bytes.length, bytes ++ buffer)

theorem prepends_block (b : Block) : Prepends (prependBlock b) b.wire := fun _ => rfl

theorem prepends_varNumber (n : Nat) : Prepends (prependVarNumber n) (Codec.varNumber n) :=
  fun _ => rfl

/-- An integer block is written as such. -/
theorem prepends_integerBlock (type : Nat) (n : UInt64) :
    Prepends (prependNonNegativeIntegerBlock type n)
      (Block.wire { type := type, value := Codec.integerBytes n }) := by
  intro buffer
  simp only [prependNonNegativeIntegerBlock, prependBytes, prependVarNumber, bind, StateT.bind,
    pure, StateT.pure, Block.wire, List.append_assoc, List.length_append]
  congr 1
  omega

/-- A loop whose rounds add up what they write puts the last round's bytes first. -/
theorem prepends_foldlM {α : Type} {round : Nat → α → EncodingBuffer Nat} {bytes : α → List UInt8}
    (h : ∀ total a buffer, round total a buffer =
      (total + (bytes a).length, bytes a ++ buffer)) (l : List α) :
    Prepends (l.foldlM round 0) (l.reverse.flatMap bytes) := by
  have key : ∀ total buffer, l.foldlM round total buffer =
      (total + (l.reverse.flatMap bytes).length, l.reverse.flatMap bytes ++ buffer) := by
    induction l with
    | nil =>
      intro total buffer
      rfl
    | cons a l ih =>
      intro total buffer
      rw [List.foldlM_cons]
      simp only [bind, StateT.bind, h, ih, List.reverse_cons, List.flatMap_append,
        List.flatMap_singleton, List.append_assoc, List.length_append]
      congr 1
      omega
  intro buffer
  rw [key, Nat.zero_add]

end EncodingBuffer

end Svs
