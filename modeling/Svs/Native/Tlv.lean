import Svs.Native.VersionVector

/-!
# TLV blocks

A `Codec` holds what the decoders use of ndn-cxx.  Its functions signal malformed
input by `ndn::tlv::Error`, written here as `none`; `elements().at(i)` throws
`std::out_of_range`, which is not an `ndn::tlv::Error`.

`Codec.packetFormat` is the coding of the NDN packet format.
-/

namespace Svs

/-- `ndn::Block`: its TLV type and its value. -/
structure Block where
  type : Nat
  value : List UInt8
deriving DecidableEq, Repr

/-- The exceptions a decoder throws. -/
inductive Exception
  /-- `ndn::tlv::Error`. -/
  | tlvError
  /-- `std::out_of_range`. -/
  | outOfRange
deriving DecidableEq, Repr

/-- A computation that may throw. -/
abbrev Decoded := Except Exception

namespace tlv

def Name : Nat := 7
def StateVector : Nat := 201
def StateVectorEntry : Nat := 202
def SeqNo : Nat := 204
def MappingData : Nat := 205
def MappingEntry : Nat := 206

end tlv

/-- `none` stands for a thrown `ndn::tlv::Error`. -/
def orTlvError {α : Type*} : Option α → Decoded α
  | some a => .ok a
  | none => .error .tlvError

@[simp] theorem orTlvError_some {α : Type*} (a : α) : orTlvError (some a) = .ok a := rfl

@[simp] theorem orTlvError_none {α : Type*} :
    orTlvError (none : Option α) = .error .tlvError := rfl

/-- `elements().at(i)`. -/
def elementAt (elements : List Block) (i : Nat) : Decoded Block :=
  match elements[i]? with
  | some b => .ok b
  | none => .error .outOfRange

@[simp] theorem elementAt_nil (i : Nat) : elementAt [] i = .error .outOfRange := rfl

@[simp] theorem elementAt_cons_zero (b : Block) (elements : List Block) :
    elementAt (b :: elements) 0 = .ok b := rfl

@[simp] theorem elementAt_cons_succ (b : Block) (elements : List Block) (i : Nat) :
    elementAt (b :: elements) (i + 1) = elementAt elements i := rfl

/-- `Block::get`: the first element of the given type. -/
def getElement (elements : List Block) (type : Nat) : Decoded Block :=
  orTlvError (elements.find? (·.type = type))

/-- The decoding functions of ndn-cxx. -/
structure Codec where
  /-- `Block::parse`, on the value of the block. -/
  elements : List UInt8 → Option (List Block)
  /-- `Name(const Block&)`. -/
  decodeName : Block → Option Name
  /-- `readNonNegativeInteger`. -/
  readNonNegativeInteger : Block → Option UInt64
  /-- `Name::appendNumber`. -/
  appendNumber : Name → UInt64 → Name

namespace Codec

/-- The number that the bytes spell in network order. -/
def bigEndian (bytes : List UInt8) : Nat := bytes.foldl (fun n b => n * 256 + b.toNat) 0

/-- The lowest `size` bytes of a number in network order. -/
def toBigEndian (n : Nat) : Nat → List UInt8
  | 0 => []
  | size + 1 => toBigEndian (n / 256) size ++ [UInt8.ofNat n]

/-- `tlv::readVarNumber`: the number and the bytes after it. -/
def readVarNumber : List UInt8 → Option (Nat × List UInt8)
  | [] => none
  | first :: rest =>
    if first < 253 then some (first.toNat, rest)
    else
      let size := if first = 253 then 2 else if first = 254 then 4 else 8
      if rest.length < size then none else some (bigEndian (rest.take size), rest.drop size)

/-- The first block and the bytes after it. -/
def readBlock (bytes : List UInt8) : Option (Block × List UInt8) := do
  let (type, bytes) ← readVarNumber bytes
  guard (0 < type ∧ type < 2 ^ 32)
  let (length, bytes) ← readVarNumber bytes
  guard (length ≤ bytes.length)
  return ({ type := type, value := bytes.take length }, bytes.drop length)

/-- Block after block until no byte is left; `fuel` bounds their number. -/
def readBlocks : (fuel : Nat) → List UInt8 → Option (List Block)
  | _, [] => some []
  | 0, _ => none
  | fuel + 1, bytes => do
    let (block, rest) ← readBlock bytes
    return block :: (← readBlocks fuel rest)

/-- `tlv::readNonNegativeInteger`: 1, 2, 4 or 8 bytes. -/
def readInteger (block : Block) : Option UInt64 :=
  if block.value.length ∈ [1, 2, 4, 8] then some (.ofNat (bigEndian block.value)) else none

/-- The shortest coding of a non-negative integer. -/
def integerBytes (n : UInt64) : List UInt8 :=
  toBigEndian n.toNat
    (if n.toNat < 2 ^ 8 then 1 else if n.toNat < 2 ^ 16 then 2
     else if n.toNat < 2 ^ 32 then 4 else 8)

/-- The coding of the NDN packet format.  A block takes two bytes at least, so a value
    has no more blocks than bytes. -/
def packetFormat : Codec where
  elements value := readBlocks value.length value
  decodeName block := do
    guard (block.type = tlv.Name)
    let components ← readBlocks block.value.length block.value
    return { components := components.map fun c => { type := c.type, value := c.value } }
  readNonNegativeInteger := readInteger
  appendNumber name n := { components := name.components ++ [{ type := 8, value := integerBytes n }] }

end Codec

end Svs
