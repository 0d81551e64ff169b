import GServer.Library.Chunks
import GServer.Library.Doubles
import GServer.Library.Outcome
import GServer.Library.Runs

/-!
# The chunked byte array

`ByteArray` keeps its bytes in a linked list of nodes of `m_basesize` bytes.
`cur` is the index of the node that `m_cur` points to, and `nodes.length` where
it is null.  A call returns, throws (`std::out_of_range`), or faults where the
source goes through a null `m_cur` or `next`.

The contents of a fresh node are not specified by the source; they lie beyond
`m_size` until they are written.  Memory is never exhausted, and positions are
not bounded by `size_t`: they count bytes that are allocated.
-/

namespace Agent

open Faults

/-- `ByteArray`; `littleEndian` is `m_endian == AGENT_LIMITE_ENDIAN`. -/
structure ByteArray where
  baseSize : Nat
  position : Nat
  capacity : Nat
  size : Nat
  littleEndian : Bool
  nodes : List (List UInt8)
  cur : Nat
deriving DecidableEq

/-- An `iovec`: a range of a node. -/
structure IoVec where
  node : Nat
  base : Nat
  len : Nat
deriving DecidableEq

namespace ByteArray

/-- A call on a byte array. -/
abbrev Op (α : Type) : Type := Program ByteArray α

/-- `ByteArray::ByteArray`, on a little-endian host. -/
def new (baseSize : Nat) : ByteArray :=
  { baseSize := baseSize, position := 0, capacity := baseSize, size := 0
    littleEndian := true, nodes := [List.replicate baseSize 0], cur := 0 }

/-- `ByteArray::getReadSize`. -/
def getReadSize (s : ByteArray) : Nat :=
  s.size - s.position

/-- `ByteArray::getRemainAmount`. -/
def getRemainAmount (s : ByteArray) : Nat :=
  s.capacity - s.position

/-- `ceil(size * 1.0 / m_basesize)`, converted to `size_t` and then to `int`: the
number of turns of the loop that adds nodes. -/
@[irreducible] def nodeCount (size baseSize : Nat) : Nat :=
  (Int.bmod (Doubles.ceilQuotient (Doubles.toDouble size) (Doubles.toDouble baseSize))
    (2 ^ 32)).toNat

/-- `ByteArray::addCapacity`. -/
def addCapacity (s : ByteArray) (size : Nat) : Option ByteArray :=
  let ra := s.getRemainAmount
  if size ≤ ra then some s
  else
    let count := nodeCount (size - ra) s.baseSize
    match s.nodes[s.cur]? with
    | none => none
    | some _ =>
        some { s with
          nodes := s.nodes ++ List.replicate count (List.replicate s.baseSize 0)
          capacity := s.capacity + count * s.baseSize
          cur := if ra = 0 then s.cur + 1 else s.cur }

/-- The loop of `write` from `m_cur` on: the nodes it leaves and by how many
`m_cur` moves. -/
def writeLoop : List (List UInt8) → Nat → List UInt8 → Option (List (List UInt8) × Nat)
  | [], _, _ => none
  | node :: rest, npos, buf =>
      let ncap := node.length - npos
      if buf.length ≤ ncap then
        some (Chunks.overwrite node npos buf :: rest,
          if node.length = npos + buf.length then 1 else 0)
      else
        match writeLoop rest 0 (buf.drop ncap) with
        | none => none
        | some (rest', k) => some (Chunks.overwrite node npos (buf.take ncap) :: rest', k + 1)

/-- `ByteArray::write`. -/
def write (buf : List UInt8) : Op Unit := fun s =>
  if buf = [] then .ok () s
  else
    match s.addCapacity buf.length with
    | none => .fault
    | some s =>
        match writeLoop (s.nodes.drop s.cur) (s.position % s.baseSize) buf with
        | none => .fault
        | some (written, k) =>
            .ok () { s with
              nodes := s.nodes.take s.cur ++ written
              cur := s.cur + k
              position := s.position + buf.length
              size := max s.size (s.position + buf.length) }

/-- The loop of `read` from `m_cur` on: the bytes it copies and by how many `m_cur`
moves. -/
def readLoop : List (List UInt8) → Nat → Nat → Option (List UInt8 × Nat)
  | [], _, _ => none
  | node :: rest, npos, size =>
      let ncap := node.length - npos
      if size = 0 then some ([], 0)
      else if size ≤ ncap then
        some ((node.drop npos).take size, if node.length = npos + size then 1 else 0)
      else
        match readLoop rest 0 (size - ncap) with
        | none => none
        | some (bytes, k) => some (node.drop npos ++ bytes, k + 1)

/-- `ByteArray::read`. -/
def read (size : Nat) : Op (List UInt8) := fun s =>
  if s.getReadSize < size then .throws s
  else
    match readLoop (s.nodes.drop s.cur) (s.position % s.baseSize) size with
    | none => .fault
    | some (bytes, k) =>
        .ok bytes { s with cur := s.cur + k, position := s.position + size }

/-- The loop of `setPosition`: by how many nodes `m_cur` moves from the root. -/
def seekLoop : List (List UInt8) → Nat → Option Nat
  | [], _ => none
  | node :: rest, pos =>
      if node.length < pos then
        match seekLoop rest (pos - node.length) with
        | none => none
        | some k => some (k + 1)
      else some (if pos = node.length then 1 else 0)

/-- `ByteArray::setPosition`. -/
def setPosition (pos : Nat) : Op Unit := fun s =>
  if s.capacity < pos ∨ s.size < pos then .throws s
  else
    match seekLoop s.nodes pos with
    | none => .fault
    | some k => .ok () { s with position := pos, cur := k }

/-- `ByteArray::clear`. -/
def clear : Op Unit := fun s =>
  .ok () { s with position := 0, size := 0, capacity := s.baseSize, cur := 0
                  nodes := s.nodes.take 1 }

/-- The loop of `getReadBuffers` and `getWriteBuffers` from the node with index `i`
on. -/
def buffersLoop : List (List UInt8) → Nat → Nat → Nat → Option (List IoVec)
  | [], _, _, _ => none
  | node :: rest, i, npos, len =>
      let ncap := node.length - npos
      if len ≤ ncap then some [⟨i, npos, len⟩]
      else
        match buffersLoop rest (i + 1) 0 (len - ncap) with
        | none => none
        | some buffers => some (⟨i, npos, ncap⟩ :: buffers)

/-- `ByteArray::getReadBuffers` at the position. -/
def getReadBuffers (len : Nat) : Op (Nat × List IoVec) := fun s =>
  let len := min len s.getReadSize
  if len = 0 then .ok (0, []) s
  else
    match buffersLoop (s.nodes.drop s.cur) s.cur (s.position % s.baseSize) len with
    | none => .fault
    | some buffers => .ok (len, buffers) s

/-- `ByteArray::getWriteBuffers`. -/
def getWriteBuffers (len : Nat) : Op (Nat × List IoVec) := fun s =>
  if len = 0 then .ok (0, []) s
  else
    match s.addCapacity len with
    | none => .fault
    | some s =>
        match buffersLoop (s.nodes.drop s.cur) s.cur (s.position % s.baseSize) len with
        | none => .fault
        | some buffers => .ok (len, buffers) s

/-- `ByteArray::setIsLittleEndian`. -/
def setIsLittleEndian (val : Bool) : Op Unit := fun s =>
  .ok () { s with littleEndian := val }

/-! ## Fixed-width values -/

/-- The `k` low bytes of `v`, the lowest first. -/
def lowBytes : Nat → Nat → List UInt8
  | 0, _ => []
  | k + 1, v => UInt8.ofNat v :: lowBytes k (v / 256)

/-- The number whose bytes these are, the lowest first. -/
def ofLowBytes : List UInt8 → Nat
  | [] => 0
  | b :: bytes => b.toNat + 256 * ofLowBytes bytes

/-- The memory of `v` after the exchange of bytes that `m_endian` asks for. -/
def encode {w : Nat} (littleEndian : Bool) (v : BitVec w) : List UInt8 :=
  if littleEndian then lowBytes (w / 8) v.toNat else (lowBytes (w / 8) v.toNat).reverse

/-- The value read back from memory. -/
def decode (w : Nat) (littleEndian : Bool) (bytes : List UInt8) : BitVec w :=
  BitVec.ofNat w (ofLowBytes (if littleEndian then bytes else bytes.reverse))

/-- What the `writeF..` functions do with an integer of `w` bits. -/
def writeFixed {w : Nat} (v : BitVec w) : Op Unit := fun s =>
  write (encode s.littleEndian v) s

/-- What the `readF..` functions do for an integer of `w` bits. -/
def readFixed (w : Nat) : Op (BitVec w) := fun s =>
  (read (w / 8) s).map (decode w s.littleEndian)

def writeFint8 (value : BitVec 8) : Op Unit := writeFixed value
def writeFuint8 (value : BitVec 8) : Op Unit := writeFixed value
def writeFint16 (value : BitVec 16) : Op Unit := writeFixed value
def writeFuint16 (value : BitVec 16) : Op Unit := writeFixed value
def writeFint32 (value : BitVec 32) : Op Unit := writeFixed value
def writeFuint32 (value : BitVec 32) : Op Unit := writeFixed value
def writeFint64 (value : BitVec 64) : Op Unit := writeFixed value
def writeFuint64 (value : BitVec 64) : Op Unit := writeFixed value

/-- `ByteArray::writeFloat`, on the bits of the value. -/
def writeFloat (bits : BitVec 32) : Op Unit := writeFuint32 bits

/-- `ByteArray::writeDouble`, on the bits of the value. -/
def writeDouble (bits : BitVec 64) : Op Unit := writeFuint64 bits

def readFint8 : Op (BitVec 8) := readFixed 8
def readFuint8 : Op (BitVec 8) := readFixed 8
def readFint16 : Op (BitVec 16) := readFixed 16
def readFuint16 : Op (BitVec 16) := readFixed 16
def readFint32 : Op (BitVec 32) := readFixed 32
def readFuint32 : Op (BitVec 32) := readFixed 32
def readFint64 : Op (BitVec 64) := readFixed 64
def readFuint64 : Op (BitVec 64) := readFixed 64
def readFloat : Op (BitVec 32) := readFuint32
def readDouble : Op (BitVec 64) := readFuint64

/-! ## Variable-width values -/

/-- `EncodingZigzag32` and `EncodeZigzag64`. -/
def encodeZigzag {w : Nat} (v : BitVec w) : BitVec w :=
  if v.msb then -v * 2 - 1 else v * 2

/-- `DecodeZigzag32` and `DecodeZigzag64`. -/
def decodeZigzag {w : Nat} (v : BitVec w) : BitVec w :=
  (v >>> 1) ^^^ -(v &&& 1)

/-- The bytes `tmp` that `writeUint32` and `writeUint64` fill, at most `n`. -/
def varintBytes : Nat → Nat → List UInt8
  | 0, _ => []
  | n + 1, value =>
      if 0x80 ≤ value then
        UInt8.ofNat ((value &&& 0x7F) ||| 0x80) :: varintBytes n (value >>> 7)
      else [UInt8.ofNat value]

def writeUint32 (value : BitVec 32) : Op Unit := write (varintBytes 5 value.toNat)
def writeUint64 (value : BitVec 64) : Op Unit := write (varintBytes 10 value.toNat)
def writeInt32 (value : BitVec 32) : Op Unit := writeUint32 (encodeZigzag value)
def writeInt64 (value : BitVec 64) : Op Unit := writeUint64 (encodeZigzag value)

/-- The loop of `readUint32` and `readUint64` with `n` turns left. -/
def readVarint (w : Nat) : Nat → Nat → BitVec w → Op (BitVec w)
  | 0, _, result => pure result
  | n + 1, i, result => do
      let b ← readFuint8
      if b < 0x80 then pure (result ||| (b.setWidth w <<< i))
      else readVarint w n (i + 7) (result ||| ((b &&& 0x7F).setWidth w <<< i))

def readUint32 : Op (BitVec 32) := readVarint 32 5 0 0
def readUint64 : Op (BitVec 64) := readVarint 64 10 0 0
def readInt32 : Op (BitVec 32) := do return decodeZigzag (← readUint32)
def readInt64 : Op (BitVec 64) := do return decodeZigzag (← readUint64)

/-! ## Strings -/

def writeStringF16 (value : List UInt8) : Op Unit := do
  writeFuint16 (BitVec.ofNat 16 value.length)
  write value

def writeStringF32 (value : List UInt8) : Op Unit := do
  writeFuint32 (BitVec.ofNat 32 value.length)
  write value

def writeStringF64 (value : List UInt8) : Op Unit := do
  writeFuint64 (BitVec.ofNat 64 value.length)
  write value

def writeStringVint (value : List UInt8) : Op Unit := do
  writeUint64 (BitVec.ofNat 64 value.length)
  write value

def writeStringWithoutLength (value : List UInt8) : Op Unit := write value

def readStringF16 : Op (List UInt8) := do read (← readFuint16).toNat
def readStringF32 : Op (List UInt8) := do read (← readFuint32).toNat
def readStringF64 : Op (List UInt8) := do read (← readFuint64).toNat
def readStringVint : Op (List UInt8) := do read (← readUint64).toNat

end ByteArray

end Agent
