import ScriptHost.Text.Number

/-! The BLAKE3 hash of a byte sequence, with its default length of 32 bytes. The input is cut into
chunks of 1024 bytes; the chunks are the leaves of a binary tree whose left subtrees are complete,
and the hash is the output of the root. -/

namespace ScriptHost.Digest.Blake3

/-- A chaining value: eight words. -/
abbrev Chain := Vector UInt32 8

/-- Sixteen words: a message block, or the state that a block is mixed into. -/
abbrev Block := Vector UInt32 16

def iv : Chain :=
  #v[0x6A09E667, 0xBB67AE85, 0x3C6EF372, 0xA54FF53A, 0x510E527F, 0x9B05688C, 0x1F83D9AB, 0x5BE0CD19]

/-- The order in which a round reads the words of the block that the round before it read. -/
def permutation : Vector (Fin 16) 16 := #v[2, 6, 3, 10, 7, 0, 4, 13, 1, 11, 12, 5, 9, 14, 15, 8]

/-! ### Flags -/

def chunkStart : UInt32 := 1
def chunkEnd : UInt32 := 2
def parentNode : UInt32 := 4
def rootNode : UInt32 := 8

/-- The word with its bits turned right by `n`, for `0 < n < 32`. -/
def rotateRight (w n : UInt32) : UInt32 := (w >>> n) ||| (w <<< (32 - n))

/-- Mixes two message words into a column or a diagonal of the state. -/
def quarter (s : Block) (a b c d : Fin 16) (x y : UInt32) : Block :=
  let a1 := s[a] + s[b] + x
  let d1 := rotateRight (s[d] ^^^ a1) 16
  let c1 := s[c] + d1
  let b1 := rotateRight (s[b] ^^^ c1) 12
  let a2 := a1 + b1 + y
  let d2 := rotateRight (d1 ^^^ a2) 8
  let c2 := c1 + d2
  let b2 := rotateRight (b1 ^^^ c2) 7
  (((s.set a a2).set b b2).set c c2).set d d2

/-- One round: the four columns, then the four diagonals. -/
def round (s m : Block) : Block :=
  let s := quarter s 0 4 8 12 m[0] m[1]
  let s := quarter s 1 5 9 13 m[2] m[3]
  let s := quarter s 2 6 10 14 m[4] m[5]
  let s := quarter s 3 7 11 15 m[6] m[7]
  let s := quarter s 0 5 10 15 m[8] m[9]
  let s := quarter s 1 6 11 12 m[10] m[11]
  let s := quarter s 2 7 8 13 m[12] m[13]
  quarter s 3 4 9 14 m[14] m[15]

/-- `n` rounds, the block permuted before each one after the first. -/
def rounds : Nat → Block → Block → Block
  | 0, s, _ => s
  | n + 1, s, m => rounds n (round s m) (permutation.map fun i => m[i])

/-- What is left to compress at a node: its last block, with the chaining value before it. -/
structure Node where
  chain : Chain
  block : Block
  counter : Nat
  length : UInt32
  flags : UInt32

/-- The chaining value that comes out of a node. -/
def Node.output (n : Node) (extra : UInt32) : Chain :=
  let chain := n.chain
  let low := UInt32.ofNat n.counter
  let high := UInt32.ofNat (n.counter / UInt32.size)
  let start : Block := #v[chain[0], chain[1], chain[2], chain[3], chain[4], chain[5], chain[6], chain[7],
    iv[0], iv[1], iv[2], iv[3], low, high, n.length, n.flags ||| extra]
  let s := rounds 7 start n.block
  Vector.ofFn fun i : Fin 8 => s[i.val] ^^^ s[i.val + 8]

/-- The word at position `i` of a block, from bytes in little-endian order with zeros at the end. -/
def wordAt (bytes : ByteArray) (offset : Nat) (i : Nat) : UInt32 :=
  let byte := fun k => ((bytes[offset + 4 * i + k]?).getD 0).toUInt32
  byte 0 ||| (byte 1 <<< 8) ||| (byte 2 <<< 16) ||| (byte 3 <<< 24)

def blockAt (bytes : ByteArray) (offset : Nat) : Block :=
  Vector.ofFn fun i : Fin 16 => wordAt bytes offset i.val

/-- The node of a chunk from its block at `offset` on, up to the chunk's end at `stop`. -/
def chunkNode (bytes : ByteArray) (index stop : Nat) : Nat → Nat → Chain → UInt32 → Node
  | 0, offset, chain, flags => ⟨chain, blockAt bytes offset, index, UInt32.ofNat (stop - offset), flags⟩
  | blocks + 1, offset, chain, flags =>
    let node : Node := ⟨chain, blockAt bytes offset, index, 64, flags⟩
    chunkNode bytes index stop blocks (offset + 64) (node.output 0) 0

/-- The chunk with number `index`: sixteen blocks of 64 bytes, the last chunk as many as it needs. -/
def chunk (bytes : ByteArray) (index : Nat) : Node :=
  let start := 1024 * index
  let stop := min bytes.size (start + 1024)
  let node := chunkNode bytes index stop ((stop - start - 1) / 64) start iv chunkStart
  { node with flags := node.flags ||| chunkEnd }

def parent (left right : Chain) : Node :=
  ⟨iv, (left ++ right : Vector UInt32 16), 0, 64, parentNode⟩

/-- The complete subtrees after `count` chunks, the newest first, once the newest one is complete:
it joins the one before as long as the number of chunks says that both are of one size. -/
def push : List Chain → Chain → Nat → List Chain
  | [], chain, _ => [chain]
  | top :: rest, chain, count =>
    if count % 2 == 0 then push rest ((parent top chain).output 0) (count / 2)
    else chain :: top :: rest

/-- The subtrees of the first `n` chunks. -/
def subtrees (bytes : ByteArray) : Nat → List Chain
  | 0 => []
  | n + 1 => push (subtrees bytes n) ((chunk bytes n).output 0) (n + 1)

/-- The chaining value of the root. -/
def root (bytes : ByteArray) : Chain :=
  let last := (bytes.size - 1) / 1024
  let node := (subtrees bytes last).foldl (fun node left => parent left (node.output 0))
    (chunk bytes last)
  node.output rootNode

/-- The bytes of a word in little-endian order, in hexadecimal. -/
def wordHex (w : UInt32) : List Char :=
  let byte := fun k => Text.hexDigits 2 (w.toNat / Nat.pow 256 k)
  byte 0 ++ byte 1 ++ byte 2 ++ byte 3

/-- The hash of a text's UTF-8 bytes in 64 hexadecimal digits. -/
def hex (s : String) : String := String.ofList ((root s.toUTF8).toList.flatMap wordHex)

end ScriptHost.Digest.Blake3
