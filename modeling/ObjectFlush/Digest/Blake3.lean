import ObjectFlush.Bytes

/-!
BLAKE3 as a streaming hasher. The state takes one byte at a time; a full block is compressed when
the next byte arrives, a full chunk becomes a leaf, and equal-height subtrees merge as in a binary
counter. The root is folded from what is left when the input ends.
-/

namespace ObjectFlush.Digest.Blake3

/-- Eight words that summarise a subtree, or sixteen words of a block or a state. -/
abbrev Words := Array UInt32

/-- The words every unkeyed hash starts from. -/
def initial : Words :=
  #[0x6A09E667, 0xBB67AE85, 0x3C6EF372, 0xA54FF53A, 0x510E527F, 0x9B05688C, 0x1F83D9AB, 0x5BE0CD19]

/-- The order in which a round takes the words of the round before. -/
def permutation : Array Nat := #[2, 6, 3, 10, 7, 0, 4, 13, 1, 11, 12, 5, 9, 14, 15, 8]

/-- Marks the first block of a chunk. -/
def chunkStart : UInt32 := 1

/-- Marks the last block of a chunk. -/
def chunkEnd : UInt32 := 2

/-- Marks a node that joins two subtrees. -/
def parent : UInt32 := 4

/-- Marks the node the digest is read from. -/
def root : UInt32 := 8

def rotateRight (x n : UInt32) : UInt32 := (x >>> n) ||| (x <<< (32 - n))

/-- Mixes two message words into a column or a diagonal of the state. -/
def mix (s : Words) (a b c d : Nat) (x y : UInt32) : Words :=
  let va := s.getD a 0 + s.getD b 0 + x
  let vd := rotateRight (s.getD d 0 ^^^ va) 16
  let vc := s.getD c 0 + vd
  let vb := rotateRight (s.getD b 0 ^^^ vc) 12
  let va := va + vb + y
  let vd := rotateRight (vd ^^^ va) 8
  let vc := vc + vd
  let vb := rotateRight (vb ^^^ vc) 7
  (((s.setIfInBounds a va).setIfInBounds b vb).setIfInBounds c vc).setIfInBounds d vd

/-- One round: the four columns, then the four diagonals. -/
def round (s m : Words) : Words :=
  let s := mix s 0 4 8 12 (m.getD 0 0) (m.getD 1 0)
  let s := mix s 1 5 9 13 (m.getD 2 0) (m.getD 3 0)
  let s := mix s 2 6 10 14 (m.getD 4 0) (m.getD 5 0)
  let s := mix s 3 7 11 15 (m.getD 6 0) (m.getD 7 0)
  let s := mix s 0 5 10 15 (m.getD 8 0) (m.getD 9 0)
  let s := mix s 1 6 11 12 (m.getD 10 0) (m.getD 11 0)
  let s := mix s 2 7 8 13 (m.getD 12 0) (m.getD 13 0)
  mix s 3 4 9 14 (m.getD 14 0) (m.getD 15 0)

/-- The message words in the order of the next round. -/
def permute (m : Words) : Words := permutation.map fun i => m.getD i 0

/-- `n` rounds, permuting the message between them. -/
def rounds : Nat → Words → Words → Words
  | 0, s, _ => s
  | n + 1, s, m => rounds n (round s m) (permute m)

/-- A node of the tree before it is compressed. -/
structure Node where
  chaining : Words
  block : Words
  counter : Nat
  length : Nat
  flags : UInt32

namespace Node

/-- The eight words that stand for this node, with `extra` flags. -/
def compress (n : Node) (extra : UInt32) : Words :=
  let cv := n.chaining
  let s := rounds 7
    (cv ++ #[0x6A09E667, 0xBB67AE85, 0x3C6EF372, 0xA54FF53A,
      UInt32.ofNat (n.counter % UInt32.size), UInt32.ofNat (n.counter / UInt32.size % UInt32.size),
      UInt32.ofNat n.length, n.flags ||| extra])
    n.block
  (Array.range 8).map fun i => s.getD i 0 ^^^ s.getD (i + 8) 0

/-- The node over two subtrees. -/
def join (left right : Words) : Node :=
  { chaining := initial, block := left ++ right, counter := 0, length := 64, flags := parent }

end Node

/-- What has been absorbed: the finished subtrees, smallest first and with their heights, and the
chunk being filled. -/
structure Hasher where
  subtrees : List (Nat × Words) := []
  chunks : Nat := 0
  chaining : Words := initial
  blocks : Nat := 0
  block : Array UInt8 := #[]

namespace Hasher

/-- Sixteen little-endian words of a block of at most 64 bytes, padded with zeros. -/
def blockWords (b : Array UInt8) : Words :=
  (Array.range 16).map fun i =>
    let part := fun j => (b.getD (4 * i + j) 0).toUInt32
    part 0 ||| (part 1 <<< 8) ||| (part 2 <<< 16) ||| (part 3 <<< 24)

/-- The block being filled, as a node. -/
def node (h : Hasher) : Node :=
  { chaining := h.chaining, block := blockWords h.block, counter := h.chunks,
    length := h.block.size, flags := if h.blocks = 0 then chunkStart else 0 }

/-- Adds a subtree, merging it with every finished subtree of its own height on the way. -/
def carry (height : Nat) (words : Words) : List (Nat × Words) → List (Nat × Words)
  | [] => [(height, words)]
  | (h, w) :: rest =>
    if h = height then carry (height + 1) ((Node.join w words).compress 0) rest
    else (height, words) :: (h, w) :: rest

/-- Takes one byte. -/
def absorb (h : Hasher) (byte : UInt8) : Hasher :=
  if h.block.size < 64 then { h with block := h.block.push byte }
  else if h.blocks < 15 then
    { h with chaining := h.node.compress 0, blocks := h.blocks + 1, block := #[byte] }
  else
    { subtrees := carry 0 (h.node.compress chunkEnd) h.subtrees, chunks := h.chunks + 1,
      chaining := initial, blocks := 0, block := #[byte] }

/-- Joins the finished subtrees onto the last node, smallest first. -/
def fold (last : Node) : List (Nat × Words) → Node
  | [] => last
  | (_, w) :: rest => fold (Node.join w (last.compress 0)) rest

/-- The node at the root. -/
def top (h : Hasher) : Node :=
  let last := { h.node with flags := h.node.flags ||| chunkEnd }
  fold last h.subtrees

/-- The 32 bytes of the digest. -/
def finish (h : Hasher) : Bytes :=
  (h.top.compress root).toList.flatMap fun (w : UInt32) =>
    [w.toUInt8, (w >>> 8).toUInt8, (w >>> 16).toUInt8, (w >>> 24).toUInt8]

end Hasher

/-- The 32-byte digest. -/
def hash (data : Bytes) : Bytes := (data.foldl Hasher.absorb {}).finish

end ObjectFlush.Digest.Blake3
