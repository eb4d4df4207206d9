/-
  ParticleMesh — the BLAKE3 hash.

  A byte string is cut into chunks of 1024 bytes and these into blocks of 64.
  `compress` mixes a block into a chaining value; a chunk is the chain of its
  blocks, and the chunks are the leaves of a binary tree whose left subtrees are
  full. The root's last compression carries a flag of its own and gives the
  digest.

  * `Node` is a compression that is still to be done: that of the last block of a
    chunk, or of a pair of subtrees;
  * `chunk` and `parent` build nodes, `tree` joins them;
  * `hash` is the digest of 32 bytes.
-/
import ParticleMesh.Bytes

namespace ParticleMesh.Blake3

/-- Sixteen words: a block of the message, or the state of a compression. -/
structure Words where
  (w0 w1 w2 w3 w4 w5 w6 w7 w8 w9 w10 w11 w12 w13 w14 w15 : UInt32)
deriving Inhabited

/-- A chaining value: eight words. -/
structure Chain where
  (h0 h1 h2 h3 h4 h5 h6 h7 : UInt32)
deriving Inhabited

def start : Chain :=
  ⟨0x6A09E667, 0xBB67AE85, 0x3C6EF372, 0xA54FF53A, 0x510E527F, 0x9B05688C, 0x1F83D9AB, 0x5BE0CD19⟩

/-- Flag of the first block of a chunk. -/
def chunkStart : UInt32 := 1
/-- Flag of the last block of a chunk. -/
def chunkEnd : UInt32 := 2
/-- Flag of a pair of subtrees. -/
def parentFlag : UInt32 := 4
def rootFlag : UInt32 := 8

def rotate (x n : UInt32) : UInt32 := (x >>> n) ||| (x <<< (32 - n))

/-- Four words of the state, mixed together. -/
structure Quarter where
  (a b c d : UInt32)

/-- Mixes four words of the state with two words of the message. -/
def mix (a b c d x y : UInt32) : Quarter :=
  let a := a + b + x
  let d := rotate (d ^^^ a) 16
  let c := c + d
  let b := rotate (b ^^^ c) 12
  let a := a + b + y
  let d := rotate (d ^^^ a) 8
  let c := c + d
  let b := rotate (b ^^^ c) 7
  ⟨a, b, c, d⟩

/-- One round: the columns of the state, then its diagonals. -/
def round (v m : Words) : Words :=
  let p0 := mix v.w0 v.w4 v.w8 v.w12 m.w0 m.w1
  let p1 := mix v.w1 v.w5 v.w9 v.w13 m.w2 m.w3
  let p2 := mix v.w2 v.w6 v.w10 v.w14 m.w4 m.w5
  let p3 := mix v.w3 v.w7 v.w11 v.w15 m.w6 m.w7
  let q0 := mix p0.a p1.b p2.c p3.d m.w8 m.w9
  let q1 := mix p1.a p2.b p3.c p0.d m.w10 m.w11
  let q2 := mix p2.a p3.b p0.c p1.d m.w12 m.w13
  let q3 := mix p3.a p0.b p1.c p2.d m.w14 m.w15
  ⟨q0.a, q1.a, q2.a, q3.a, q3.b, q0.b, q1.b, q2.b,
    q2.c, q3.c, q0.c, q1.c, q1.d, q2.d, q3.d, q0.d⟩

/-- The order in which the next round reads the words of the message. -/
def permute (m : Words) : Words :=
  ⟨m.w2, m.w6, m.w3, m.w10, m.w7, m.w0, m.w4, m.w13,
    m.w1, m.w11, m.w12, m.w5, m.w9, m.w14, m.w15, m.w8⟩

/-- Rounds of which each reads the message in the next order. -/
def rounds : Nat → Words → Words → Words
  | 0, v, _ => v
  | n + 1, v, m => rounds n (round v m) (permute m)

/-- A compression: chaining value, block, number of the chunk, bytes in the block,
    and flags. -/
structure Node where
  (chain : Chain)
  (block : Words)
  (counter : UInt64)
  (size : UInt32)
  (flags : UInt32)

/-- The chaining value that a compression gives. -/
def compress (n : Node) : Chain :=
  let h := n.chain
  let v : Words := ⟨h.h0, h.h1, h.h2, h.h3, h.h4, h.h5, h.h6, h.h7,
    start.h0, start.h1, start.h2, start.h3, n.counter.toUInt32, (n.counter >>> 32).toUInt32,
    n.size, n.flags⟩
  let v := rounds 7 v n.block
  ⟨v.w0 ^^^ v.w8, v.w1 ^^^ v.w9, v.w2 ^^^ v.w10, v.w3 ^^^ v.w11,
    v.w4 ^^^ v.w12, v.w5 ^^^ v.w13, v.w6 ^^^ v.w14, v.w7 ^^^ v.w15⟩

/-- The word of four bytes, lowest first. -/
def word : Bytes → UInt32
  | [a, b, c, d] =>
    a.toUInt32 ||| (b.toUInt32 <<< 8) ||| (c.toUInt32 <<< 16) ||| (d.toUInt32 <<< 24)
  | _ => 0

/-- The words of a block of 64 bytes. -/
def wordsOf (bs : Bytes) : Words :=
  let w (i : Nat) := word ((bs.drop (4 * i)).take 4)
  ⟨w 0, w 1, w 2, w 3, w 4, w 5, w 6, w 7, w 8, w 9, w 10, w 11, w 12, w 13, w 14, w 15⟩

/-- A byte string cut into pieces of `n` bytes, the last one not empty; the empty
    string is one piece. -/
def cut (n : Nat) : Nat → Bytes → List Bytes
  | 0, bs => [bs]
  | k + 1, bs =>
    match bs.drop n with
    | [] => [bs]
    | rest => bs.take n :: cut n k rest

/-- The last compression of a chunk, after the chaining value of its blocks so
    far. -/
def chainBlocks (counter : UInt64) (chain : Chain) (flags : UInt32) : List Bytes → Node
  | [] => ⟨chain, wordsOf (List.replicate 64 0), counter, 0, flags ||| chunkEnd⟩
  | [b] =>
    ⟨chain, wordsOf (b ++ List.replicate (64 - b.length) 0), counter, b.length.toUInt32,
      flags ||| chunkEnd⟩
  | b :: bs =>
    chainBlocks counter (compress ⟨chain, wordsOf b, counter, 64, flags⟩) 0 bs

/-- The last compression of a chunk. -/
def chunk (counter : UInt64) (bs : Bytes) : Node :=
  chainBlocks counter start chunkStart (cut 64 16 bs)

/-- The compression that joins two subtrees. -/
def parent (l r : Chain) : Node :=
  ⟨start, ⟨l.h0, l.h1, l.h2, l.h3, l.h4, l.h5, l.h6, l.h7,
    r.h0, r.h1, r.h2, r.h3, r.h4, r.h5, r.h6, r.h7⟩, 0, 64, parentFlag⟩

/-- Joins neighbours; one that is left over stays. -/
def pairs : List Node → List Node
  | l :: r :: ns => parent (compress l) (compress r) :: pairs ns
  | ns => ns

/-- The root over a row of nodes, joined level by level. -/
def tree : Nat → List Node → Node
  | _, [n] => n
  | k + 1, ns => tree k (pairs ns)
  | 0, ns => ns.headD (chunk 0 [])

/-- The bytes of a chaining value, each word lowest byte first. -/
def Chain.bytes (c : Chain) : Bytes :=
  [c.h0, c.h1, c.h2, c.h3, c.h4, c.h5, c.h6, c.h7].flatMap (fun w => Bytes.little 4 w.toNat)

def chunks (bs : Bytes) : List Node :=
  (cut 1024 (bs.length / 1024) bs).mapIdx (fun i c => chunk (UInt64.ofNat i) c)

/-- The BLAKE3 digest of a byte string. -/
def hash (bs : Bytes) : Octets 32 :=
  let leaves := chunks bs
  let root := tree leaves.length leaves
  ⟨(compress { root with flags := root.flags ||| rootFlag }).bytes, by simp [Chain.bytes]⟩

end ParticleMesh.Blake3
