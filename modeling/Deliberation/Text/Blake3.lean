/-!
The BLAKE3 digest of a text.

The bytes are cut into chunks of sixteen blocks. Each chunk is compressed block by block, and
neighbouring chunks are joined in pairs, level by level, until one node is left.
-/

namespace Deliberation.Blake3

abbrev Words (n : Nat) := Vector UInt32 n

/-- The initial chaining value. -/
def iv : Words 8 :=
  #v[0x6a09e667, 0xbb67ae85, 0x3c6ef372, 0xa54ff53a, 0x510e527f, 0x9b05688c, 0x1f83d9ab, 0x5be0cd19]

/-- Where each word of a message goes between two rounds. -/
def permutation : Vector (Fin 16) 16 :=
  #v[2, 6, 3, 10, 7, 0, 4, 13, 1, 11, 12, 5, 9, 14, 15, 8]

def chunkStart : UInt32 := 1
def chunkEnd : UInt32 := 2
def parentFlag : UInt32 := 4
def rootFlag : UInt32 := 8

def rotateRight (x : UInt32) (n : UInt32) : UInt32 :=
  (x >>> n) ||| (x <<< (32 - n))

/-- Mixes two words of a message into four words of the state. -/
def mix (v : Words 16) (a b c d : Fin 16) (x y : UInt32) : Words 16 :=
  let v := v.set a (v[a] + v[b] + x)
  let v := v.set d (rotateRight (v[d] ^^^ v[a]) 16)
  let v := v.set c (v[c] + v[d])
  let v := v.set b (rotateRight (v[b] ^^^ v[c]) 12)
  let v := v.set a (v[a] + v[b] + y)
  let v := v.set d (rotateRight (v[d] ^^^ v[a]) 8)
  let v := v.set c (v[c] + v[d])
  v.set b (rotateRight (v[b] ^^^ v[c]) 7)

/-- Mixes a message into the columns and then the diagonals of the state. -/
def round (v m : Words 16) : Words 16 :=
  let v := mix v 0 4 8 12 m[0] m[1]
  let v := mix v 1 5 9 13 m[2] m[3]
  let v := mix v 2 6 10 14 m[4] m[5]
  let v := mix v 3 7 11 15 m[6] m[7]
  let v := mix v 0 5 10 15 m[8] m[9]
  let v := mix v 1 6 11 12 m[10] m[11]
  let v := mix v 2 7 8 13 m[12] m[13]
  mix v 3 4 9 14 m[14] m[15]

def permute (m : Words 16) : Words 16 :=
  permutation.map fun i => m[i]

def rounds : (count : Nat) → (v m : Words 16) → Words 16
  | 0, v, _ => v
  | count + 1, v, m => rounds count (round v m) (permute m)

/-- A compression that is still to be carried out, for a chaining value or for the digest. -/
structure Node where
  chaining : Words 8
  message : Words 16
  counter : UInt64
  length : UInt32
  flags : UInt32

/-- The first eight words of a compression. -/
def Node.compress (node : Node) (extra : UInt32) : Words 8 :=
  let h := node.chaining
  let v : Words 16 :=
    #v[h[0], h[1], h[2], h[3], h[4], h[5], h[6], h[7], iv[0], iv[1], iv[2], iv[3],
       node.counter.toUInt32, (node.counter >>> 32).toUInt32, node.length, node.flags ||| extra]
  let v := rounds 7 v node.message
  Vector.ofFn fun i : Fin 8 => v[i.val] ^^^ v[i.val + 8]

/-- The word that starts at a byte, lowest byte first; bytes past the end are zero. -/
def wordAt (block : Array UInt8) (start : Nat) : UInt32 :=
  let byte (k : Nat) : UInt32 := (block[start + k]?.getD 0).toUInt32
  byte 0 ||| (byte 1 <<< 8) ||| (byte 2 <<< 16) ||| (byte 3 <<< 24)

def messageOf (block : List UInt8) : Words 16 :=
  let bytes := block.toArray
  Vector.ofFn fun i : Fin 16 => wordAt bytes (4 * i.val)

/-- The pieces of `size` bytes, the last one maybe shorter; no bytes at all are one empty piece. -/
def pieces (size : Nat) (bytes : List UInt8) : List (List UInt8) :=
  let count := max ((bytes.length + size - 1) / size) 1
  (List.range count).map fun i => (bytes.drop (i * size)).take size

/-- The node of a chunk: all blocks but the last are compressed one into the next. -/
def chunkNode (index : Nat) (bytes : List UInt8) : Node :=
  let counter := UInt64.ofNat index
  let blocks := pieces 64 bytes
  let node (chaining : Words 8) (i : Nat) (block : List UInt8) : Node :=
    { chaining
      message := messageOf block
      counter
      length := UInt32.ofNat block.length
      flags :=
        (if i = 0 then chunkStart else 0) ||| (if i + 1 = blocks.length then chunkEnd else 0) }
  let chaining := blocks.dropLast.zipIdx.foldl
    (fun chaining entry => (node chaining entry.2 entry.1).compress 0) iv
  node chaining (blocks.length - 1) (blocks.getLastD [])

/-- The node above two others. -/
def parentNode (left right : Node) : Node :=
  { chaining := iv
    message := left.compress 0 ++ right.compress 0
    counter := 0
    length := 64
    flags := parentFlag }

/-- Joins neighbours; a last one without a neighbour goes up as it is. -/
def joinLevel : List Node → List Node
  | left :: right :: rest => parentNode left right :: joinLevel rest
  | rest => rest

/-- Joins level by level, for as many levels as given. -/
def joinAll : (levels : Nat) → List Node → List Node
  | 0, nodes => nodes
  | levels + 1, nodes => joinAll levels (joinLevel nodes)

def hexDigits (n : UInt32) : String :=
  let bytes := [n, n >>> 8, n >>> 16, n >>> 24].map fun w => w.toNat % 256
  String.ofList (bytes.flatMap fun b => [Nat.digitChar (b / 16), Nat.digitChar (b % 16)])

/-- The digest of some bytes as 64 hexadecimal digits. -/
def hexOfBytes (bytes : List UInt8) : String :=
  let leaves := (pieces 1024 bytes).zipIdx.map fun (chunk, index) => chunkNode index chunk
  match joinAll leaves.length leaves with
  | [] => ""
  | node :: _ => String.join ((node.compress rootFlag).toList.map hexDigits)

/-- The digest of a text. -/
def hex (text : String) : String :=
  hexOfBytes text.toUTF8.toList

end Deliberation.Blake3
