/-!
# BLAKE3

The hash function in its default mode.  The input is cut into chunks of 1024 bytes and each chunk
into blocks of 64 bytes; the chunks are the leaves of a binary tree whose left branches are full,
and the hash is what comes out of its root.  Every step is the same compression of eight words and
a block, told apart by flags.
-/

namespace LocalCloud.Blake3

/-- The eight words that one compression passes to the next. -/
abbrev Chain := Vector UInt32 8

/-- The sixteen words of a block; the state of a compression is as large. -/
abbrev Block := Vector UInt32 16

/-- The words that every chunk begins with. -/
def start : Chain :=
  #v[0x6a09e667, 0xbb67ae85, 0x3c6ef372, 0xa54ff53a, 0x510e527f, 0x9b05688c, 0x1f83d9ab, 0x5be0cd19]

/-- The place from which each word of the next round's block is taken. -/
def schedule : Vector (Fin 16) 16 := #v[2, 6, 3, 10, 7, 0, 4, 13, 1, 11, 12, 5, 9, 14, 15, 8]

def rotateRight (x count : UInt32) : UInt32 := (x >>> count) ||| (x <<< (32 - count))

/-- Mixes two words of a block into four words of the state. -/
def mix (v : Block) (a b c d : Fin 16) (x y : UInt32) : Block :=
  let va := v[a] + v[b] + x
  let vd := rotateRight (v[d] ^^^ va) 16
  let vc := v[c] + vd
  let vb := rotateRight (v[b] ^^^ vc) 12
  let va := va + vb + y
  let vd := rotateRight (vd ^^^ va) 8
  let vc := vc + vd
  let vb := rotateRight (vb ^^^ vc) 7
  (((v.set a va).set b vb).set c vc).set d vd

/-- Mixes a block into the state, by columns and then by diagonals. -/
def round (v m : Block) : Block :=
  let v := mix v 0 4 8 12 m[0] m[1]
  let v := mix v 1 5 9 13 m[2] m[3]
  let v := mix v 2 6 10 14 m[4] m[5]
  let v := mix v 3 7 11 15 m[6] m[7]
  let v := mix v 0 5 10 15 m[8] m[9]
  let v := mix v 1 6 11 12 m[10] m[11]
  let v := mix v 2 7 8 13 m[12] m[13]
  mix v 3 4 9 14 m[14] m[15]

/-- The given number of rounds. -/
def rounds : Nat → Block → Block → Block
  | 0, v, _ => v
  | n + 1, v, m => rounds n (round v m) (schedule.map fun i => m[i])

/-- Compresses a block into a chain. -/
def compress (chain : Chain) (block : Block) (counter : UInt64) (length flags : UInt32) : Chain :=
  let v := rounds 7
    (chain ++ #v[0x6a09e667, 0xbb67ae85, 0x3c6ef372, 0xa54ff53a,
      counter.toUInt32, (counter >>> 32).toUInt32, length, flags]) block
  Vector.ofFn fun i : Fin 8 => v[i.val] ^^^ v[i.val + 8]

/-! ## Flags -/

def chunkStart : UInt32 := 1
def chunkEnd : UInt32 := 2
def parent : UInt32 := 4
def root : UInt32 := 8

/-! ## Chunks and the tree -/

def chunkSize : Nat := 1024

def blockSize : Nat := 64

/-- A byte of the input, zero behind its end. -/
def byteAt (input : ByteArray) (i : Nat) : UInt32 :=
  if h : i < input.size then input[i].toUInt32 else 0

/-- The block that begins at a place of the input, filled up with zeros. -/
def blockAt (input : ByteArray) (i : Nat) : Block :=
  Vector.ofFn fun w : Fin 16 =>
    let first := i + 4 * w.val
    byteAt input first ||| (byteAt input (first + 1) <<< 8) |||
      (byteAt input (first + 2) <<< 16) ||| (byteAt input (first + 3) <<< 24)

/-- The last compression of a subtree, which is done once it is known whether it is the root. -/
structure Output where
  chain : Chain
  block : Block
  counter : UInt64
  length : UInt32
  flags : UInt32

/-- The result of a compression with more flags. -/
def Output.finish (o : Output) (flags : UInt32) : Chain :=
  compress o.chain o.block o.counter o.length (o.flags ||| flags)

/-- The last compression of a chunk whose bytes from the given place on are left. -/
def chunkOutput (chunk : ByteArray) (counter : UInt64) (i : Nat) (chain : Chain) : Output :=
  let first := if i = 0 then chunkStart else 0
  if i + blockSize < chunk.size then
    chunkOutput chunk counter (i + blockSize)
      (compress chain (blockAt chunk i) counter blockSize.toUInt32 first)
  else
    { chain, block := blockAt chunk i, counter
      length := (chunk.size - i).toUInt32, flags := first ||| chunkEnd }
termination_by chunk.size - i
decreasing_by simp only [blockSize] at *; omega

/-- How much of an input of several chunks goes to the left branch: the largest power of two of
chunks that leaves something for the right one. -/
def leftSize (size : Nat) : Nat := chunkSize * Nat.pow 2 (Nat.log2 ((size - 1) / chunkSize))

theorem leftSize_pos (size : Nat) : 0 < leftSize size := by
  exact Nat.mul_pos (by decide) (Nat.two_pow_pos _)

theorem leftSize_lt {size : Nat} (h : chunkSize < size) : leftSize size < size := by
  have pos : (size - 1) / chunkSize ≠ 0 := by
    have : 1 ≤ (size - 1) / chunkSize := by
      rw [Nat.le_div_iff_mul_le (by decide)]
      omega
    omega
  have hlog : Nat.pow 2 (Nat.log2 ((size - 1) / chunkSize)) ≤ (size - 1) / chunkSize :=
    Nat.log2_self_le pos
  have hmul := Nat.mul_le_mul_left chunkSize hlog
  have hdiv := Nat.mul_div_le (size - 1) chunkSize
  simp only [leftSize]
  omega

/-- The last compression of a part of the input whose first chunk has the given number. -/
def treeOutput (input : ByteArray) (number : Nat) : Output :=
  if _ : chunkSize < input.size then
    let size := leftSize input.size
    let left := (treeOutput (input.extract 0 size) number).finish 0
    let right := (treeOutput (input.extract size input.size) (number + size / chunkSize)).finish 0
    { chain := start, block := left ++ right, counter := 0
      length := blockSize.toUInt32, flags := parent }
  else chunkOutput input number.toUInt64 0 start
termination_by input.size
decreasing_by
  · have := leftSize_lt ‹chunkSize < input.size›
    simp only [ByteArray.size_extract]
    omega
  · have := leftSize_pos input.size
    have := leftSize_lt ‹chunkSize < input.size›
    simp only [ByteArray.size_extract]
    omega

/-- The bytes of a word, the lowest first. -/
def wordBytes (w : UInt32) : List UInt8 :=
  [w.toUInt8, (w >>> 8).toUInt8, (w >>> 16).toUInt8, (w >>> 24).toUInt8]

/-- The hash of an input, 32 bytes. -/
def hash (input : ByteArray) : ByteArray :=
  ((treeOutput input 0).finish root).toList.flatMap wordBytes |>.toByteArray

end LocalCloud.Blake3
