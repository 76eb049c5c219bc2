import MemoHints.Numbers
import MemoHints.Text.Hex

/-!
# BLAKE3

The unkeyed 256-bit BLAKE3 digest. Input is cut into chunks of 1024 bytes and each chunk into blocks
of 64 bytes; the chunks are the leaves of a tree whose left subtrees hold a power of two of them.
-/

namespace MemoHints.Blake3

/-- Four words that are worked on at once. -/
structure Row where
  w0 : UInt32
  w1 : UInt32
  w2 : UInt32
  w3 : UInt32
deriving DecidableEq

namespace Row

def map (f : UInt32 → UInt32) (r : Row) : Row := ⟨f r.w0, f r.w1, f r.w2, f r.w3⟩

def zip (f : UInt32 → UInt32 → UInt32) (r s : Row) : Row :=
  ⟨f r.w0 s.w0, f r.w1 s.w1, f r.w2 s.w2, f r.w3 s.w3⟩

def add : Row → Row → Row := zip (· + ·)

def xor : Row → Row → Row := zip (· ^^^ ·)

/-- Each word turned right by so many bits. -/
def turn (bits : UInt32) : Row → Row := map fun w => (w >>> bits) ||| (w <<< (32 - bits))

/-- The words moved one place to the left. -/
def left (r : Row) : Row := ⟨r.w1, r.w2, r.w3, r.w0⟩

def toList (r : Row) : List UInt32 := [r.w0, r.w1, r.w2, r.w3]

end Row

/-- The chaining value of a block or a subtree: eight words. -/
structure Chain where
  low : Row
  high : Row
deriving DecidableEq

namespace Chain

/-- The value that every chunk starts from. -/
def start : Chain :=
  ⟨⟨0x6A09E667, 0xBB67AE85, 0x3C6EF372, 0xA54FF53A⟩,
    ⟨0x510E527F, 0x9B05688C, 0x1F83D9AB, 0x5BE0CD19⟩⟩

def toList (c : Chain) : List UInt32 := c.low.toList ++ c.high.toList

end Chain

/-- The rows of the state. -/
structure State where
  a : Row
  b : Row
  c : Row
  d : Row

/-- Mixes the columns of the state with two words of the message for each. -/
def mix (s : State) (x y : Row) : State :=
  let a := (s.a.add s.b).add x
  let d := (s.d.xor a).turn 16
  let c := s.c.add d
  let b := (s.b.xor c).turn 12
  let a := (a.add b).add y
  let d := (d.xor a).turn 8
  let c := c.add d
  let b := (b.xor c).turn 7
  ⟨a, b, c, d⟩

/-- Four words of a message by their places. -/
def pick (m : Array UInt32) (i j k l : Nat) : Row :=
  ⟨m.getD i 0, m.getD j 0, m.getD k 0, m.getD l 0⟩

/-- Mixes columns, then diagonals. -/
def round (s : State) (m : Array UInt32) : State :=
  let s := mix s (pick m 0 2 4 6) (pick m 1 3 5 7)
  let s := mix ⟨s.a, s.b.left, s.c.left.left, s.d.left.left.left⟩
    (pick m 8 10 12 14) (pick m 9 11 13 15)
  ⟨s.a, s.b.left.left.left, s.c.left.left, s.d.left⟩

/-- Where the words of a message come from in the next round. -/
def schedule : List Nat := [2, 6, 3, 10, 7, 0, 4, 13, 1, 11, 12, 5, 9, 14, 15, 8]

def permute (m : Array UInt32) : Array UInt32 := (schedule.map fun i => m.getD i 0).toArray

/-- So many rounds, the message permuted after each. -/
def rounds : Nat → State → Array UInt32 → State
  | 0, s, _ => s
  | n + 1, s, m => rounds n (round s m) (permute m)

def chunkStart : UInt32 := 1
def chunkEnd : UInt32 := 2
def parentFlag : UInt32 := 4
def rootFlag : UInt32 := 8

/-- The last compression of a chunk or of a parent, before it is known whether that is the root. -/
structure Node where
  chain : Chain
  message : Array UInt32
  counter : Nat
  length : Nat
  flags : UInt32

/-- Compresses a node with more flags. -/
def Node.compress (n : Node) (flags : UInt32) : Chain :=
  let s : State := ⟨n.chain.low, n.chain.high, Chain.start.low,
    ⟨n.counter.toUInt32, (n.counter / 2 ^ 32).toUInt32, n.length.toUInt32, n.flags ||| flags⟩⟩
  let s := rounds 7 s n.message
  ⟨s.a.xor s.c, s.b.xor s.d⟩

def Node.value (n : Node) : Chain := n.compress 0

def Node.root (n : Node) : Chain := n.compress rootFlag

/-- Words of four bytes, the lowest first; missing bytes are zero. -/
def words : List UInt8 → List UInt32
  | a :: b :: c :: d :: rest =>
    (a.toUInt32 ||| (b.toUInt32 <<< 8) ||| (c.toUInt32 <<< 16) ||| (d.toUInt32 <<< 24)) ::
      words rest
  | [a, b, c] => [a.toUInt32 ||| (b.toUInt32 <<< 8) ||| (c.toUInt32 <<< 16)]
  | [a, b] => [a.toUInt32 ||| (b.toUInt32 <<< 8)]
  | [a] => [a.toUInt32]
  | [] => []

/-- The node of one block. -/
def block (chain : Chain) (bytes : List UInt8) (counter : Nat) (flags : UInt32) : Node :=
  ⟨chain, (words bytes).toArray, counter, bytes.length, flags⟩

/-- The node of a chunk's blocks, each at most 64 bytes. -/
def chunkFrom (counter : Nat) (chain : Chain) (flags : UInt32) (bytes : List UInt8) : Node :=
  if _h : bytes.length ≤ 64 then block chain bytes counter (flags ||| chunkEnd)
  else chunkFrom counter (block chain (bytes.take 64) counter flags).value 0 (bytes.drop 64)
termination_by bytes.length
decreasing_by simp only [List.length_drop]; omega

/-- The node of a chunk by its place. -/
def chunk (counter : Nat) (bytes : List UInt8) : Node :=
  chunkFrom counter Chain.start chunkStart bytes

/-- The chunks of the input from the one at a place on. -/
def chunksFrom (counter : Nat) (bytes : List UInt8) : List Node :=
  if _h : bytes.length ≤ 1024 then [chunk counter bytes]
  else chunk counter (bytes.take 1024) :: chunksFrom (counter + 1) (bytes.drop 1024)
termination_by bytes.length
decreasing_by simp only [List.length_drop]; omega

/-- The parent of two subtrees. -/
def parent (left right : Node) : Node :=
  ⟨Chain.start, (left.value.toList ++ right.value.toList).toArray, 0, 64, parentFlag⟩

/-- How many of `n` leaves are left of the root: the largest power of two below `n`. -/
def leftSize (n : Nat) : Nat := 2 ^ Nat.log2 (n - 1)

theorem leftSize_pos (n : Nat) : 0 < leftSize n := Nat.two_pow_pos _

theorem leftSize_lt {n : Nat} (h : 2 ≤ n) : leftSize n < n := by
  have := Nat.log2_self_le (n := n - 1) (by omega)
  unfold leftSize
  omega

/-- The root of the tree over the leaves. -/
def tree (leaves : List Node) : Node :=
  if _h : 2 ≤ leaves.length then
    let k := leftSize leaves.length
    parent (tree (leaves.take k)) (tree (leaves.drop k))
  else leaves.headD (chunk 0 [])
termination_by leaves.length
decreasing_by
  · have := leftSize_lt _h
    simp only [List.length_take]
    omega
  · have := leftSize_pos leaves.length
    simp only [List.length_drop]
    omega

/-- The digest of the bytes. -/
def hash (bytes : List UInt8) : Chain := (tree (chunksFrom 0 bytes)).root

/-- A word as eight hexadecimal digits, its lowest byte first. -/
def wordHex (w : UInt32) : List Char :=
  let n := w.toNat
  [n / 16, n, n / 4096, n / 256, n / 2 ^ 20, n / 2 ^ 16, n / 2 ^ 28, n / 2 ^ 24].map fun d =>
    Text.hexDigit d

/-- The digest as 64 hexadecimal digits. -/
def Chain.hex (c : Chain) : String := String.ofList (c.toList.flatMap wordHex)

end MemoHints.Blake3
