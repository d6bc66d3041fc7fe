/-
CardDuel.Random.KeyStream — the stream of 32-bit words that a seed fixes.

The stream is ChaCha with eight rounds. A 64-bit seed is stretched to a
256-bit key by a linear congruential generator with a permuted output;
the stream is then cut into blocks of sixteen words, and a block is a
function of the key and of its 64-bit number. So every word of the
stream is a function of the seed and of its position (`word`), and a
generator that is stopped at a position can go on from there.

  §1 Rows       — four words side by side, and the operations on them.
  §2 Block      — the round function and the block of a number.
  §3 Key        — the key of a seed.
  §4 Words      — the word at a position.
-/

namespace CardDuel.Random.KeyStream

/-! ## §1 Rows -/

/-- Four words side by side: a row of the four-by-four block matrix. -/
structure Row where
  w0 : UInt32
  w1 : UInt32
  w2 : UInt32
  w3 : UInt32
  deriving DecidableEq, Repr

namespace Row

def add (a b : Row) : Row := ⟨a.w0 + b.w0, a.w1 + b.w1, a.w2 + b.w2, a.w3 + b.w3⟩

def xor (a b : Row) : Row := ⟨a.w0 ^^^ b.w0, a.w1 ^^^ b.w1, a.w2 ^^^ b.w2, a.w3 ^^^ b.w3⟩

/-- Turns the bits of a word left by `n`, for `0 < n < 32`. -/
def turnWord (n w : UInt32) : UInt32 := (w <<< n) ||| (w >>> (32 - n))

/-- Turns the bits of each word left by `n`. -/
def turn (n : UInt32) (a : Row) : Row :=
  ⟨turnWord n a.w0, turnWord n a.w1, turnWord n a.w2, turnWord n a.w3⟩

/-- Moves the words one place to the left, the first to the end. -/
def shift (a : Row) : Row := ⟨a.w1, a.w2, a.w3, a.w0⟩

def toList (a : Row) : List UInt32 := [a.w0, a.w1, a.w2, a.w3]

end Row

/-! ## §2 Block -/

/-- The four rows of the matrix that a block is computed in. -/
structure Matrix where
  a : Row
  b : Row
  c : Row
  d : Row
  deriving DecidableEq, Repr

namespace Matrix

def add (m n : Matrix) : Matrix := ⟨m.a.add n.a, m.b.add n.b, m.c.add n.c, m.d.add n.d⟩

/-- Half of a round on all four columns: two additions, each followed by
an exclusive or and a turn of the row that took it. -/
def halfRound (n n' : UInt32) (m : Matrix) : Matrix :=
  let a := m.a.add m.b
  let d := (m.d.xor a).turn n
  let c := m.c.add d
  let b := (m.b.xor c).turn n'
  ⟨a, b, c, d⟩

/-- A round on the columns. -/
def columnRound (m : Matrix) : Matrix := halfRound 8 7 (halfRound 16 12 m)

/-- Brings the diagonals into the columns. -/
def skew (m : Matrix) : Matrix := ⟨m.a, m.b.shift, m.c.shift.shift, m.d.shift.shift.shift⟩

/-- Brings the columns back into the diagonals. -/
def unskew (m : Matrix) : Matrix := ⟨m.a, m.b.shift.shift.shift, m.c.shift.shift, m.d.shift⟩

/-- A round on the columns and a round on the diagonals. -/
def doubleRound (m : Matrix) : Matrix := m.columnRound.skew.columnRound.unskew

def toList (m : Matrix) : List UInt32 :=
  m.a.toList ++ m.b.toList ++ m.c.toList ++ m.d.toList

end Matrix

/-- A 256-bit key. -/
structure Key where
  low : Row
  high : Row
  deriving DecidableEq, Repr

/-- The matrix that the rounds of a block start from: four constant
words, the key, the number of the block and an empty nonce. -/
def initial (key : Key) (number : UInt64) : Matrix where
  a := ⟨0x61707865, 0x3320646e, 0x79622d32, 0x6b206574⟩
  b := key.low
  c := key.high
  d := ⟨number.toUInt32, (number >>> 32).toUInt32, 0, 0⟩

/-- The sixteen words of a block. -/
def block (key : Key) (number : UInt64) : List UInt32 :=
  let start := initial key number
  (start.doubleRound.doubleRound.doubleRound.doubleRound.add start).toList

/-! ## §3 Key -/

/-- One step of the generator that stretches a seed. -/
def stretch (state : UInt64) : UInt64 := state * 6364136223846793005 + 11634580027462260723

/-- The key word that a state of the stretching generator gives: a part
of its bits, turned right by its top five bits. -/
def keyWord (state : UInt64) : UInt32 :=
  let bits : UInt32 := (((state >>> 18) ^^^ state) >>> 27).toUInt32
  let count : UInt32 := (state >>> 59).toUInt32
  (bits >>> count) ||| (bits <<< ((32 - count) % 32))

/-- Four key words, from the states after `state`, and the last of them. -/
def keyRow (state : UInt64) : Row × UInt64 :=
  let s0 := stretch state
  let s1 := stretch s0
  let s2 := stretch s1
  let s3 := stretch s2
  (⟨keyWord s0, keyWord s1, keyWord s2, keyWord s3⟩, s3)

/-- The key of a seed. -/
def Key.ofSeed (seed : UInt64) : Key :=
  let (low, state) := keyRow seed
  { low, high := (keyRow state).1 }

/-! ## §4 Words -/

/-- The number of words after which the stream starts again: sixteen
words in each of 2^64 blocks. -/
def period : Nat := 16 * UInt64.size

/-- The word of the stream of `seed` at `position`. -/
def word (seed : UInt64) (position : Nat) : UInt32 :=
  ((block (Key.ofSeed seed) (UInt64.ofNat (position / 16)))[position % 16]?).getD 0

/-- The two words from `position` on as one number, the low word first. -/
def pair (seed : UInt64) (position : Nat) : Nat :=
  (word seed position).toNat + UInt32.size * (word seed ((position + 1) % period)).toNat

theorem pair_lt (seed : UInt64) (position : Nat) : pair seed position < UInt64.size := by
  have h₁ := (word seed position).toNat_lt
  have h₂ := (word seed ((position + 1) % period)).toNat_lt
  simp only [pair, UInt32.size, UInt64.size]; omega

end CardDuel.Random.KeyStream
