/-!
# ChaCha with eight rounds — a stream of words from a seed

A block of sixteen words comes from a key, a block number and four fixed
words, by four double rounds. The state is kept as four rows of four words:
a quarter round works on the four columns at once, and the diagonals are
columns once the rows have been rotated.

`word key n` is the `n`-th word of the stream. Nothing is drawn *from* a
generator and nothing has to be threaded through: what is random about the
`n`-th word depends on the key and on `n`.
-/

namespace MovingLight.ChaCha

/-- Four words of the state. -/
structure Row where
  a : UInt32
  b : UInt32
  c : UInt32
  d : UInt32
  deriving DecidableEq, Repr

namespace Row

/-- A row built word by word from two. -/
def zip (f : UInt32 → UInt32 → UInt32) (x y : Row) : Row :=
  ⟨f x.a y.a, f x.b y.b, f x.c y.c, f x.d y.d⟩

/-- Every word rotated to the left. -/
def rotate (n : UInt32) (x : Row) : Row :=
  let turn (w : UInt32) := (w <<< n) ||| (w >>> (32 - n))
  ⟨turn x.a, turn x.b, turn x.c, turn x.d⟩

/-- The words moved on by one place. -/
def shift (x : Row) : Row := ⟨x.b, x.c, x.d, x.a⟩

def toList (x : Row) : List UInt32 := [x.a, x.b, x.c, x.d]

end Row

/-- The sixteen words of a block. -/
structure Block where
  r0 : Row
  r1 : Row
  r2 : Row
  r3 : Row
  deriving DecidableEq, Repr

namespace Block

def toList (s : Block) : List UInt32 :=
  s.r0.toList ++ s.r1.toList ++ s.r2.toList ++ s.r3.toList

/-- The quarter round on all four columns. -/
def columns (s : Block) : Block :=
  let r0 := s.r0.zip (· + ·) s.r1
  let r3 := (s.r3.zip (· ^^^ ·) r0).rotate 16
  let r2 := s.r2.zip (· + ·) r3
  let r1 := (s.r1.zip (· ^^^ ·) r2).rotate 12
  let r0 := r0.zip (· + ·) r1
  let r3 := (r3.zip (· ^^^ ·) r0).rotate 8
  let r2 := r2.zip (· + ·) r3
  let r1 := (r1.zip (· ^^^ ·) r2).rotate 7
  ⟨r0, r1, r2, r3⟩

/-- The quarter round on the four columns, then on the four diagonals. -/
def doubleRound (s : Block) : Block :=
  let s := s.columns
  let s := columns ⟨s.r0, s.r1.shift, s.r2.shift.shift, s.r3.shift.shift.shift⟩
  ⟨s.r0, s.r1.shift.shift.shift, s.r2.shift.shift, s.r3.shift⟩

/-- The words of two blocks added. -/
def add (s t : Block) : Block :=
  ⟨s.r0.zip (· + ·) t.r0, s.r1.zip (· + ·) t.r1, s.r2.zip (· + ·) t.r2, s.r3.zip (· + ·) t.r3⟩

end Block

/-- Eight words. -/
structure Key where
  low : Row
  high : Row
  deriving DecidableEq, Repr

/-- One step of the generator that spreads a seed over a key. -/
def spreadStep (s : UInt64) : UInt64 := s * 6364136223846793005 + 11634580027462260723

/-- The word such a step yields: a rotation by the topmost bits. -/
def spreadWord (s : UInt64) : UInt32 :=
  let x := (((s >>> 18) ^^^ s) >>> 27).toUInt32
  let turn := (s >>> 59).toUInt32
  (x >>> turn) ||| (x <<< ((32 - turn) % 32))

/-- The key of a seed. -/
def Key.ofSeed (seed : UInt64) : Key :=
  let state (n : Nat) : UInt64 := Nat.repeat spreadStep (n + 1) seed
  let word (n : Nat) : UInt32 := spreadWord (state n)
  ⟨⟨word 0, word 1, word 2, word 3⟩, ⟨word 4, word 5, word 6, word 7⟩⟩

/-- The block of a given number. -/
def block (key : Key) (number : UInt64) : Block :=
  let start : Block :=
    ⟨⟨0x61707865, 0x3320646e, 0x79622d32, 0x6b206574⟩, key.low, key.high,
      ⟨number.toUInt32, (number >>> 32).toUInt32, 0, 0⟩⟩
  (Nat.repeat Block.doubleRound 4 start).add start

/-- The `n`-th word of the stream. -/
def word (key : Key) (n : Nat) : UInt32 :=
  (block key (UInt64.ofNat (n / 16))).toList.getD (n % 16) 0

end MovingLight.ChaCha
