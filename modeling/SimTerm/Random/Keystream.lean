/-!
# A keystream

The ChaCha stream cipher with twelve rounds, used as a source of pseudo-random words. A block is a
function of an eight-word key and a 64-bit counter: the state of constants, key and counter is mixed
by six double rounds and added to itself. The stream is the words of the blocks 0, 1, 2 and so on.

The key comes from a 64-bit seed: a linear congruential generator is stepped eight times and each
state is permuted to a word.
-/

namespace SimTerm.Random

/-- The sixteen words of a block. -/
abbrev Block := Vector UInt32 16

/-- A word rotated to the left. -/
def rotateLeft (w : UInt32) (n : UInt32) : UInt32 :=
  (w <<< n) ||| (w >>> (32 - n))

/-- Add the word at `b` to the one at `a`, and mix the sum into the word at `d`. -/
def mix (s : Block) (a b d : Fin 16) (n : UInt32) : Block :=
  let s := s.set a (s[a] + s[b])
  s.set d (rotateLeft (s[d] ^^^ s[a]) n)

/-- A quarter round on four words. -/
def quarterRound (s : Block) (a b c d : Fin 16) : Block :=
  let s := mix s a b d 16
  let s := mix s c d b 12
  let s := mix s a b d 8
  mix s c d b 7

/-- A round on the columns and a round on the diagonals. -/
def doubleRound (s : Block) : Block :=
  let s := quarterRound s 0 4 8 12
  let s := quarterRound s 1 5 9 13
  let s := quarterRound s 2 6 10 14
  let s := quarterRound s 3 7 11 15
  let s := quarterRound s 0 5 10 15
  let s := quarterRound s 1 6 11 12
  let s := quarterRound s 2 7 8 13
  quarterRound s 3 4 9 14

/-- A function applied a number of times. -/
def times (n : Nat) (f : α → α) (a : α) : α :=
  match n with
  | 0 => a
  | n + 1 => times n f (f a)

/-- The state before mixing: constants, key, counter and a nonce of zeros. -/
def initialState (key : Vector UInt32 8) (counter : UInt64) : Block := #v[
    0x61707865, 0x3320646e, 0x79622d32, 0x6b206574,
    key[0], key[1], key[2], key[3], key[4], key[5], key[6], key[7],
    counter.toUInt32, (counter >>> 32).toUInt32, 0, 0]

/-- A block of the stream. -/
def block (key : Vector UInt32 8) (counter : UInt64) : Block :=
  let s := initialState key counter
  Vector.zipWith (· + ·) (times 6 doubleRound s) s

/-- The next state of the generator that spreads a seed. -/
def nextSeed (state : UInt64) : UInt64 :=
  state * 6364136223846793005 + 11634580027462260723

/-- The word that a state of the generator is permuted to. -/
def seedWord (state : UInt64) : UInt32 :=
  let shifted := (((state >>> 18) ^^^ state) >>> 27).toUInt32
  let turn := (state >>> 59).toUInt32
  (shifted >>> turn) ||| (shifted <<< ((32 - turn) % 32))

/-- The state of the generator after a number of steps. -/
def seedAfter (seed : UInt64) (steps : Nat) : UInt64 :=
  times steps nextSeed seed

/-- The key that a seed stands for. -/
def keyOfSeed (seed : UInt64) : Vector UInt32 8 :=
  Vector.ofFn fun i => seedWord (seedAfter seed (i.val + 1))

/-- A position in a stream: what is left of the current block, and the number of the next. -/
structure Keystream where
  key : Vector UInt32 8
  next : UInt64 := 0
  left : List UInt32 := []

/-- The stream of a seed. -/
def Keystream.ofSeed (seed : UInt64) : Keystream :=
  { key := keyOfSeed seed }

/-- The next word of the stream. -/
def Keystream.word (k : Keystream) : UInt32 × Keystream :=
  match k.left with
  | w :: ws => (w, { k with left := ws })
  | [] =>
    let b := (block k.key k.next).toList
    (b.headD 0, { k with next := k.next + 1, left := b.tail })

end SimTerm.Random
