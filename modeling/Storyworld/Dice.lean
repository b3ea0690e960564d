/-!
A source of random numbers with a seed. Its stream is that of the ChaCha cipher with twelve rounds;
the seed is stretched to the cipher's key by a congruential generator.
-/

namespace Storyworld

structure Dice where
  key : List UInt32
  drawn : Nat
deriving DecidableEq

namespace Dice

def nextSeed (s : UInt64) : UInt64 :=
  s * 6364136223846793005 + 11634580027462260723

def rotateRight (x : UInt32) (n : UInt32) : UInt32 :=
  (x >>> n) ||| (x <<< ((32 - n) % 32))

def seedWord (s : UInt64) : UInt32 :=
  rotateRight (((s >>> 18) ^^^ s) >>> 27).toUInt32 (s >>> 59).toUInt32

def seedWords : (count : Nat) → UInt64 → List UInt32
  | 0, _ => []
  | count + 1, s => seedWord (nextSeed s) :: seedWords count (nextSeed s)

def ofSeed (seed : UInt64) : Dice :=
  ⟨seedWords 8 seed, 0⟩

abbrev Block := Vector UInt32 16

def rotateLeft (x : UInt32) (n : UInt32) : UInt32 :=
  (x <<< n) ||| (x >>> (32 - n))

-- Adds the word at `j` to that at `i` and mixes the sum into the word at `k`.
def mix (i j k : Fin 16) (n : UInt32) (b : Block) : Block :=
  let sum := b[i] + b[j]
  (b.set i sum).set k (rotateLeft (b[k] ^^^ sum) n)

def quarterRound (i j k l : Fin 16) (b : Block) : Block :=
  mix k l j 7 (mix i j l 8 (mix k l j 12 (mix i j l 16 b)))

-- A round on the columns and one on the diagonals.
def doubleRound (b : Block) : Block :=
  let b := quarterRound 3 7 11 15 (quarterRound 2 6 10 14 (quarterRound 1 5 9 13
    (quarterRound 0 4 8 12 b)))
  quarterRound 3 4 9 14 (quarterRound 2 7 8 13 (quarterRound 1 6 11 12
    (quarterRound 0 5 10 15 b)))

def start (key : List UInt32) (counter : Nat) : Block :=
  let k (i : Nat) : UInt32 := key.getD i 0
  #v[0x61707865, 0x3320646e, 0x79622d32, 0x6b206574,
    k 0, k 1, k 2, k 3, k 4, k 5, k 6, k 7,
    .ofNat counter, .ofNat (counter / 0x100000000), 0, 0]

def block (key : List UInt32) (counter : Nat) : Block :=
  let b := start key counter
  Vector.zipWith (· + ·) (Nat.repeat doubleRound 6 b) b

def word (key : List UInt32) (n : Nat) : UInt32 :=
  (block key (n / 16)).get (Fin.ofNat 16 n)

-- A number from 0 up to 1, made of two words of the stream.
def draw (d : Dice) : Float × Dice :=
  let w := (word d.key (2 * d.drawn)).toNat + 0x100000000 * (word d.key (2 * d.drawn + 1)).toNat
  (Float.ofNat (w / 0x800) / Float.ofNat 0x20000000000000, { d with drawn := d.drawn + 1 })

end Dice

end Storyworld
