import SecureSession.Bytes

/-! # ChaCha20 as a source of random words

The keystream of ChaCha20 with twenty rounds, a block counter of 64 bits and a zero nonce, read word
by word. The key comes from a seed by a permuted congruential generator. -/

namespace SecureSession.ChaCha20

/-! ### The block function -/

/-- The sixteen words of a block. -/
abbrev Block := Vector UInt32 16

/-- Rotation to the left by `n` bits, `0 < n < 32`. -/
def rotateLeft (x n : UInt32) : UInt32 := (x <<< n) ||| (x >>> (32 - n))

/-- Mixes the words at four places. -/
def quarterRound (s : Block) (a b c d : Fin 16) : Block :=
  let s := s.set a (s[a] + s[b])
  let s := s.set d (rotateLeft (s[d] ^^^ s[a]) 16)
  let s := s.set c (s[c] + s[d])
  let s := s.set b (rotateLeft (s[b] ^^^ s[c]) 12)
  let s := s.set a (s[a] + s[b])
  let s := s.set d (rotateLeft (s[d] ^^^ s[a]) 8)
  let s := s.set c (s[c] + s[d])
  s.set b (rotateLeft (s[b] ^^^ s[c]) 7)

/-- A round on the columns and a round on the diagonals. -/
def doubleRound (s : Block) : Block :=
  let s := quarterRound s 0 4 8 12
  let s := quarterRound s 1 5 9 13
  let s := quarterRound s 2 6 10 14
  let s := quarterRound s 3 7 11 15
  let s := quarterRound s 0 5 10 15
  let s := quarterRound s 1 6 11 12
  let s := quarterRound s 2 7 8 13
  quarterRound s 3 4 9 14

/-- `n` double rounds. -/
def doubleRounds : Nat → Block → Block
  | 0, s => s
  | n + 1, s => doubleRounds n (doubleRound s)

/-- The block before the rounds: constants, key, block counter and zero nonce. -/
def initial (key : Vector UInt32 8) (counter : Nat) : Block :=
  #v[0x61707865, 0x3320646e, 0x79622d32, 0x6b206574, key[0], key[1], key[2], key[3], key[4],
    key[5], key[6], key[7], UInt32.ofNat counter, UInt32.ofNat (counter / UInt32.size), 0, 0]

/-- One block of keystream. -/
def block (key : Vector UInt32 8) (counter : Nat) : Block :=
  let s := initial key counter
  Vector.zipWith (· + ·) s (doubleRounds 10 s)

/-- Word `i` of the keystream. -/
def word (key : Vector UInt32 8) (i : Nat) : UInt32 := (block key (i / 16)).getD (i % 16) 0

/-! ### Keys from seeds -/

/-- The generator's state after one step. -/
def seedStep (state : UInt64) : UInt64 := state * 6364136223846793005 + 11634580027462260723

/-- The word the generator puts out in a state. -/
def seedWord (state : UInt64) : UInt32 :=
  let x := (((state >>> 18) ^^^ state) >>> 27).toUInt32
  let n := (state >>> 59).toUInt32
  (x >>> n) ||| (x <<< (32 - n))

/-- The generator's states after `seed`. -/
def seedState (seed : UInt64) : Nat → UInt64
  | 0 => seed
  | n + 1 => seedStep (seedState seed n)

/-- The key of a seed. -/
def seedKey (seed : UInt64) : Vector UInt32 8 :=
  Vector.ofFn fun i => seedWord (seedState seed (i + 1))

/-! ### Streams -/

/-- A keystream and the number of words read from it. -/
structure Stream where
  key : Vector UInt32 8
  position : Nat
deriving DecidableEq

namespace Stream

/-- The stream of a seed, nothing read. -/
def ofSeed (seed : UInt64) : Stream := ⟨seedKey seed, 0⟩

/-- The stream after `n` more words. -/
def skip (s : Stream) (n : Nat) : Stream := { s with position := s.position + n }

/-- The next `n` words. -/
def words (s : Stream) (n : Nat) : List UInt32 :=
  (List.range n).map fun i => word s.key (s.position + i)

/-- The next `n` bytes, taken from whole words in little-endian order; what is left
of the last word is lost. -/
def bytes (s : Stream) (n : Nat) : Bytes × Stream :=
  let count := (n + 3) / 4
  (((s.words count).flatMap fun w => Bytes.ofNatLE 4 w.toNat).take n, s.skip count)

@[simp] theorem length_bytes (s : Stream) (n : Nat) : (s.bytes n).1.length = n := by
  have h : ∀ l : List UInt32, (l.flatMap fun w => Bytes.ofNatLE 4 w.toNat).length =
      4 * l.length := by
    intro l
    induction l with
    | nil => rfl
    | cons w rest ih => simp only [List.flatMap_cons, List.length_append, ih, Bytes.length_ofNatLE,
        List.length_cons]; omega
  simp only [bytes, List.length_take, h, words, List.length_map, List.length_range]
  omega

/-- The next two words as one number, low word first. -/
def uint64 (s : Stream) : Nat × Stream :=
  ((word s.key s.position).toNat + (word s.key (s.position + 1)).toNat * UInt32.size, s.skip 2)

end Stream

end SecureSession.ChaCha20
