import BuildAdvisor.Random.Generator

/-!
The ChaCha stream with twelve rounds.

* `quarterRound`, `doubleRound` — the mixing of the sixteen-word state;
* `block` — one block of the stream, from a key and the number of the block;
* `keyOfSeed` — eight key words from a 64-bit seed;
* `Generator.ofSeed` — the generator whose words are the blocks in order.
-/

set_option autoImplicit false

namespace BuildAdvisor.Random

abbrev BlockState := Vector UInt32 16

def rotateLeft (x : UInt32) (n : UInt32) : UInt32 :=
  (x <<< n) ||| (x >>> (32 - n))

def quarterRound (a b c d : Fin 16) (s : BlockState) : BlockState :=
  let s := s.set a (s[a] + s[b])
  let s := s.set d (rotateLeft (s[d] ^^^ s[a]) 16)
  let s := s.set c (s[c] + s[d])
  let s := s.set b (rotateLeft (s[b] ^^^ s[c]) 12)
  let s := s.set a (s[a] + s[b])
  let s := s.set d (rotateLeft (s[d] ^^^ s[a]) 8)
  let s := s.set c (s[c] + s[d])
  s.set b (rotateLeft (s[b] ^^^ s[c]) 7)

/-- The four columns, then the four diagonals. -/
def doubleRound (s : BlockState) : BlockState :=
  let s := quarterRound 0 4 8 12 s
  let s := quarterRound 1 5 9 13 s
  let s := quarterRound 2 6 10 14 s
  let s := quarterRound 3 7 11 15 s
  let s := quarterRound 0 5 10 15 s
  let s := quarterRound 1 6 11 12 s
  let s := quarterRound 2 7 8 13 s
  quarterRound 3 4 9 14 s

/-- Four constants, the key, the number of the block in two words, and an empty nonce. -/
def initialState (key : Vector UInt32 8) (number : Nat) : BlockState :=
  #v[0x61707865, 0x3320646e, 0x79622d32, 0x6b206574,
    key[0], key[1], key[2], key[3], key[4], key[5], key[6], key[7],
    UInt32.ofNat number, UInt32.ofNat (number / UInt32.size), 0, 0]

def block (key : Vector UInt32 8) (number : Nat) : BlockState :=
  let initial := initialState key number
  let mixed := (List.range 6).foldl (fun s _ => doubleRound s) initial
  Vector.zipWith (· + ·) mixed initial

/-! ## Keys -/

/-- One step of the linear sequence that seeds are expanded with. -/
def nextSeed (s : UInt64) : UInt64 :=
  s * 6364136223846793005 + 11634580027462260723

/-- The word that a state of the sequence gives: its upper bits folded, then rotated right. -/
def seedWord (s : UInt64) : UInt32 :=
  let folded := (((s >>> 18) ^^^ s) >>> 27).toUInt32
  let turn := (s >>> 59).toUInt32
  (folded >>> turn) ||| (folded <<< (32 - turn))

def keyOfSeed (seed : UInt64) : Vector UInt32 8 :=
  Vector.ofFn fun i => seedWord ((List.range (i.val + 1)).foldl (fun s _ => nextSeed s) seed)

def Generator.ofSeed (seed : UInt64) : Generator :=
  let key := keyOfSeed seed
  ⟨fun i => (block key (i / 16)).get ⟨i % 16, Nat.mod_lt i (by decide)⟩, 0⟩

end BuildAdvisor.Random
