/-!
The ChaCha12 key stream: 64-byte blocks of pseudo-random words, numbered from zero under a key of
eight words.
-/

set_option autoImplicit false

namespace Bureau.Random

/-- Turns the bits of a word to the left; the count is from 1 to 31. -/
def rotateLeft (x n : UInt32) : UInt32 := (x <<< n) ||| (x >>> (32 - n))

/-- The sixteen words of a block, as a four by four table row by row. -/
structure Block where
  words : Vector UInt32 16
deriving DecidableEq

namespace Block

/-- Stirs four words of the table: additions, exclusive ors and turns. -/
def quarter (t : Block) (a b c d : Fin 16) : Block :=
  let wa := t.words[a] + t.words[b]
  let wd := rotateLeft (t.words[d] ^^^ wa) 16
  let wc := t.words[c] + wd
  let wb := rotateLeft (t.words[b] ^^^ wc) 12
  let wa := wa + wb
  let wd := rotateLeft (wd ^^^ wa) 8
  let wc := wc + wd
  let wb := rotateLeft (wb ^^^ wc) 7
  ⟨(((t.words.set a wa).set b wb).set c wc).set d wd⟩

def doubleRound (t : Block) : Block :=
  ((((((((t.quarter 0 4 8 12).quarter 1 5 9 13).quarter 2 6 10 14).quarter 3 7 11 15).quarter
    0 5 10 15).quarter 1 6 11 12).quarter 2 7 8 13).quarter 3 4 9 14)

/-- The table before the rounds: four constants, the key, the number of the block and zeros. -/
def start (key : Vector UInt32 8) (counter : UInt64) : Block :=
  ⟨#v[0x61707865, 0x3320646e, 0x79622d32, 0x6b206574, key[0], key[1], key[2], key[3], key[4],
    key[5], key[6], key[7], counter.toUInt32, (counter >>> 32).toUInt32, 0, 0]⟩

/-- The block with a number: twelve rounds, then the table before them is added. -/
def make (key : Vector UInt32 8) (counter : UInt64) : Block :=
  let first := start key counter
  let last := first.doubleRound.doubleRound.doubleRound.doubleRound.doubleRound.doubleRound
  ⟨Vector.zipWith (· + ·) first.words last.words⟩

end Block

def streamWord (key : Vector UInt32 8) (position : Nat) : UInt32 :=
  (Block.make key (UInt64.ofNat (position / 16))).words.get
    ⟨position % 16, Nat.mod_lt _ (by decide)⟩

end Bureau.Random
