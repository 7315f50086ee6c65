import Bureau.Binary64.Shortest
import Bureau.Random.Cipher

/-!
Reproducible random numbers between −1 and 1. A seed of 64 bits grows into a key, the key into a
stream of words, and each pair of words gives one number.
-/

set_option autoImplicit false

namespace Bureau.Random

def nextState (state : UInt64) : UInt64 := state * 6364136223846793005 + 11634580027462260723

def stateWord (state : UInt64) : UInt32 :=
  let mixed := (((state >>> 18) ^^^ state) >>> 27).toUInt32
  let turn := (state >>> 59).toUInt32
  (mixed >>> turn) ||| (mixed <<< ((32 - turn) % 32))

def seedWords (state : UInt64) : (count : Nat) → List UInt32
  | 0 => []
  | count + 1 => stateWord (nextState state) :: seedWords (nextState state) count

def keyOf (seed : UInt64) : Vector UInt32 8 :=
  let ws := seedWords seed 8
  Vector.ofFn fun i => ws.getD i 0

/-- The number of 64 bits at a position of the stream of a seed, its low word first. -/
def draw (seed : UInt64) (position : Nat) : Nat :=
  let key := keyOf seed
  (streamWord key (2 * position)).toNat + twoTo 32 * (streamWord key (2 * position + 1)).toNat

/-- Twice the unit, up to the last binary place: the factor that spreads `[0, 1)` over `[0, 2]`. -/
def spread : Binary64 := ⟨false, twoTo 52 + 1, -51⟩

/-- The number in `[-1, 1]` that 64 random bits give: the upper 52 of them as a fraction, doubled,
less one. -/
def unitOf (bits : Nat) : Option Binary64 := do
  let fraction ← Binary64.nearest? false (bits / twoTo 12 % twoTo 52) (twoTo 52)
  (← fraction.mul? spread).predecessor?

/-- The random number at a position of the stream of a seed, as a decimal in `[-1, 1]`. -/
def unit (seed : UInt64) (position : Nat) : Decimal :=
  ((unitOf (draw seed position)).bind Binary64.fraction?).getD Decimal.zero

def textHash (s : String) : UInt64 :=
  s.toUTF8.foldl (fun h b => (h ^^^ b.toUInt64) * 0x100000001b3) 0xcbf29ce484222325

end Bureau.Random
