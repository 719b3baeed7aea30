import TextGrammar.Random.Chooser

/-!
# The Mersenne twister

A generator of 32-bit words with 624 words of state, as specified for the parameters of MT19937. It
is seeded with the absolute value of an integer, cut into 32-bit words, lowest first. A choice among
`n` items takes the highest bits of successive words, as many as `n` has, until they form a number
below `n`.
-/
namespace TextGrammar

structure Twister where
  words : Array UInt32
  used : Nat
  deriving Repr

namespace Twister

def stateSize : Nat := 624

def word (words : Array UInt32) (index : Nat) : UInt32 := words.getD index 0

/-- What a word and its index in the state contribute to the words after it. -/
def spread (words : Array UInt32) (index : Nat) : UInt32 :=
  let last := word words (index - 1)
  last ^^^ (last >>> 30)

def ofWord (seed : UInt32) : Array UInt32 :=
  (List.range (stateSize - 1)).foldl
    (fun words index => words.push (1812433253 * spread words (index + 1) + (index + 1).toUInt32))
    #[seed]

/-- The index after `index`, going from the last one back to the second; the first word then takes
the value of the last. -/
def wrap (words : Array UInt32) (index : Nat) : Array UInt32 × Nat :=
  if index + 1 < stateSize then (words, index + 1)
  else (words.setIfInBounds 0 (word words (stateSize - 1)), 1)

/-- Mixes the words of a key into the state, going round the longer of the two. -/
def mixKey (key : Array UInt32) : Nat → Array UInt32 → Nat → Nat → Array UInt32 × Nat
  | 0, words, index, _ => (words, index)
  | rounds + 1, words, index, position =>
    let mixed := (word words index ^^^ (spread words index * 1664525)) + word key position +
      position.toUInt32
    let (words, index) := wrap (words.setIfInBounds index mixed) index
    mixKey key rounds words index (if position + 1 < key.size then position + 1 else 0)

def mixState : Nat → Array UInt32 → Nat → Array UInt32
  | 0, words, _ => words
  | rounds + 1, words, index =>
    let mixed := (word words index ^^^ (spread words index * 1566083941)) - index.toUInt32
    let (words, index) := wrap (words.setIfInBounds index mixed) index
    mixState rounds words index

def ofKey (key : Array UInt32) : Twister :=
  let (words, index) := mixKey key (max stateSize key.size) (ofWord 19650218) 1 0
  -- with this first word the state is not all zeros, whatever the key
  ⟨(mixState (stateSize - 1) words index).setIfInBounds 0 0x80000000, stateSize⟩

/-- The 32-bit words of a number, lowest first. -/
def keyWords (number : Nat) : List UInt32 :=
  if number < 0x100000000 then [number.toUInt32]
  else (number % 0x100000000).toUInt32 :: keyWords (number / 0x100000000)
termination_by number

def ofSeed (seed : Int) : Twister := ofKey (keyWords seed.natAbs).toArray

/-- The state after all its words have been used. -/
def renew (words : Array UInt32) : Array UInt32 :=
  (List.range stateSize).foldl
    (fun words index =>
      let joined := (word words index &&& 0x80000000) |||
        (word words ((index + 1) % stateSize) &&& 0x7fffffff)
      let twisted := if joined &&& 1 = 0 then joined >>> 1 else (joined >>> 1) ^^^ 0x9908b0df
      words.setIfInBounds index (word words ((index + 397) % stateSize) ^^^ twisted))
    words

def temper (word : UInt32) : UInt32 :=
  let word := word ^^^ (word >>> 11)
  let word := word ^^^ ((word <<< 7) &&& 0x9d2c5680)
  let word := word ^^^ ((word <<< 15) &&& 0xefc60000)
  word ^^^ (word >>> 18)

def next (twister : Twister) : UInt32 × Twister :=
  let twister := if twister.used < stateSize then twister else ⟨renew twister.words, 0⟩
  (temper (word twister.words twister.used), { twister with used := twister.used + 1 })

/-- How many numbers a choice may reject. At least every second number is good, so running out of
them is no concern. -/
def patience : Nat := 4096

def chooseWithin : Nat → (others : Nat) → Twister → Fin (others + 1) × Twister
  | 0, _, twister => (0, twister)
  | attempts + 1, others, twister =>
    let (bits, twister) := twister.next
    -- of the word only the highest bits, as many as the number of items has
    let number := bits.toNat >>> (32 - ((others + 1).log2 + 1))
    if small : number < others + 1 then (⟨number, small⟩, twister)
    else chooseWithin attempts others twister

instance : Chooser Twister where
  choose := chooseWithin patience

end Twister
end TextGrammar
