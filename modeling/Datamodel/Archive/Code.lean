import Datamodel.Archive.Bits

/-!
# Canonical codes

A code gives every symbol a word of bits, and it is determined by the lengths of the words: shorter
words come first, and words of one length are numbered in the order of their symbols. A symbol of
length zero has no word.
-/

namespace Datamodel.Archive

def maxLength : Nat :=
  15

structure Code where
  /-- How many words there are of each length from one on. -/
  counts : List Nat
  /-- The symbols in the order of their words. -/
  symbols : Array Nat

namespace Code

def symbolsOf (lengths : List Nat) (length : Nat) : List Nat :=
  (lengths.zipIdx.filter fun entry => entry.1 == length).map (·.2)

def ofLengths (lengths : List Nat) : Code :=
  let groups := (List.range maxLength).map fun n => symbolsOf lengths (n + 1)
  { counts := groups.map List.length, symbols := groups.flatten.toArray }

/-- The number of bit sequences of the greatest length, and the number of them that begin with a
word when so many words of each length are given. -/
def share (counts : List Nat) : Nat × Nat :=
  counts.foldl (fun (all, taken) count => (2 * all, 2 * taken + count)) (1, 0)

/-- Whether the words of a code use up all bit sequences. -/
def isComplete (code : Code) : Bool :=
  let (all, taken) := share code.counts
  taken == all

/-- Whether a code can be used: it is complete, or it has no words, or a single one of one bit. -/
def isUsable (code : Code) : Bool :=
  code.isComplete || code.symbols.isEmpty || (code.symbols.size == 1 && code.counts.head? == some 1)

/-- Reads a word bit by bit. `first` is the first word of the length reached, `index` the number of
its symbol, and `word` the bits read so far. -/
def readFrom (symbols : Array Nat) : (counts : List Nat) → (word first index : Nat) → Bits →
    Option (Nat × Bits)
  | [], _, _, _, _ => none
  | count :: counts, word, first, index, bits => do
    let (bit, bits) ← bits.next?
    let word := 2 * word + bit
    let first := 2 * first
    if word < first + count then
      let symbol ← symbols[index + (word - first)]?
      some (symbol, bits)
    else
      readFrom symbols counts word (first + count) (index + count) bits

def read? (code : Code) (bits : Bits) : Option (Nat × Bits) :=
  readFrom code.symbols code.counts 0 0 0 bits

end Code

end Datamodel.Archive
