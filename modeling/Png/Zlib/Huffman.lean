import Png.Zlib.Bits

/-!
# Prefix codes

A prefix code is a binary tree with symbols at its leaves: reading a symbol walks down from the
root, one bit a step. Compressed data describe a code by the length of each symbol's word; the words
themselves are canonical, which is to say that in the order of the tree from left to right the
symbols are sorted by length and then by number. `Code.ofLengths?` builds the tree in that order.
-/

namespace Png.Zlib

/-- The part of a prefix code below a word's first bits. -/
inductive CodeTree where
  /-- No word starts this way. -/
  | empty
  | leaf (symbol : Nat)
  | node (zero one : CodeTree)

/-- A prefix code: the words that start with a zero and those that start with a one. No word is
empty, so every symbol takes a bit at least. -/
structure Code where
  zero : CodeTree
  one : CodeTree

namespace CodeTree

/-- Walks down the tree to a symbol. -/
def read? : CodeTree → Bits → Option (Nat × Bits)
  | empty, _ => none
  | leaf symbol, b => some (symbol, b)
  | node zero one, b => do
    let (bit, b) ← b.next?
    if bit then one.read? b else zero.read? b

/-- Whether every sequence of bits leads to a symbol. -/
def isFull : CodeTree → Bool
  | empty => false
  | leaf _ => true
  | node zero one => zero.isFull && one.isFull

/-- The tree below a word of `depth` bits that takes up as many of the sorted words as fit, and the
words left over; it reaches down `levels` more levels. -/
def ofSorted : (levels depth : Nat) → List (Nat × Nat) → CodeTree × List (Nat × Nat)
  | _, _, [] => (empty, [])
  | 0, _, (_, symbol) :: words => (leaf symbol, words)
  | levels + 1, depth, (length, symbol) :: words =>
    if length ≤ depth then (leaf symbol, words)
    else
      let (zero, words) := ofSorted levels (depth + 1) ((length, symbol) :: words)
      let (one, words) := ofSorted levels (depth + 1) words
      (node zero one, words)

theorem size_of_read? {t : CodeTree} {b b' : Bits} {symbol : Nat}
    (h : t.read? b = some (symbol, b')) : b'.size ≤ b.size := by
  induction t generalizing b with
  | empty => simp [read?] at h
  | leaf _ => simp_all [read?]
  | node zero one ihZero ihOne =>
    simp only [read?, Option.bind_eq_bind, Option.bind_eq_some_iff, Prod.exists] at h
    obtain ⟨bit, b₁, h₁, h⟩ := h
    have := Bits.size_of_next? h₁
    split at h
    · have := ihOne h
      omega
    · have := ihZero h
      omega

end CodeTree

namespace Code

/-- The next symbol. -/
def read? (c : Code) (b : Bits) : Option (Nat × Bits) := do
  let (bit, b) ← b.next?
  if bit then c.one.read? b else c.zero.read? b

theorem size_of_read? {c : Code} {b b' : Bits} {symbol : Nat}
    (h : c.read? b = some (symbol, b')) : b'.size < b.size := by
  simp only [read?, Option.bind_eq_bind, Option.bind_eq_some_iff, Prod.exists] at h
  obtain ⟨bit, b₁, h₁, h⟩ := h
  have := Bits.size_of_next? h₁
  split at h
  · have := CodeTree.size_of_read? h
    omega
  · have := CodeTree.size_of_read? h
    omega

/-- The longest word of a code. -/
def maxLength : Nat := 15

/-- The code whose words have the lengths given, symbol by symbol; length zero means no word. The
words must fill the code exactly, with two exceptions: a code without words reads every bit as
symbol zero, and a code with one word of one bit reads every bit as its symbol. -/
def ofLengths? (lengths : List Nat) : Option Code :=
  let used := lengths.zipIdx.filter (·.1 != 0)
  match used.mergeSort (fun a b => a.1 ≤ b.1) with
  | [] => some ⟨.leaf 0, .leaf 0⟩
  | [(1, symbol)] => some ⟨.leaf symbol, .leaf symbol⟩
  | words =>
    let (zero, words) := CodeTree.ofSorted (maxLength - 1) 1 words
    let (one, words) := CodeTree.ofSorted (maxLength - 1) 1 words
    if words.isEmpty && zero.isFull && one.isFull then some ⟨zero, one⟩ else none

end Code

end Png.Zlib
