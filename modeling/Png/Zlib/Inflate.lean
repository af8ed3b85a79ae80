import Png.Zlib.Fault
import Png.Zlib.Huffman

/-!
# Inflating

Deflated data are blocks of symbols: bytes to put out, and copies of output put out before. A block
is stored as it is, or coded with fixed prefix codes, or with codes that it describes itself. Every
symbol takes a bit at least, which bounds the loops.
-/

namespace Png.Zlib

/-- The first length of each copy symbol from 257 on, and how many bits are added to it. The last
two symbols of the fixed code read like the longest copy. -/
def copyLengths : Array (Nat × Nat) :=
  #[(3, 0), (4, 0), (5, 0), (6, 0), (7, 0), (8, 0), (9, 0), (10, 0), (11, 1), (13, 1), (15, 1),
    (17, 1), (19, 2), (23, 2), (27, 2), (31, 2), (35, 3), (43, 3), (51, 3), (59, 3), (67, 4),
    (83, 4), (99, 4), (115, 4), (131, 5), (163, 5), (195, 5), (227, 5), (258, 0), (258, 0),
    (258, 0)]

/-- The first distance of each distance symbol, and how many bits are added to it. The last two
symbols of the fixed code read like the farthest. -/
def copyDistances : Array (Nat × Nat) :=
  #[(1, 0), (2, 0), (3, 0), (4, 0), (5, 1), (7, 1), (9, 2), (13, 2), (17, 3), (25, 3), (33, 4),
    (49, 4), (65, 5), (97, 5), (129, 6), (193, 6), (257, 7), (385, 7), (513, 8), (769, 8),
    (1025, 9), (1537, 9), (2049, 10), (3073, 10), (4097, 11), (6145, 11), (8193, 12), (12289, 12),
    (16385, 13), (24577, 13), (24577, 13), (24577, 13)]

/-- The lengths of the fixed code of bytes and copies. -/
def fixedLengths : List Nat :=
  List.replicate 144 8 ++ List.replicate 112 9 ++ List.replicate 24 7 ++ List.replicate 8 8

/-- The order in which a block gives the lengths of the code for its code lengths. -/
def lengthOrder : List Nat :=
  [16, 17, 18, 0, 8, 7, 9, 6, 10, 5, 11, 4, 12, 3, 13, 2, 14, 1, 15]

/-- The value, or a complaint that the data end too early. -/
def orInsufficient {α : Type} (value : Option α) : Except Fault α :=
  match value with
  | some a => .ok a
  | none => .error .insufficientData

/-- One step of a coded block. -/
inductive Step where
  /-- Put out a byte. -/
  | byte (value : UInt8)
  /-- Put out bytes again, the first of them `distance` before the end. -/
  | copy (length distance : Nat)
  /-- The block is over. -/
  | stop

/-- The copy that starts with `symbol`. -/
def readCopy? (distances : Code) (symbol : Nat) (b : Bits) : Option (Step × Bits) := do
  let (length, extra) ← copyLengths[symbol - 257]?
  let (moreLength, b) ← b.take? extra
  let (symbol, b) ← distances.read? b
  let (distance, extra) ← copyDistances[symbol]?
  let (moreDistance, b) ← b.take? extra
  return (.copy (length + moreLength) (distance + moreDistance), b)

/-- The next step of a block with the codes given. -/
def readStep? (symbols distances : Code) (b : Bits) : Option (Step × Bits) := do
  let (symbol, b) ← symbols.read? b
  if symbol < 256 then return (.byte symbol.toUInt8, b)
  else if symbol = 256 then return (.stop, b)
  else readCopy? distances symbol b

theorem size_of_readCopy? {distances : Code} {symbol : Nat} {b b' : Bits} {step : Step}
    (h : readCopy? distances symbol b = some (step, b')) : b'.size < b.size := by
  simp only [readCopy?, Option.bind_eq_bind, Option.bind_eq_some_iff, Prod.exists, Option.pure_def,
    Option.some.injEq, Prod.mk.injEq] at h
  obtain ⟨_, _, -, _, b₁, h₁, _, b₂, h₂, _, _, -, _, b₃, h₃, -, rfl⟩ := h
  have := Bits.size_of_take? h₁
  have := Code.size_of_read? h₂
  have := Bits.size_of_take? h₃
  omega

theorem size_of_readStep? {symbols distances : Code} {b b' : Bits} {step : Step}
    (h : readStep? symbols distances b = some (step, b')) : b'.size < b.size := by
  simp only [readStep?, Option.bind_eq_bind, Option.bind_eq_some_iff, Prod.exists,
    Option.pure_def] at h
  obtain ⟨symbol, b₁, h₁, h⟩ := h
  have := Code.size_of_read? h₁
  split at h
  · simp_all
  split at h
  · simp_all
  · have := size_of_readCopy? h
    omega

/-- Puts out `length` bytes, each the one that stands `distance` before the end. -/
def copyBack (distance : Nat) : (length : Nat) → Array UInt8 → Array UInt8
  | 0, out => out
  | length + 1, out => copyBack distance length (out.push (out.getD (out.size - distance) 0))

/-- Puts out the steps of a coded block up to its end. -/
def inflateSteps (symbols distances : Code) (b : Bits) (out : Array UInt8) :
    Except Fault (Array UInt8 × Bits) :=
  match h : readStep? symbols distances b with
  | none => .error .insufficientData
  | some (.stop, b') => .ok (out, b')
  | some (.byte value, b') =>
    have := size_of_readStep? h
    inflateSteps symbols distances b' (out.push value)
  | some (.copy length distance, b') =>
    have := size_of_readStep? h
    if distance ≤ out.size then
      inflateSteps symbols distances b' (copyBack distance length out)
    else .error .distanceTooFar
termination_by b.size

/-- Puts out a stored block: two bytes of length, their complement, and the bytes themselves. -/
def inflateStored (b : Bits) (out : Array UInt8) : Except Fault (Array UInt8 × Bits) := do
  let (length, b) ← orInsufficient (b.align.take? 16)
  let (complement, b) ← orInsufficient (b.take? 16)
  if length + complement ≠ 65535 then throw .badStoredLength
  let (bytes, rest) := b.rest.splitAt length
  if bytes.length ≠ length then throw .insufficientData
  return (out ++ bytes, { rest })

/-- Reads `count` numbers of three bits. -/
def readTriples : (count : Nat) → Bits → Except Fault (List Nat × Bits)
  | 0, b => .ok ([], b)
  | count + 1, b => do
    let (value, b) ← orInsufficient (b.take? 3)
    let (values, b) ← readTriples count b
    return (value :: values, b)

/-- What a symbol of a length code stands for: a length, and how often it comes. -/
def readRun (lengths : Code) (last : Option Nat) (b : Bits) :
    Except Fault ((Nat × Nat) × Bits) := do
  let (symbol, b) ← orInsufficient (lengths.read? b)
  if symbol < 16 then return ((symbol, 1), b)
  else if symbol = 16 then
    let (more, b) ← orInsufficient (b.take? 2)
    match last with
    | some length => return ((length, 3 + more), b)
    | none => throw .badRepeat
  else if symbol = 17 then
    let (more, b) ← orInsufficient (b.take? 3)
    return ((0, 3 + more), b)
  else
    let (more, b) ← orInsufficient (b.take? 7)
    return ((0, 11 + more), b)

/-- Reads the lengths of `needed` symbols or more behind those of `done`, which is held backwards:
the last run may be longer than is needed. Every run has one length at least, so there are at most
`needed` of them. -/
def readLengths (lengths : Code) :
    (needed : Nat) → (done : List Nat) → Bits → Except Fault (List Nat × Bits)
  | 0, done, b => .ok (done.reverse, b)
  | needed + 1, done, b => do
    let ((length, times), b) ← readRun lengths done.head? b
    readLengths lengths (needed - (times - 1)) (List.replicate times length ++ done) b
termination_by needed => needed
decreasing_by omega

/-- Reads the two codes that a block describes. Lengths past those of the last distance are of no
use and dropped. -/
def readCodes (b : Bits) : Except Fault ((Code × Code) × Bits) := do
  let (moreSymbols, b) ← orInsufficient (b.take? 5)
  let (moreDistances, b) ← orInsufficient (b.take? 5)
  let (moreLengths, b) ← orInsufficient (b.take? 4)
  let (given, b) ← readTriples (4 + moreLengths) b
  let ordered := lengthOrder.zip given
  let lengths ← orBadCode ((List.range 19).map fun s => (ordered.lookup s).getD 0)
  let symbolCount := 257 + moreSymbols
  let distanceCount := 1 + moreDistances
  let (all, b) ← readLengths lengths (symbolCount + distanceCount) [] b
  let symbols ← orBadCode (all.take symbolCount)
  let distances ← orBadCode ((all.drop symbolCount).take distanceCount)
  return ((symbols, distances), b)
where
  /-- The code with the lengths given. -/
  orBadCode (lengths : List Nat) : Except Fault Code :=
    match Code.ofLengths? lengths with
    | some code => .ok code
    | none => .error .badCode

/-- The two codes of a block of the type given, other than stored. -/
def blockCodes (type : Nat) (b : Bits) : Except Fault ((Code × Code) × Bits) :=
  match type with
  | 1 =>
    match Code.ofLengths? fixedLengths, Code.ofLengths? (List.replicate 32 5) with
    | some symbols, some distances => .ok ((symbols, distances), b)
    | _, _ => .error .badCode
  | 2 => readCodes b
  | _ => .error .reservedBlock

/-- Puts out one block of the type given. -/
def inflateBlock (type : Nat) (b : Bits) (out : Array UInt8) : Except Fault (Array UInt8 × Bits) :=
  if type = 0 then inflateStored b out
  else do
    let ((symbols, distances), b) ← blockCodes type b
    inflateSteps symbols distances b out

/-- How many whole bytes there have to be where a stored block starts that is not the last one. A
stream that goes on to its checksum never has fewer. -/
def storedLookahead : Nat := 7

/-- Puts out blocks up to the last one. A block takes three bits at least, so that `limit` blocks
are enough where there are no more than that many bits. -/
def inflateBlocks : (limit : Nat) → Bits → Array UInt8 → Except Fault (Array UInt8 × Bits)
  | 0, _, _ => .error .insufficientData
  | limit + 1, b, out => do
    let ahead := b.rest.length
    let (head, b) ← orInsufficient (b.take? 3)
    if head = 0 ∧ ahead < storedLookahead then throw .insufficientData
    let (out, b) ← inflateBlock (head / 2) b out
    if head % 2 = 1 then return (out, b) else inflateBlocks limit b out

/-- The output of deflated data, and what follows them. -/
def inflate (bytes : List UInt8) : Except Fault (Array UInt8 × List UInt8) := do
  let b : Bits := { rest := bytes }
  let (out, b) ← inflateBlocks (b.size + 1) b #[]
  return (out, b.rest)

end Png.Zlib
