import FormLetter.Archive.Octets

/-!
# Deflated data

Deflated data is a sequence of bits in blocks. A block is stored as it is, or is a sequence of
symbols in prefix codes: octets, and copies of what came before. `inflate?` reads all three kinds
of block; `deflate` writes stored blocks. What follows the last block does not count, and before
the first octet there are zeros to be copied.
-/

namespace FormLetter.Archive

/-- A place in some data, counted in bits. -/
structure BitReader where
  data : ByteArray
  position : Nat

abbrev BitTask := StateT BitReader Option

namespace BitTask

/-- The next bit. In an octet the lowest bit comes first. -/
def bit : BitTask Nat := fun r =>
  let place := r.position / 8
  if h : place < r.data.size then
    some (r.data[place].toNat / Nat.pow 2 (r.position % 8) % 2,
      { r with position := r.position + 1 })
  else none

/-- A number of so many bits, the lowest first. -/
def number : Nat → BitTask Nat
  | 0 => pure 0
  | n + 1 => do
    let low ← bit
    return low + 2 * (← number n)

def align : BitTask Unit := modify fun r => { r with position := (r.position + 7) / 8 * 8 }

def octets (length : Nat) : BitTask ByteArray := fun r =>
  (part? r.data (r.position / 8) length).map fun part =>
    (part, { r with position := r.position + 8 * length })

end BitTask

open BitTask

def maxCodeLength : Nat := 15

/-- A prefix code in which words of one length are consecutive numbers, and longer words come
after shorter ones: for each length from 1 on how many words have it, and the symbols in the order
of their words. -/
structure PrefixCode where
  counts : List Nat
  symbols : Array Nat

/-- The code that gives each symbol a word of this many bits, none for zero bits. -/
def PrefixCode.ofLengths (lengths : List Nat) : PrefixCode where
  counts := (List.range maxCodeLength).map fun l => lengths.count (l + 1)
  symbols := ((List.range maxCodeLength).flatMap fun l =>
    (lengths.zipIdx.filter (·.1 == l + 1)).map (·.2)).toArray

/-- Whether every sequence of bits has a word at its front. -/
def PrefixCode.isComplete (code : PrefixCode) : Bool :=
  code.counts.zipIdx.foldl
    (fun sum (count, l) => sum + count * Nat.pow 2 (maxCodeLength - 1 - l)) 0 ==
    Nat.pow 2 maxCodeLength

def PrefixCode.isUsable (code : PrefixCode) : Bool :=
  code.isComplete || decide (code.symbols.size ≤ 1)

/-- Reads on in a word, with `word` read so far: `first` is the first word of the length that comes
next, and `index` the place of its symbol. -/
def PrefixCode.symbolFrom (code : PrefixCode) :
    List Nat → (word first index : Nat) → BitTask Nat
  | [], _, _, _ => failure
  | count :: counts, word, first, index => do
    let word := 2 * word + (← bit)
    let first := 2 * first
    if word < first + count then
      match code.symbols[index + (word - first)]? with
      | some symbol => return symbol
      | none => failure
    else code.symbolFrom counts word (first + count) (index + count)

def PrefixCode.symbol (code : PrefixCode) : BitTask Nat := code.symbolFrom code.counts 0 0 0

/-- Bases of copy lengths, with the number of bits to add. -/
def lengthBases : List (Nat × Nat) :=
  [(3, 0), (4, 0), (5, 0), (6, 0), (7, 0), (8, 0), (9, 0), (10, 0), (11, 1), (13, 1), (15, 1),
    (17, 1), (19, 2), (23, 2), (27, 2), (31, 2), (35, 3), (43, 3), (51, 3), (59, 3), (67, 4),
    (83, 4), (99, 4), (115, 4), (131, 5), (163, 5), (195, 5), (227, 5), (258, 0)]

/-- Bases of copy distances, with the number of bits to add. -/
def distanceBases : List (Nat × Nat) :=
  [(1, 0), (2, 0), (3, 0), (4, 0), (5, 1), (7, 1), (9, 2), (13, 2), (17, 3), (25, 3), (33, 4),
    (49, 4), (65, 5), (97, 5), (129, 6), (193, 6), (257, 7), (385, 7), (513, 8), (769, 8),
    (1025, 9), (1537, 9), (2049, 10), (3073, 10), (4097, 11), (6145, 11), (8193, 12),
    (12289, 12), (16385, 13), (24577, 13)]

/-- A base and the bits that come after it. -/
def based (bases : List (Nat × Nat)) (symbol : Nat) : BitTask Nat :=
  match bases[symbol]? with
  | some (base, extra) => do return base + (← number extra)
  | none => failure

/-- Appends octets that stand `distance` back; they may overlap with what is appended. -/
def copyBack (distance : Nat) : Nat → ByteArray → ByteArray
  | 0, out => out
  | n + 1, out =>
    if h : 0 < distance ∧ distance ≤ out.size then
      copyBack distance n (out.push out[out.size - distance])
    else copyBack distance n (out.push 0)

/-- The symbol that ends a block. Symbols below it are octets, those above it copy lengths. -/
def endOfBlock : Nat := 256

/-- Appends what the symbols of a block say. Each symbol takes at least a bit. -/
def blockSymbols (literals distances : PrefixCode) : Nat → ByteArray → BitTask ByteArray
  | 0, _ => failure
  | fuel + 1, out => do
    let symbol ← literals.symbol
    if symbol < endOfBlock then
      blockSymbols literals distances fuel (out.push (UInt8.ofNat symbol))
    else if symbol = endOfBlock then return out
    else
      let length ← based lengthBases (symbol - endOfBlock - 1)
      let distance ← based distanceBases (← distances.symbol)
      blockSymbols literals distances fuel (copyBack distance length out)

/-- The codes of blocks that do not bring their own. -/
def fixedCodes : PrefixCode × PrefixCode :=
  (.ofLengths (List.replicate 144 8 ++ List.replicate 112 9 ++ List.replicate 24 7 ++
      List.replicate 8 8),
    .ofLengths (List.replicate 30 5))

def lengthOrder : List Nat := [16, 17, 18, 0, 8, 7, 9, 6, 10, 5, 11, 4, 12, 3, 13, 2, 14, 1, 15]

/-- `total` word lengths in a code, after those that are read. 16 repeats the one before, 17 and 18
are runs of zero. -/
def codeLengths (code : PrefixCode) (total : Nat) : Nat → List Nat → BitTask (List Nat)
  | 0, _ => failure
  | fuel + 1, lengths => do
    if total ≤ lengths.length then
      if lengths.length = total then return lengths else failure
    else
      let symbol ← code.symbol
      if symbol < 16 then codeLengths code total fuel (lengths ++ [symbol])
      else if symbol = 16 then
        match lengths.getLast? with
        | some last =>
          codeLengths code total fuel (lengths ++ List.replicate (3 + (← number 2)) last)
        | none => failure
      else if symbol = 17 then
        codeLengths code total fuel (lengths ++ List.replicate (3 + (← number 3)) 0)
      else codeLengths code total fuel (lengths ++ List.replicate (11 + (← number 7)) 0)

def maxLiterals : Nat := 286
def maxDistances : Nat := 30

/-- The codes that a block brings. -/
def ownCodes : BitTask (PrefixCode × PrefixCode) := do
  let literals := 257 + (← number 5)
  let distances := 1 + (← number 5)
  if maxLiterals < literals ∨ maxDistances < distances then failure
  let given := 4 + (← number 4)
  let lengths ← (List.range given).mapM fun _ => number 3
  let ordered := (List.range 19).map fun symbol =>
    ((lengthOrder.zip lengths).find? (·.1 == symbol)).elim 0 (·.2)
  let lengthCode := PrefixCode.ofLengths ordered
  if !lengthCode.isComplete then failure
  let all ← codeLengths lengthCode (literals + distances) (literals + distances + 1) []
  let literalCode := PrefixCode.ofLengths (all.take literals)
  let distanceCode := PrefixCode.ofLengths (all.drop literals)
  if literalCode.isUsable && distanceCode.isUsable then return (literalCode, distanceCode)
  failure

def storedBlock (out : ByteArray) : BitTask ByteArray := do
  align
  let length ← number 16
  let inverse ← number 16
  if length + inverse ≠ 65535 then failure
  return out ++ (← octets length)

/-- Appends the blocks up to the last. Each takes at least a bit. -/
def blocks : Nat → ByteArray → BitTask ByteArray
  | 0, _ => failure
  | fuel + 1, out => do
    let last ← bit
    let bits := 8 * (← get).data.size + 1
    let out ← match ← number 2 with
      | 0 => storedBlock out
      | 1 => blockSymbols fixedCodes.1 fixedCodes.2 bits out
      | 2 => do
        let (literals, distances) ← ownCodes
        blockSymbols literals distances bits out
      | _ => failure
    if last = 1 then return out else blocks fuel out

/-- The data that was deflated. There may be none at all. -/
def inflate? (data : ByteArray) : Option ByteArray :=
  if data.isEmpty then some .empty
  else (blocks (8 * data.size + 1) .empty |>.run ⟨data, 0⟩).map (·.1)

def maxStored : Nat := 65535

/-- Stored blocks for some data. -/
def storedBlocks (data : ByteArray) : Nat → Nat → Octets
  | 0, _ => []
  | fuel + 1, place =>
    let length := min maxStored (data.size - place)
    let last := data.size ≤ place + length
    (if last then 1 else 0) :: octetsOf 2 length ++ octetsOf 2 (65535 - length) ++
      (data.extract place (place + length)).toList ++
      (if last then [] else storedBlocks data fuel (place + length))

def deflate (data : ByteArray) : ByteArray :=
  ⟨(storedBlocks data (data.size / maxStored + 1) 0).toArray⟩

end FormLetter.Archive
