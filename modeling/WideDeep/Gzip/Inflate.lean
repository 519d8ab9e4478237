import WideDeep.Gzip.Huffman

/-!
# Expanding compressed blocks

A stream is a sequence of blocks, each stored as it is or coded by a fixed or by its own pair of
prefix codes. A coded block consists of literal bytes and of copies of what came before.
-/

namespace WideDeep.Gzip

/-- Bytes expanded so far and bits not yet read. -/
structure Progress where
  output : Array UInt8
  bits : Bits

/-- Base and number of extra bits of each copy length, from symbol 257 on. -/
def lengthTable : List (Nat × Nat) :=
  [(3, 0), (4, 0), (5, 0), (6, 0), (7, 0), (8, 0), (9, 0), (10, 0), (11, 1), (13, 1), (15, 1),
   (17, 1), (19, 2), (23, 2), (27, 2), (31, 2), (35, 3), (43, 3), (51, 3), (59, 3), (67, 4),
   (83, 4), (99, 4), (115, 4), (131, 5), (163, 5), (195, 5), (227, 5), (258, 0)]

/-- Base and number of extra bits of each copy distance. -/
def distanceTable : List (Nat × Nat) :=
  [(1, 0), (2, 0), (3, 0), (4, 0), (5, 1), (7, 1), (9, 2), (13, 2), (17, 3), (25, 3), (33, 4),
   (49, 4), (65, 5), (97, 5), (129, 6), (193, 6), (257, 7), (385, 7), (513, 8), (769, 8),
   (1025, 9), (1537, 9), (2049, 10), (3073, 10), (4097, 11), (6145, 11), (8193, 12), (12289, 12),
   (16385, 13), (24577, 13)]

/-- Copy bytes from a distance before the end, one by one, so that a copy may overlap itself. -/
def copy (distance : Nat) : Nat → Array UInt8 → Array UInt8
  | 0, output => output
  | n + 1, output => copy distance n (output.push (output.getD (output.size - distance) 0))

/-- A value from a table of bases with extra bits. -/
def extended (table : List (Nat × Nat)) (index : Nat) (bits : Bits) :
    Except Fault (Nat × Bits) :=
  match table[index]? with
  | none => .error .invalid
  | some (base, extra) => (takeBits extra bits).map fun (n, rest) => (base + n, rest)

/-- The symbols of a coded block up to its end mark. Each takes a bit at least. -/
def codedBlock (literals distances : Code) : Nat → Progress → Except Fault Progress
  | 0, _ => .error .truncated
  | fuel + 1, p => do
    let (s, bits) ← symbol literals p.bits
    if s < 256 then codedBlock literals distances fuel ⟨p.output.push (UInt8.ofNat s), bits⟩
    else if s == 256 then pure ⟨p.output, bits⟩
    else
      let (length, bits) ← extended lengthTable (s - 257) bits
      let (d, bits) ← symbol distances bits
      let (distance, bits) ← extended distanceTable d bits
      if p.output.size < distance then throw .invalid
      codedBlock literals distances fuel ⟨copy distance length p.output, bits⟩

def storedBlock (p : Progress) : Except Fault Progress := do
  let (length, bits) ← takeBits 16 (align p.bits)
  let (complement, bits) ← takeBits 16 bits
  if length + complement != 0xffff then throw .invalid
  (List.range length).foldlM
    (fun p _ => do
      let (b, bits) ← takeBits 8 p.bits
      pure ⟨p.output.push (UInt8.ofNat b), bits⟩)
    ⟨p.output, bits⟩

/-- The order in which the lengths of the length code are written. -/
def lengthOrder : List Nat :=
  [16, 17, 18, 0, 8, 7, 9, 6, 10, 5, 11, 4, 12, 3, 13, 2, 14, 1, 15]

def shortLengths : Nat → Bits → Except Fault (List Nat × Bits)
  | 0, bits => .ok ([], bits)
  | n + 1, bits => do
    let (first, bits) ← takeBits 3 bits
    let (rest, bits) ← shortLengths n bits
    pure (first :: rest, bits)

/-- Read code lengths until there are `wanted` of them, where some symbols repeat the last length
or zero. The lengths are collected in reverse. -/
def codeLengths (c : Code) (wanted : Nat) : Nat → List Nat → Bits →
    Except Fault (List Nat × Bits)
  | 0, _, _ => .error .truncated
  | fuel + 1, seen, bits =>
    if wanted ≤ seen.length then .ok (seen.reverse, bits)
    else do
      let (s, bits) ←
        if c.all List.isEmpty then (takeBits 1 bits).map fun r => (0, r.2) else symbol c bits
      if s < 16 then codeLengths c wanted fuel (s :: seen) bits
      else
        let (value, base, extra) :=
          if s == 16 then (seen.head?, 3, 2)
          else if s == 17 then (some 0, 3, 3)
          else (some 0, 11, 7)
        let (n, bits) ← takeBits extra bits
        match value with
        | none => throw .invalid
        | some v =>
          if wanted < seen.length + (base + n) then throw .invalid
          codeLengths c wanted fuel (List.replicate (base + n) v ++ seen) bits

def codeOf (single : Bool) (lengths : List Nat) : Except Fault Code :=
  match code? single lengths with
  | some c => .ok c
  | none => .error .invalid

def blockCodes (bits : Bits) : Except Fault (Code × Code × Bits) := do
  let (literalCount, bits) ← takeBits 5 bits
  let (distanceCount, bits) ← takeBits 5 bits
  let (lengthCount, bits) ← takeBits 4 bits
  if 29 < literalCount || 29 < distanceCount then throw .invalid
  let (short, bits) ← shortLengths (lengthCount + 4) bits
  let given := lengthOrder.zip short
  let lengthCode ← codeOf false ((List.range 19).map fun i => (given.lookup i).getD 0)
  let wanted := (literalCount + 257) + (distanceCount + 1)
  let (lengths, bits) ← codeLengths lengthCode wanted (wanted + 1) [] bits
  if lengths.getD 256 0 == 0 then throw .invalid
  let literals ← codeOf true (lengths.take (literalCount + 257))
  let distances ← codeOf true (lengths.drop (literalCount + 257))
  pure (literals, distances, bits)

/-- The fixed code of literals and copy lengths. -/
def fixedLiterals : Code :=
  levels (List.replicate 144 8 ++ List.replicate 112 9 ++ List.replicate 24 7 ++
    List.replicate 8 8)

def fixedDistances : Code :=
  levels (List.replicate 32 5)

def block (kind : Nat) (p : Progress) : Except Fault Progress := do
  let fuel := p.bits.length + 1
  if kind == 0 then storedBlock p
  else if kind == 1 then codedBlock fixedLiterals fixedDistances fuel p
  else if kind == 2 then
    let (literals, distances, bits) ← blockCodes p.bits
    codedBlock literals distances fuel ⟨p.output, bits⟩
  else throw .invalid

def blocks : Nat → Progress → Except Fault Progress
  | 0, _ => .error .truncated
  | fuel + 1, p => do
    let (last, bits) ← takeBits 1 p.bits
    let (kind, bits) ← takeBits 2 bits
    let p ← block kind ⟨p.output, bits⟩
    if last == 1 then pure p else blocks fuel p

/-- Expand a stream: the bytes, and the bytes behind the stream. -/
def inflate (data : List UInt8) : Except Fault (List UInt8 × List UInt8) := do
  let bits := bitsOf data
  let p ← blocks (bits.length + 1) ⟨#[], bits⟩
  let left := p.bits.length / 8
  pure (p.output.toList, data.drop (data.length - left))

end WideDeep.Gzip
