import WideDeep.Gzip.Inflate

/-!
# Compressed files

A file holds one or several members, each with a header, a compressed stream, and a check sum and a
length behind it. Zeros between and behind the members are skipped.
-/

namespace WideDeep.Gzip

def crcStep (c : UInt32) : UInt32 :=
  if c &&& 1 == 1 then (c >>> 1) ^^^ 0xedb88320 else c >>> 1

def crcByte (c : UInt32) (b : UInt8) : UInt32 :=
  (List.range 8).foldl (fun c _ => crcStep c) (c ^^^ b.toUInt32)

def crc32 (bytes : List UInt8) : UInt32 :=
  bytes.foldl crcByte 0xffffffff ^^^ 0xffffffff

/-- The number that bytes stand for, the least significant one first. -/
def ofLittleEndian : List UInt8 → Nat
  | [] => 0
  | b :: rest => b.toNat + 256 * ofLittleEndian rest

/-- Skip a text that a zero ends, or the end of the data. -/
def skipText (data : List UInt8) : List UInt8 :=
  (data.dropWhile (· != 0)).drop 1

/-- Skip a number of bytes that have to be there. -/
def skip? (n : Nat) (data : List UInt8) : Option (List UInt8) :=
  if data.length < n then none else some (data.drop n)

def skipOptions? (flags : Nat) (data : List UInt8) : Option (List UInt8) := do
  let data ←
    if flags.testBit 2 then do
      let rest ← skip? 2 data
      skip? (ofLittleEndian (data.take 2)) rest
    else pure data
  let data := if flags.testBit 3 then skipText data else data
  let data := if flags.testBit 4 then skipText data else data
  if flags.testBit 1 then skip? 2 data else pure data

def skipHeader? (data : List UInt8) : Option (List UInt8) := do
  let rest ← skip? 10 data
  if data.take 3 != [0x1f, 0x8b, 8] then none
  skipOptions? (data.getD 3 0).toNat rest

/-- Expand a member: its bytes and what follows it. -/
def member (data : List UInt8) : Except Error (List UInt8 × List UInt8) :=
  match skipHeader? data with
  | none => .error (.format .corruptContainer)
  | some stream =>
    match inflate stream with
    | .error .invalid => .error .deflate
    | .error .truncated => .error (.format .corruptContainer)
    | .ok (bytes, rest) =>
      let trailer := rest.take 8
      if trailer.length < 8 || ofLittleEndian (trailer.take 4) != (crc32 bytes).toNat ||
          ofLittleEndian (trailer.drop 4) != bytes.length % 0x100000000 then
        .error (.format .corruptContainer)
      else .ok (bytes, (rest.drop 8).dropWhile (· == 0))

def members : Nat → List UInt8 → Except Error (List UInt8)
  | 0, _ => .ok []
  | fuel + 1, data =>
    if data.isEmpty then .ok []
    else do
      let (bytes, rest) ← member data
      return bytes ++ (← members fuel rest)

def expand (data : List UInt8) : Except Error (List UInt8) :=
  members (data.length + 1) data

/-- The two bytes that a compressed file begins with. -/
def magic : List UInt8 := [0x1f, 0x8b]

end WideDeep.Gzip
