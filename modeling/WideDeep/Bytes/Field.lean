import WideDeep.Error
import WideDeep.Binary.Stored

/-!
# Fields

A stream is a sequence of typed fields, each written as big-endian bytes. A text is preceded by its
number of bytes in two bytes, and lists of doubles and of integers by their length as an integer;
the length of a list of singles is not written.
-/

namespace WideDeep

abbrev Bytes := List UInt8

/-- What can be written into a stream. No text at all counts as the empty one. A `refused` field
stands for a value that cannot be written. -/
inductive Field where
  | int (value : Int)
  | bool (value : Bool)
  | single (value : Binary.Stored Float)
  | double (value : Binary.Stored Float)
  | text (value : Option String)
  | singles (values : List (Binary.Stored Float32))
  | doubles (values : List (Binary.Stored Float))
  | ints (values : List Int)
  | refused (error : Error)

/-- The last `n` bytes of a number, the most significant one first. -/
def bigEndian : Nat → Nat → Bytes
  | 0, _ => []
  | n + 1, v => UInt8.ofNat (v / Nat.pow 256 n) :: bigEndian n v

/-- The number that bytes stand for, the most significant one first. -/
def ofBigEndian (bytes : Bytes) : Nat :=
  bytes.foldl (fun v b => 256 * v + b.toNat) 0

def fitsWord (n : Int) : Bool :=
  -0x80000000 ≤ n && n < 0x80000000

/-- The four bytes of an integer, negative ones as two's complement. -/
def wordBytes (n : Int) : Bytes :=
  bigEndian 4 (n % 0x100000000).toNat

def ofWordBytes (bytes : Bytes) : Int :=
  let v := ofBigEndian bytes
  if v < 0x80000000 then v else (v : Int) - 0x100000000

def singleBytes (x : Binary.Stored Float32) : Bytes :=
  bigEndian 4 x.bits32

def doubleBytes (x : Binary.Stored Float) : Bytes :=
  bigEndian 8 x.bits64

def ofSingleBytes (bytes : Bytes) : Float32 :=
  Float32.ofBits (UInt32.ofNat (ofBigEndian bytes))

def ofDoubleBytes (bytes : Bytes) : Float :=
  Float.ofBits (UInt64.ofNat (ofBigEndian bytes))

namespace Field

def word (n : Int) : Except Error Bytes :=
  if fitsWord n then .ok (wordBytes n) else .error .integerRange

/-- The pieces in which a field is written. The first piece that fails ends the writing. -/
def pieces : Field → List (Except Error Bytes)
  | int n => [word n]
  | bool b => [.ok [if b then 1 else 0]]
  | single x =>
    let y := x.narrow
    if Binary.isFinite x.value && !Binary.isFinite y.widen.value then [.error .overflow]
    else [.ok (singleBytes y)]
  | double x => [.ok (doubleBytes x)]
  | text s =>
    let bytes := (s.getD "").toUTF8.data.toList
    if 0xffff < bytes.length then [.error (.textTooLong bytes.length)]
    else [.ok (bigEndian 2 bytes.length), .ok bytes]
  | singles xs => [.ok (xs.flatMap singleBytes)]
  | doubles xs => [word xs.length, .ok (xs.flatMap doubleBytes)]
  | ints ns =>
    [word ns.length, if ns.all fitsWord then .ok (ns.flatMap wordBytes) else .error .overflow]
  | refused e => [.error e]

def encode (f : Field) : Except Error Bytes :=
  (f.pieces.mapM id).map List.flatten

/-- What is written of a field before an error. -/
def written (f : Field) : Bytes :=
  ((f.pieces.takeWhile Except.isOk).map fun p => (p.toOption).getD []).flatten

def encodeAll (fs : List Field) : Except Error Bytes :=
  (fs.mapM encode).map List.flatten

end Field

end WideDeep
