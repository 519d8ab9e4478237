import WideDeep.Bytes.Field

/-!
# Reading fields

A reader takes fields off the front of a sequence of bytes. A reader that fails has still taken
what there was.
-/

namespace WideDeep

/-- Reading from bytes, with the rest as state. -/
abbrev Reader (β : Type) := ExceptT Error (StateM Bytes) β

namespace Reader

def fault {β : Type} (f : FormatFault) : Reader β :=
  throw (.format f)

/-- Take a number of bytes. A negative number asks for all there are, which is never as many as
wanted, and a number beyond a machine word is refused. -/
def take (count : Int) : Reader Bytes := do
  if 0x8000000000000000 ≤ count || count < -0x8000000000000000 then throw .overflow
  let available ← get
  let n := if count < 0 then available.length else count.toNat
  let taken := available.take n
  set (available.drop n)
  if (taken.length : Int) != count then fault (.unexpectedEnd count taken.length)
  pure taken

def groups (size : Nat) : Nat → Bytes → List Bytes
  | 0, _ => []
  | n + 1, bytes => bytes.take size :: groups size n (bytes.drop size)

def int : Reader Int := do
  return ofWordBytes (← take 4)

/-- A truth value: any byte but zero is true. -/
def bool : Reader Bool := do
  return ofBigEndian (← take 1) != 0

def single : Reader Float32 := do
  return ofSingleBytes (← take 4)

def double : Reader Float := do
  return ofDoubleBytes (← take 8)

def text : Reader String := do
  let size := ofBigEndian (← take 2)
  let bytes ← take size
  match String.fromUTF8? ⟨bytes.toArray⟩ with
  | some s => pure s
  | none => fault .invalidText

def length : Reader Nat := do
  let n ← int
  if n < 0 then fault (.negativeLength n)
  pure n.toNat

def singles (count : Int) : Reader (List Float32) := do
  let bytes ← take (count * 4)
  pure ((groups 4 count.toNat bytes).map ofSingleBytes)

def doubles : Reader (List Float) := do
  let count ← length
  let bytes ← take (count * 8)
  pure ((groups 8 count bytes).map ofDoubleBytes)

def ints : Reader (List Int) := do
  let count ← length
  let bytes ← take (count * 4)
  pure ((groups 4 count bytes).map ofWordBytes)

def replicate {β : Type} (r : Reader β) : Nat → Reader (List β)
  | 0 => pure []
  | n + 1 => do
    let first ← r
    return first :: (← replicate r n)

def runOn {β : Type} (r : Reader β) (bytes : Bytes) : Except Error β × Bytes :=
  (r.run).run bytes

end Reader

end WideDeep
