import WideDeep.Document
import WideDeep.Decimal.Reading

/-!
# Reading JSON

The reader takes the JSON grammar and beyond it the words `NaN`, `Infinity` and `-Infinity`. Of
equal keys in one table the last value counts.
-/

namespace WideDeep.Document

open Text

def isSpace (c : Char) : Bool :=
  c == ' ' || c == '\t' || c == '\n' || c == '\r'

def word? : List Char → List Char → Option (List Char)
  | [], cs => some cs
  | w :: ws, c :: cs => if w == c then word? ws cs else none
  | _ :: _, [] => none

def hexDigit? (c : Char) : Option Nat :=
  if isAsciiDigit c then some (c.toNat - 48)
  else if 97 ≤ c.toNat && c.toNat ≤ 102 then some (c.toNat - 87)
  else if 65 ≤ c.toNat && c.toNat ≤ 70 then some (c.toNat - 55)
  else none

def hex4? : List Char → Option (Nat × List Char)
  | a :: b :: c :: d :: rest =>
    match hexDigit? a, hexDigit? b, hexDigit? c, hexDigit? d with
    | some x, some y, some z, some w => some (((x * 16 + y) * 16 + z) * 16 + w, rest)
    | _, _, _, _ => none
  | _ => none

/-- What a letter after a backslash stands for. -/
def escape? (c : Char) : Option Char :=
  if c == 'n' then some '\n'
  else if c == 't' then some '\t'
  else if c == 'r' then some '\r'
  else if c == 'b' then some (Char.ofNat 8)
  else if c == 'f' then some (Char.ofNat 12)
  else if c == '/' || c == Char.ofNat 34 || c == Char.ofNat 92 then some c
  else none

/-- A character by its code after `u`, two codes joined if they are a surrogate pair. A surrogate
that stands alone becomes the replacement character. -/
def unicode? (cs : List Char) : Option (Char × List Char) :=
  (hex4? cs).map fun (n, rest) =>
    if 0xd800 ≤ n && n < 0xdc00 then
      match rest with
      | b :: 'u' :: more =>
        match hex4? more with
        | some (m, after) =>
          if b.toNat == 92 && 0xdc00 ≤ m && m < 0xe000 then
            (Char.ofNat (0x10000 + (n - 0xd800) * 1024 + (m - 0xdc00)), after)
          else (Char.ofNat 0xfffd, rest)
        | none => (Char.ofNat 0xfffd, rest)
      | _ => (Char.ofNat 0xfffd, rest)
    else if 0xdc00 ≤ n && n < 0xe000 then (Char.ofNat 0xfffd, rest)
    else (Char.ofNat n, rest)

/-- The characters of a string up to its closing quote, in reverse, and the rest. -/
def string? : Nat → List Char → List Char → Option (String × List Char)
  | 0, _, _ => none
  | _, _, [] => none
  | fuel + 1, seen, c :: cs =>
    if c.toNat == 34 then some (String.ofList seen.reverse, cs)
    else if c.toNat < 32 then none
    else if c.toNat == 92 then
      match cs with
      | 'u' :: more => (unicode? more).bind fun (d, rest) => string? fuel (d :: seen) rest
      | e :: more => (escape? e).bind fun d => string? fuel (d :: seen) more
      | [] => none
    else string? fuel (c :: seen) cs

/-- Digits after a marker character, if there are any; else nothing is taken. -/
def tail (marker : Char → Bool) (signed : Bool) : List Char → List Char × List Char
  | [] => ([], [])
  | c :: cs =>
    if marker c then
      let (mark, body) :=
        match cs with
        | s :: more => if signed && (s == '-' || s == '+') then ([s], more) else ([], cs)
        | [] => ([], [])
      let ds := body.takeWhile isAsciiDigit
      if ds.isEmpty then ([], c :: cs) else (c :: mark ++ ds, body.dropWhile isAsciiDigit)
    else ([], c :: cs)

def number? (cs : List Char) : Option (Document × List Char) :=
  let (negative, body) :=
    match cs with
    | '-' :: rest => (true, rest)
    | _ => (false, cs)
  let run := body.takeWhile isAsciiDigit
  let whole := if run.head? == some '0' then ['0'] else run
  if whole.isEmpty then none
  else
    let (fraction, afterFraction) := tail (· == '.') false (body.drop whole.length)
    let (exponent, rest) := tail (fun c => c == 'e' || c == 'E') true afterFraction
    if fraction.isEmpty && exponent.isEmpty then
      let n : Int := natOfDigits whole
      some (.int (if negative then -n else n), rest)
    else
      (Decimal.decimal? (whole ++ fraction ++ exponent)).map fun (m, k) =>
        (.real (Decimal.round negative m k), rest)

def scalar? (cs : List Char) : Option (Document × List Char) :=
  match word? "null".toList cs with
  | some rest => some (.null, rest)
  | none =>
    match word? "true".toList cs with
    | some rest => some (.bool true, rest)
    | none =>
      match word? "false".toList cs with
      | some rest => some (.bool false, rest)
      | none =>
        match word? "NaN".toList cs with
        | some rest => some (.real Binary.nan, rest)
        | none =>
          match word? "Infinity".toList cs with
          | some rest => some (.real (Binary.infinity false), rest)
          | none =>
            match word? "-Infinity".toList cs with
            | some rest => some (.real (Binary.infinity true), rest)
            | none => number? cs

mutual

def value? : Nat → List Char → Option (Document × List Char)
  | 0, _ => none
  | fuel + 1, cs =>
    match cs with
    | [] => none
    | c :: rest =>
      if c.toNat == 34 then (string? (rest.length + 1) [] rest).map fun (s, r) => (.text s, r)
      else if c == '[' then
        match rest.dropWhile isSpace with
        | ']' :: r => some (.list [], r)
        | r => (items? fuel [] r).map fun (ds, r) => (.list ds, r)
      else if c.toNat == 0x7b then
        let r := rest.dropWhile isSpace
        if r.head?.any (·.toNat == 0x7d) then some (.table [], r.drop 1)
        else (entries? fuel [] r).map fun (es, r) => (.table es, r)
      else scalar? cs

/-- The items of a list from one value on to the closing bracket. -/
def items? : Nat → List Document → List Char → Option (List Document × List Char)
  | 0, _, _ => none
  | fuel + 1, seen, cs =>
    match value? fuel cs with
    | none => none
    | some (d, r) =>
      match r.dropWhile isSpace with
      | ']' :: rest => some ((d :: seen).reverse, rest)
      | ',' :: rest => items? fuel (d :: seen) (rest.dropWhile isSpace)
      | _ => none

/-- The entries of a table from one key on to the closing brace. -/
def entries? : Nat → List (String × Document) → List Char →
    Option (List (String × Document) × List Char)
  | 0, _, _ => none
  | fuel + 1, seen, cs =>
    match cs with
    | [] => none
    | q :: body =>
      if q.toNat == 34 then
        match string? (body.length + 1) [] body with
        | none => none
        | some (key, afterKey) =>
          match afterKey.dropWhile isSpace with
          | ':' :: r =>
            match value? fuel (r.dropWhile isSpace) with
            | none => none
            | some (d, r) =>
              match r.dropWhile isSpace with
              | [] => none
              | c :: rest =>
                let entries := insert key d seen
                if c.toNat == 0x7d then some (entries, rest)
                else if c == ',' then entries? fuel entries (rest.dropWhile isSpace)
                else none
          | _ => none
      else none

end

/-- The document that a text writes. Nesting is bounded by the length of the text. -/
def read? (s : String) : Option Document :=
  let cs := s.toList
  match value? (cs.length + 1) (cs.dropWhile isSpace) with
  | some (d, rest) => if (rest.dropWhile isSpace).isEmpty then some d else none
  | none => none

end WideDeep.Document
