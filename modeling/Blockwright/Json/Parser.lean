import Blockwright.Json.Basic
import Blockwright.Text.Encoding
/-!
# Reading JSON

The grammar of JSON over the bytes of a document. Only strings hold bytes past the first 128:
what is no character there becomes U+FFFD, and so does an escaped surrogate without its partner.
Nesting is limited to ten thousand levels.
-/

namespace Blockwright.Json

/-- The deepest nesting of arrays and objects. -/
def maxDepth : Nat := 10000

/-- White space between tokens. -/
def isSpace (b : UInt8) : Bool := b == 0x20 || b == 0x09 || b == 0x0A || b == 0x0D

/-- Skips white space. -/
def skipSpace (bytes : Bytes) : Bytes := bytes.dropWhile isSpace

/-! ## Strings -/

/-- The first half of a pair of surrogates. -/
def isHighSurrogate (n : Nat) : Bool := 0xD800 ≤ n && n < 0xDC00

/-- The second half of a pair of surrogates. -/
def isLowSurrogate (n : Nat) : Bool := 0xDC00 ≤ n && n < 0xE000

/-- The character of a pair of surrogates. -/
def surrogatePair (high low : Nat) : Char :=
  Char.ofNat ((high - 0xD800) * 0x400 + (low - 0xDC00) + 0x10000)

/-- The character of one escaped code; a surrogate alone is U+FFFD. -/
def codeChar (n : Nat) : Char :=
  if isHighSurrogate n || isLowSurrogate n then '\uFFFD' else Char.ofNat n

/-- The character of a one-letter escape. -/
def escapeOf? (c : Char) : Option Char :=
  if c = '"' || c = '\\' || c = '/' then some c
  else if c = 'b' then some '\x08'
  else if c = 'f' then some '\x0c'
  else if c = 'n' then some '\n'
  else if c = 'r' then some '\r'
  else if c = 't' then some '\t'
  else none

/-- Splits a string behind its opening quote: what stands before its closing quote, and what
follows that. A byte behind a backslash belongs to an escape; control bytes are refused. -/
def splitQuoted? : Bytes → Option (Bytes × Bytes)
  | 0x5C :: b :: rest => (splitQuoted? rest).map fun (body, rest) => (0x5C :: b :: body, rest)
  | b :: rest =>
    if b == 0x22 then some ([], rest)
    else if b < 0x20 then none
    else (splitQuoted? rest).map fun (body, rest) => (b :: body, rest)
  | [] => none

/-- Resolves the escapes of a string. The first argument is the high surrogate that was just
read, if any. -/
def unescape? : Option Nat → List Char → Option (List Char)
  | pending, '\\' :: 'u' :: a :: b :: c :: d :: rest => do
    let n ← Text.hexNumber? [a, b, c, d]
    match pending with
    | some high =>
      if isLowSurrogate n then return surrogatePair high n :: (← unescape? none rest)
      else if isHighSurrogate n then return '\uFFFD' :: (← unescape? (some n) rest)
      else return '\uFFFD' :: codeChar n :: (← unescape? none rest)
    | none =>
      if isHighSurrogate n then unescape? (some n) rest
      else return codeChar n :: (← unescape? none rest)
  | pending, '\\' :: e :: rest => do
    let c ← escapeOf? e
    return pending.toList.map (fun _ => '\uFFFD') ++ c :: (← unescape? none rest)
  | pending, c :: rest => do
    if c = '\\' then none
    else return pending.toList.map (fun _ => '\uFFFD') ++ c :: (← unescape? none rest)
  | pending, [] => some (pending.toList.map fun _ => '\uFFFD')

/-- Reads a string behind its opening quote, and gives what follows its closing quote. -/
def string? (bytes : Bytes) : Option (String × Bytes) := do
  let (body, rest) ← splitQuoted? bytes
  let text ← unescape? none (Text.decodeLossy body)
  return (String.ofList text, rest)

/-! ## Numbers -/

/-- A decimal digit. -/
def isDigit (b : UInt8) : Bool := 0x30 ≤ b && b ≤ 0x39

/-- Digits at the front, of which there must be one. -/
def digits? (bytes : Bytes) : Option (Bytes × Bytes) :=
  match bytes.takeWhile isDigit with
  | [] => none
  | ds => some (ds, bytes.dropWhile isDigit)

/-- The whole part of a number: zero, or digits that do not start with zero. -/
def whole? : Bytes → Option (Bytes × Bytes)
  | 0x30 :: rest => some ([0x30], rest)
  | bytes => digits? bytes

/-- The part of a number behind its point, if there is a point. -/
def fraction? : Bytes → Option (Bytes × Bytes)
  | 0x2E :: rest => (digits? rest).map fun (ds, rest) => (0x2E :: ds, rest)
  | bytes => some ([], bytes)

/-- The exponent of a number, if there is one. -/
def exponent? : Bytes → Option (Bytes × Bytes)
  | e :: rest =>
    if e == 0x65 || e == 0x45 then
      match rest with
      | 0x2B :: rest => (digits? rest).map fun (ds, rest) => (e :: 0x2B :: ds, rest)
      | 0x2D :: rest => (digits? rest).map fun (ds, rest) => (e :: 0x2D :: ds, rest)
      | rest => (digits? rest).map fun (ds, rest) => (e :: ds, rest)
    else some ([], e :: rest)
  | [] => some ([], [])

/-- The text of a number and what follows it. -/
def number? (bytes : Bytes) : Option (String × Bytes) := do
  let (sign, rest) := if bytes.head? = some 0x2D then ([0x2D], bytes.tail) else ([], bytes)
  let (whole, rest) ← whole? rest
  let (frac, rest) ← fraction? rest
  let (exp, rest) ← exponent? rest
  return (Text.ofBytes (sign ++ whole ++ frac ++ exp), rest)

/-! ## Values -/

/-- What stands between a place of a document and a later one. -/
def sourceBetween (start rest : Bytes) : RawText := ⟨start.take (start.length - rest.length)⟩

mutual

/-- Reads one value that starts at the first byte: `null`, `true`, `false`, a string, an array,
an object or a number. `room` counts the levels of nesting that are still allowed; `fuel` bounds
the number of steps. -/
def value? (room : Nat) : Nat → Bytes → Option (Json × Bytes)
  | 0, _ => none
  | fuel + 1, bytes =>
    match bytes with
    | 0x6E :: 0x75 :: 0x6C :: 0x6C :: rest => some (.null, rest)
    | 0x74 :: 0x72 :: 0x75 :: 0x65 :: rest => some (.bool true, rest)
    | 0x66 :: 0x61 :: 0x6C :: 0x73 :: 0x65 :: rest => some (.bool false, rest)
    | 0x22 :: rest => (string? rest).map fun (s, rest) => (.str s, rest)
    | 0x5B :: rest =>
      match room with
      | 0 => none
      | room + 1 =>
        match skipSpace rest with
        | 0x5D :: rest => some (.arr (sourceBetween bytes rest) [], rest)
        | rest => (items? room fuel rest).map fun (items, rest) =>
          (.arr (sourceBetween bytes rest) items, rest)
    | 0x7B :: rest =>
      match room with
      | 0 => none
      | room + 1 =>
        match skipSpace rest with
        | 0x7D :: rest => some (.object [], rest)
        | rest => (members? room fuel rest).map fun (members, rest) => (.object members, rest)
    | bytes => (number? bytes).map fun (text, rest) => (.num text, rest)

/-- Reads the items of an array up to its closing bracket. -/
def items? (room : Nat) : Nat → Bytes → Option (List Json × Bytes)
  | 0, _ => none
  | fuel + 1, bytes => do
    let (item, rest) ← value? room fuel bytes
    match skipSpace rest with
    | 0x2C :: rest =>
      let (items, rest) ← items? room fuel (skipSpace rest)
      return (item :: items, rest)
    | 0x5D :: rest => return ([item], rest)
    | _ => none

/-- Reads the members of an object up to its closing brace. -/
def members? (room : Nat) : Nat → Bytes → Option (List (String × Json) × Bytes)
  | 0, _ => none
  | fuel + 1, bytes =>
    match bytes with
    | 0x22 :: rest => do
      let (name, rest) ← string? rest
      match skipSpace rest with
      | 0x3A :: rest =>
        let (item, rest) ← value? room fuel (skipSpace rest)
        match skipSpace rest with
        | 0x2C :: rest =>
          let (members, rest) ← members? room fuel (skipSpace rest)
          return ((name, item) :: members, rest)
        | 0x7D :: rest => return ([(name, item)], rest)
        | _ => none
      | _ => none
    | _ => none

end

/-- Reads the value at the front of a document; what follows it is left. -/
def parseFront? (document : Bytes) : Option (Json × Bytes) :=
  value? maxDepth (2 * document.length + 2) (skipSpace document)

/-- Reads a document that holds one value and nothing else. -/
def parse? (document : Bytes) : Option Json := do
  let (value, rest) ← parseFront? document
  if (skipSpace rest).isEmpty then some value else none

end Blockwright.Json
