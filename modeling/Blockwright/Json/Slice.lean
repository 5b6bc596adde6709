import Blockwright.Json.Parser
import Blockwright.Json.Reader
import Blockwright.Text.Utf8
/-!
# Slices of a document

The bytes of an object's members as they stand in the document. The document is known to be
JSON, so quotes, brackets and commas are all that has to be looked at.
-/

namespace Blockwright.Json

/-- An opening bracket or brace. -/
def isOpening (b : UInt8) : Bool := b == 0x5B || b == 0x7B

/-- A closing bracket or brace. -/
def isClosing (b : UInt8) : Bool := b == 0x5D || b == 0x7D

/-- Splits behind a value: at the comma or the bracket that does not belong to it. The first
argument counts open brackets, the second says whether the text starts inside a string. -/
def splitValue : Nat → Bool → Bytes → Bytes × Bytes
  | _, _, [] => ([], [])
  | depth, true, 0x5C :: b :: rest =>
    let (value, rest) := splitValue depth true rest
    (0x5C :: b :: value, rest)
  | depth, true, b :: rest =>
    let (value, rest) := splitValue depth (b != 0x22) rest
    (b :: value, rest)
  | depth, false, b :: rest =>
    if depth == 0 && (b == 0x2C || isClosing b) then ([], b :: rest)
    else
      let depth := if isOpening b then depth + 1 else if isClosing b then depth - 1 else depth
      let (value, rest) := splitValue depth (b == 0x22) rest
      (b :: value, rest)

/-- Splits behind a string whose opening quote has been read; the string keeps its closing
quote. -/
def splitString : Bytes → Bytes × Bytes
  | [] => ([], [])
  | 0x5C :: b :: rest =>
    let (text, rest) := splitString rest
    (0x5C :: b :: text, rest)
  | b :: rest =>
    if b == 0x22 then ([b], rest)
    else
      let (text, rest) := splitString rest
      (b :: text, rest)

/-- The text of a quoted name. -/
def nameOf (quoted : Bytes) : String :=
  match parse? quoted with
  | some (.str name) => name
  | _ => ""

/-- Bytes without white space at their end. -/
def trimEnd (bytes : Bytes) : Bytes := (bytes.reverse.dropWhile isSpace).reverse

/-- The members of an object behind its opening brace. A member takes a byte at least, so `fuel`
is enough when it is the length of the text. -/
def slicesFrom : Nat → Bytes → List (String × Bytes)
  | 0, _ => []
  | fuel + 1, bytes =>
    match bytes.dropWhile fun b => isSpace b || b == 0x2C with
    | 0x22 :: rest =>
      let (name, rest) := splitString rest
      let rest := rest.dropWhile fun b => isSpace b || b == 0x3A
      let (value, rest) := splitValue 0 false rest
      (nameOf (0x22 :: name), trimEnd value) :: slicesFrom fuel rest
    | _ => []

/-- The members of a document that is an object, each with the bytes of its value. -/
def slices (document : Bytes) : List (String × Bytes) :=
  match skipSpace document with
  | 0x7B :: rest => slicesFrom rest.length rest
  | _ => []

/-- The bytes of every member of a name, which is matched without regard to case, in the order
written. -/
def slicesOf (document : Bytes) (name : String) : List Bytes :=
  ((slices document).filter fun m => sameName m.1 name).map (·.2)

/-- The bytes of a member, whose name is matched without regard to case. The last of repeated
ones counts. -/
def slice? (document : Bytes) (name : String) : Option Bytes :=
  ((slices document).reverse.find? fun m => sameName m.1 name).map (·.2)

end Blockwright.Json
