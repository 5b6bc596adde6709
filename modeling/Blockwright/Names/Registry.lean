import Std.Data.HashMap
import Std.Data.HashSet
import Blockwright.Names.Reserved
import Blockwright.Text.Blank
import Blockwright.Text.Chars
import Blockwright.Text.Raw
/-!
# The name registry

Hands out identifiers for generated code. A key has one name for the whole pass, no two keys
share one, and no name is a reserved word. Keys are the same only when their bytes are.
-/

/-!
## Identifiers made from any text

Every byte of a name becomes characters that an identifier may hold, so that any text, and any
bytes, give a legal identifier.
-/

namespace Blockwright.Identifier

/-- Punctuation that turns into a plain underscore. -/
def softened : List Char := ";,/?:@&=+$-.!~*'()#".toList

/-- The characters that stand for one byte. -/
def ofByte (b : UInt8) : List Char :=
  let c := Char.ofNat b.toNat
  if b < 0x80 && Text.isWordChar c then [c]
  else if c == ' ' then ['_']
  else if b < 0x80 && softened.contains c then ['_']
  else ['_', Text.upperHexDigit (b.toNat / 16), Text.upperHexDigit (b.toNat % 16)]

/-- The identifier of a byte string: `unnamed` for the empty one, and `my_` in front of a
digit. -/
def ofBytes (bytes : Bytes) : List Char :=
  let cs := bytes.flatMap ofByte
  match cs with
  | [] => "unnamed".toList
  | c :: _ => if Text.isDigit c then "my_".toList ++ cs else cs

/-- The identifier of a text. -/
def ofText (t : RawText) : String := String.ofList (ofBytes t.bytes)

end Blockwright.Identifier

/-! ## Keys and names -/

namespace Blockwright

/-- What a name stands for. The same key in two categories has two names. -/
inductive Category where
  | variable
  | procedure
  | developerVariable
deriving DecidableEq, Repr

namespace Category

/-- The text of a category, in keys and in messages. -/
def text : Category → String
  | .variable => "VARIABLE"
  | .procedure => "PROCEDURE"
  | .developerVariable => "DEVELOPER_VARIABLE"

end Category

/-- No suffix was left to make an identifier distinct. -/
structure Exhausted where
  /-- The identifier all of whose suffixes are taken. -/
  base : String
  /-- What it was asked for. -/
  category : Category
deriving DecidableEq, Repr

/-- The message of a failed request for a name. -/
def Exhausted.message (e : Exhausted) : String :=
  "no distinct name available: " ++ Text.escaped e.base ++ " (" ++ e.category.text ++ ")"

/-- The names of one pass. -/
structure Names where
  /-- Words that are never handed out. -/
  reserved : Std.HashSet String := {}
  /-- The name of each key, under the key and its category. -/
  known : Std.HashMap RawText String := {}
  /-- The names handed out. -/
  used : Std.HashSet String := {}
  /-- The name of each variable id; the first entry of an id counts. -/
  idNames : List (RawText × String) := []
  /-- The first request that failed. -/
  failure : Option Exhausted := none

namespace Names

/-- The greatest suffix that is tried. -/
def maxSuffix : Nat := 65536

/-- Adds a reserved word, without the white space around it; blank words are skipped. -/
def reserveWord (n : Names) (word : String) : Names :=
  let w := Text.trim word
  if w = "" then n else { n with reserved := n.reserved.insert w }

/-- Adds reserved words. -/
def reserve (n : Names) (words : List String) : Names := words.foldl reserveWord n

/-- A registry that refuses the given words. -/
def new (words : List String) : Names := ({} : Names).reserve words

/-- Whether a word is reserved. -/
def isReserved (n : Names) (word : String) : Bool := n.reserved.contains word

/-- Forgets every name, the variables and the failure; reserved words stay. -/
def reset (n : Names) : Names := { reserved := n.reserved }

/-- Whether a name cannot be handed out. -/
def taken (n : Names) (name : String) : Bool := n.used.contains name || n.isReserved name

/-- The first free one of `base ++ i`, `base ++ (i + 1)`, … over `tries` numbers. -/
def freeSuffix? (n : Names) (base : String) : Nat → Nat → Option String
  | 0, _ => none
  | tries + 1, i =>
    let name := base ++ Text.ofNat i
    if n.taken name then n.freeSuffix? base tries (i + 1) else some name

/-- The first free one of `base`, `base2`, …, `base65536`. -/
def free? (n : Names) (base : String) : Option String :=
  if n.taken base then n.freeSuffix? base (maxSuffix - 1) 2 else some base

/-- Hands out a fresh name made from an identifier; the empty text when none is left. -/
def distinctFrom (n : Names) (base : String) (category : Category) : String × Names :=
  match n.free? base with
  | some name => (name, { n with used := n.used.insert name })
  | none => ("", { n with failure := n.failure.or (some ⟨base, category⟩) })

/-- Hands out a fresh name made from a seed. -/
def distinct (n : Names) (seed : RawText) (category : Category) : String × Names :=
  n.distinctFrom (Identifier.ofText seed) category

/-- A variable key that is a known id stands for the variable's name. -/
def resolve (n : Names) (key : RawText) (category : Category) : RawText :=
  if category = .variable then ((n.idNames.lookup key).map .ofString).getD key else key

/-- Where the name of a key is kept. -/
def slot (key : RawText) (category : Category) : RawText := key ++ .ofString ("_" ++ category.text)

/-- The name of a key, made on first use. -/
def get (n : Names) (key : RawText) (category : Category) : String × Names :=
  let key := n.resolve key category
  match n.known[slot key category]? with
  | some name => (name, n)
  | none =>
    let (name, n) := n.distinct key category
    if name = "" then (name, n) else (name, { n with known := n.known.insert (slot key category) name })

end Names
end Blockwright
