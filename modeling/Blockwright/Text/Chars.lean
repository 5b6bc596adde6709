/-!
# Splitting, joining and replacing

Small functions on lists of characters that the rest of the library writes its text with.
-/

namespace Blockwright.Text

/-- Texts one after the other with `sep` between neighbours. -/
def joinWith (sep : String) : List String → String
  | [] => ""
  | [s] => s
  | s :: t :: rest => s ++ sep ++ joinWith sep (t :: rest)

/-- The pieces between the occurrences of `sep`; there is always at least one. -/
def splitChars (sep : Char) : List Char → List (List Char)
  | [] => [[]]
  | c :: rest =>
    if c = sep then [] :: splitChars sep rest
    else
      match splitChars sep rest with
      | [] => [[c]]
      | piece :: pieces => (c :: piece) :: pieces

/-- The pieces of a text between the occurrences of `sep`. -/
def splitOn (sep : Char) (s : String) : List String :=
  (splitChars sep s.toList).map String.ofList

/-- Skips `skip` characters, then puts `put` in place of each occurrence of `find`, from the
left and without overlap. -/
def replaceAfter (find put : List Char) : Nat → List Char → List Char
  | _, [] => []
  | skip + 1, _ :: rest => replaceAfter find put skip rest
  | 0, c :: rest =>
    if find.isPrefixOf (c :: rest) then put ++ replaceAfter find put (find.length - 1) rest
    else c :: replaceAfter find put 0 rest

/-- Puts `put` in place of each occurrence of the non-empty text `find`. -/
def replaceAll (find put s : String) : String :=
  String.ofList (replaceAfter find.toList put.toList 0 s.toList)

/-- What follows `start`, for a list that begins with it. -/
def dropStart? (start cs : List Char) : Option (List Char) :=
  if start.isPrefixOf cs then some (cs.drop start.length) else none

/-- Whether `find` stands somewhere in the list. -/
def hasInfix (find : List Char) : List Char → Bool
  | [] => find.isEmpty
  | c :: rest => find.isPrefixOf (c :: rest) || hasInfix find rest

/-- A text written `n` times. -/
def repeated (n : Nat) (s : String) : String :=
  match n with
  | 0 => ""
  | n + 1 => s ++ repeated n s

/-- A decimal digit. -/
def isDigit (c : Char) : Bool := '0' ≤ c && c ≤ '9'

/-- A letter of the English alphabet. -/
def isLetter (c : Char) : Bool := ('a' ≤ c && c ≤ 'z') || ('A' ≤ c && c ≤ 'Z')

/-- A character of a plain word: a letter, a digit or the underscore. -/
def isWordChar (c : Char) : Bool := isLetter c || isDigit c || c == '_'

/-- A non-empty text of word characters. -/
def isWord (s : String) : Bool := !s.toList.isEmpty && s.toList.all isWordChar

/-- A number in decimal digits. -/
def ofNat (n : Nat) : String := String.ofList (Nat.toDigits 10 n)

/-- A whole number in decimal digits, with a minus sign when it is negative. -/
def ofInt (n : Int) : String :=
  if n < 0 then "-" ++ ofNat n.natAbs else ofNat n.natAbs

/-- The text of a truth value. -/
def ofBool (b : Bool) : String := if b then "true" else "false"

/-- The number that decimal digits spell. -/
def digitsValue (cs : List Char) : Nat := cs.foldl (fun n c => n * 10 + (c.toNat - 48)) 0

end Blockwright.Text
