import Blockwright.Text.Chars
/-!
# XML elements

Elements with their attributes and children, and the way attributes are written.
-/

namespace Blockwright.Xml

/-- An element: its name without a namespace mark, its attributes in the order written, and the
elements inside it. Text is not kept. -/
inductive Element where
  | mk (name : String) (attributes : List (String × String)) (children : List Element)

namespace Element

/-- The name of an element. -/
def name : Element → String
  | .mk n _ _ => n

/-- The attributes of an element. -/
def attributes : Element → List (String × String)
  | .mk _ as _ => as

/-- The elements inside an element. -/
def children : Element → List Element
  | .mk _ _ cs => cs

/-- The value of an attribute, empty when absent; the last of repeated ones counts. -/
def valueOf (e : Element) (name : String) : String :=
  ((e.attributes.reverse.lookup name)).getD ""

end Element

/-- A character that a document may hold. -/
def isAllowed (c : Char) : Bool :=
  c == '\t' || c == '\n' || c == '\r' || (' ' ≤ c && c ≤ '\uD7FF') || ('\uE000' ≤ c && c ≤ '\uFFFD')
    || Char.ofNat 0x10000 ≤ c

/-- The characters that stand for one character of an attribute. -/
def escapeChar (c : Char) : List Char :=
  if c = '"' then "&#34;".toList
  else if c = '\'' then "&#39;".toList
  else if c = '&' then "&amp;".toList
  else if c = '<' then "&lt;".toList
  else if c = '>' then "&gt;".toList
  else if c = '\t' then "&#x9;".toList
  else if c = '\n' then "&#xA;".toList
  else if c = '\r' then "&#xD;".toList
  else if isAllowed c then [c]
  else ['\uFFFD']

/-- A text as it stands in an attribute. -/
def escape (s : String) : String := String.ofList (s.toList.flatMap escapeChar)

mutual

/-- The text of an element; an empty one has an end tag too. -/
def Element.render : Element → String
  | .mk name attributes children =>
    "<" ++ name ++ renderAttributes attributes ++ ">" ++ renderAll children ++ "</" ++ name ++ ">"

/-- Elements one after the other. -/
def renderAll : List Element → String
  | [] => ""
  | e :: rest => e.render ++ renderAll rest

/-- Attributes, each with a space in front. -/
def renderAttributes : List (String × String) → String
  | [] => ""
  | (name, value) :: rest => " " ++ name ++ "=\"" ++ escape value ++ "\"" ++ renderAttributes rest

end

end Blockwright.Xml
