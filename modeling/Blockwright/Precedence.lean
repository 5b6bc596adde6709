import Blockwright.Number.Decimal
/-!
# Operator precedence

Every expression has the precedence of its outermost operator, and every place that takes an
expression asks for one. Lower levels bind tighter, and levels with the same whole part are of
one class. An expression is put in parentheses when its class is not tighter than the place
allows, a few pairs excepted.
-/

namespace Blockwright

/-- A level of precedence. -/
abbrev Order := Decimal

namespace Order

/-- Literals, names and what stands in brackets. -/
def atomic : Order := ⟨0, 0⟩
/-- Member access. -/
def member : Order := ⟨12, 1⟩
/-- Calls. -/
def functionCall : Order := ⟨2, 0⟩
/-- The sign of a number. -/
def unaryNegation : Order := ⟨43, 1⟩
/-- Logical not. -/
def logicalNot : Order := ⟨44, 1⟩
/-- Products. -/
def multiplication : Order := ⟨51, 1⟩
/-- Quotients. -/
def division : Order := ⟨52, 1⟩
/-- Remainders. -/
def modulus : Order := ⟨53, 1⟩
/-- Differences. -/
def subtraction : Order := ⟨61, 1⟩
/-- Sums. -/
def addition : Order := ⟨62, 1⟩
/-- Comparisons of size. -/
def relational : Order := ⟨8, 0⟩
/-- Comparisons for equality. -/
def equality : Order := ⟨9, 0⟩
/-- Logical and. -/
def logicalAnd : Order := ⟨13, 0⟩
/-- Logical or. -/
def logicalOr : Order := ⟨14, 0⟩
/-- The choice between two values. -/
def conditional : Order := ⟨15, 0⟩
/-- Assignments. -/
def assignment : Order := ⟨16, 0⟩
/-- Lists of expressions. -/
def comma : Order := ⟨18, 0⟩
/-- A place that takes any expression. -/
def none : Order := ⟨99, 0⟩

/-- The class of a level. -/
def classOf (o : Order) : Int := o.floor

/-- The pairs of a place and an expression that need no parentheses although they are of one
class: chains of access and calls, doubled negation, and operators that can be regrouped. -/
def overrides : List (Order × Order) := [
  (functionCall, member), (functionCall, functionCall), (member, member),
  (member, functionCall), (logicalNot, logicalNot), (multiplication, multiplication),
  (addition, addition), (logicalAnd, logicalAnd), (logicalOr, logicalOr)]

/-- Whether a pair is one of the exceptions. -/
def isOverride (outer inner : Order) : Bool := overrides.contains (outer, inner)

/-- Whether an expression of level `inner` needs parentheses in a place of level `outer`. -/
def needsParens (outer inner : Order) : Bool :=
  let oc := classOf outer
  let ic := classOf inner
  if ic < oc then false
  else if oc = ic && (oc = classOf atomic || oc = classOf none) then false
  else !isOverride outer inner

/-- Puts code in parentheses where its place needs them. -/
def wrap (code : String) (outer inner : Order) : String :=
  if needsParens outer inner then "(" ++ code ++ ")" else code

end Order
end Blockwright
