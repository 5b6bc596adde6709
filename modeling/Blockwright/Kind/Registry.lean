import Blockwright.Kind.Definition
/-!
# The registry of custom kinds

Definitions by name. Names are unique and not empty.
-/

/-!
## The kinds that come with the library

The statement sockets of the standard kinds, and the definitions of the two custom kinds.
-/

namespace Blockwright.Kind

/-- The standard kinds that have statement sockets of fixed names, with those names. The kind
`controls_if` is in neither list, because its sockets grow with its branches. -/
def withStatements : List (String × List String) := [
  ("controls_ifelse", ["DO0", "ELSE"]),
  ("controls_repeat_ext", ["DO"]), ("controls_repeat", ["DO"]), ("controls_whileUntil", ["DO"]),
  ("controls_for", ["DO"]), ("controls_forEach", ["DO"]),
  ("procedures_defreturn", ["STACK"]), ("procedures_defnoreturn", ["STACK"])]

/-- The standard kinds that have value sockets only. -/
def valuesOnly : List String := [
  "logic_compare", "logic_operation", "logic_negate", "logic_boolean", "logic_null",
  "logic_ternary", "controls_flow_statements", "math_number", "math_arithmetic", "math_single",
  "math_round", "math_trig", "math_constant", "math_number_property", "math_change",
  "math_on_list", "math_modulo", "math_constrain", "math_random_int", "math_random_float",
  "math_atan2", "lists_create_empty", "lists_create_with", "lists_repeat", "lists_length",
  "lists_isEmpty", "lists_indexOf", "lists_getIndex", "lists_setIndex", "lists_getSublist",
  "lists_sort", "lists_split", "lists_reverse", "text", "text_multiline", "text_join",
  "text_append", "text_length", "text_isEmpty", "text_indexOf", "text_charAt",
  "text_getSubstring", "text_changeCase", "text_trim", "text_print", "text_prompt_ext",
  "text_prompt", "text_count", "text_replace", "text_reverse", "procedures_callreturn",
  "procedures_callnoreturn", "procedures_ifreturn", "variables_get", "variables_set",
  "variables_get_dynamic", "variables_set_dynamic", "colour_picker", "colour_random",
  "colour_rgb", "colour_blend"]

/-- Whether a socket of a standard kind takes statements; `none` for any other kind. -/
def standardStatement? (kind socket : String) : Option Bool :=
  match withStatements.lookup kind with
  | some names => some (names.contains socket)
  | none => if valuesOnly.contains kind then some false else none

/-- Counts the letters of a text. -/
def stringLength : Definition where
  name := "string_length"
  settings := [
    .colour 160,
    .tooltip "Returns number of letters in the provided text.",
    .helpUrl "http://www.w3schools.com/jsref/jsref_length_string.asp"]
  values := [{ id := "VALUE", check := "String", labels := ["length of"] }]
  output := some "Number"

/-- Runs its body at least once, then again while its condition holds. -/
def repeatWhile : Definition where
  name := "repeat_while"
  settings := [
    .statement, .colour 120, .tooltip "Run the body, then repeat while the condition is true."]
  values := [{ id := "COND", check := "Boolean", labels := ["while"] }]
  statements := [{ id := "BODY" }]

end Blockwright.Kind

/-! ## Registered kinds -/

namespace Blockwright.Kind

/-- The registered definitions, in the order of registration. -/
structure Registry where
  definitions : List Definition := []
deriving DecidableEq, Repr

/-- A name that cannot be registered: it is taken, or empty. -/
structure DuplicateDefinition where
  name : String
deriving DecidableEq, Repr

/-- The message about a name that cannot be registered. -/
def DuplicateDefinition.message (e : DuplicateDefinition) : String :=
  "block definition already registered: " ++ (if e.name = "" then "empty name" else e.name)

namespace Registry

/-- The definition of a name. -/
def lookup? (r : Registry) (name : String) : Option Definition :=
  r.definitions.find? fun d => d.name = name

/-- Adds a definition whose name is neither empty nor taken. -/
def register (r : Registry) (d : Definition) : Except DuplicateDefinition Registry :=
  if d.name = "" || (r.lookup? d.name).isSome then .error ⟨d.name⟩
  else .ok { definitions := r.definitions ++ [d] }

/-- The definitions in the order of their names. -/
def sorted (r : Registry) : List Definition :=
  r.definitions.mergeSort fun a b => a.name ≤ b.name

/-- Whether a socket of a kind takes statements. Registered definitions are asked first, then
the standard kinds; `none` for a kind that neither has. -/
def classify (r : Registry) (kind socket : String) : Option Bool :=
  match r.lookup? kind with
  | some d => some (d.takesStatements socket)
  | none => standardStatement? kind socket

/-- The two custom kinds of the library. -/
def standard : Registry := { definitions := [stringLength, repeatWhile] }

end Registry
end Blockwright.Kind
