import Blockwright.Kind.Registry
import Blockwright.Xml.Basic
/-!
# Toolboxes

The drawers of blocks that the editor offers, and the XML that it loads them from.
-/

namespace Blockwright.Kind

/-- A drawer of the toolbox. One with `custom` set is filled by the editor. -/
structure Category where
  name : String := ""
  custom : String := ""
  items : List String := []
  sub : List Category := []
deriving Repr, Inhabited

namespace Category

/-- The element of one block. -/
def itemElement (kind : String) : Xml.Element := .mk "block" [("type", kind)] []

mutual

/-- The element of a drawer. A drawer filled by the editor has nothing inside. -/
def toElement : Category → Xml.Element
  | ⟨name, custom, items, sub⟩ =>
    if custom = "" then .mk "category" [("name", name)] (items.map itemElement ++ toElements sub)
    else .mk "category" [("name", name), ("custom", custom)] []

/-- The elements of drawers. -/
def toElements : List Category → List Xml.Element
  | [] => []
  | c :: rest => toElement c :: toElements rest

end

mutual

/-- A drawer in JSON: its name, and what else is not empty. -/
def toJson : Category → Json
  | ⟨name, custom, items, sub⟩ =>
    .object ([("name", .str name)]
      ++ Json.textMember "custom" custom
      ++ (if items.isEmpty then [] else [("items", .strings items)])
      ++ (if sub.isEmpty then [] else [("sub", .array (toJsons sub))]))

/-- Drawers in JSON. -/
def toJsons : List Category → List Json
  | [] => []
  | c :: rest => toJson c :: toJsons rest

end

end Category

/-- The XML of a toolbox. -/
def toolboxXml (categories : List Category) : String :=
  (Xml.Element.mk "xml" [] (Category.toElements categories)).render

/-- The toolbox that is offered when none is asked for: a few standard kinds, the drawers the
editor fills, and every registered kind. -/
def defaultToolbox (r : Registry) : List Category := [
  { name := "Control", items := ["controls_if", "logic_compare", "controls_repeat_ext"] },
  { name := "Math", items := ["math_number", "math_arithmetic"] },
  { name := "Text", items := ["text", "text_print"] },
  { name := "Variables", custom := "VARIABLE" },
  { name := "Functions", custom := "PROCEDURE" },
  { name := "Custom", items := r.sorted.map (·.name) }]

end Blockwright.Kind
