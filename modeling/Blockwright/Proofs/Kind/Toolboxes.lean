import Blockwright.Kind.Toolbox
import Blockwright.Proofs.Xml.Rendering
/-!
# What a toolbox keeps

The XML of a toolbox says everything about its drawers except what is inside those that the editor
fills. So two toolboxes are written alike exactly when they are the same once that is left out.
-/

namespace Blockwright.Kind.Category

open Xml

/-! ## Drawers without what the editor fills -/

mutual

/-- A drawer with nothing in it if the editor fills it, and the same of the drawers inside. -/
def normal : Category → Category
  | ⟨name, custom, items, sub⟩ => if custom = "" then ⟨name, "", items, normals sub⟩ else ⟨name, custom, [], []⟩

/-- Drawers without what the editor fills. -/
def normals : List Category → List Category
  | [] => []
  | c :: rest => normal c :: normals rest

end

mutual

/-- A drawer whose texts, at every depth, are made of characters that a document may hold. -/
def isLegal : Category → Bool
  | ⟨name, custom, items, sub⟩ =>
    isAllowedText name && isAllowedText custom && items.all isAllowedText && areLegal sub

/-- Drawers that are all legal. -/
def areLegal : List Category → Bool
  | [] => true
  | c :: rest => isLegal c && areLegal rest

end

mutual

/-- What the editor fills is not written. -/
theorem toElement_normal (c : Category) : toElement (normal c) = toElement c := by
  match c with
  | ⟨name, custom, items, sub⟩ =>
    by_cases hcustom : custom = ""
    · simp [normal, toElement, hcustom, toElements_normals sub]
    · simp [normal, toElement, hcustom]

theorem toElements_normals (cs : List Category) : toElements (normals cs) = toElements cs := by
  match cs with
  | [] => rfl
  | c :: rest => rw [normals, toElements, toElements, toElement_normal c, toElements_normals rest]

end

/-! ## Drawers as elements -/

theorem areAllWritable_items {items : List String} (h : items.all isAllowedText = true) :
    areAllWritable (items.map itemElement) = true := by
  induction items with
  | nil => rfl
  | cons item rest ih =>
    rw [List.all_cons, Bool.and_eq_true] at h
    have htype : isLabel "type" = true := by decide
    have hblock : isLabel "block" = true := by decide
    simp [areAllWritable, itemElement, Element.isWritable, areWritable, htype, h.1, ih h.2, hblock]

mutual

/-- The element of a legal drawer can be written. -/
theorem isWritable_toElement {c : Category} (h : isLegal c = true) : (toElement c).isWritable = true := by
  match c with
  | ⟨name, custom, items, sub⟩ =>
    simp only [isLegal, Bool.and_eq_true] at h
    have hnames : isLabel "category" = true ∧ isLabel "name" = true ∧ isLabel "custom" = true := by decide
    unfold toElement
    split
    · simp [Element.isWritable, areWritable, hnames, h.1.1.1, areAllWritable_items h.1.2, areAllWritable_toElements h.2]
    · simp [Element.isWritable, areWritable, hnames, h.1.1.1, h.1.1.2, areAllWritable]

theorem areAllWritable_toElements {cs : List Category} (h : areLegal cs = true) : areAllWritable (toElements cs) = true := by
  match cs with
  | [] => rfl
  | c :: rest =>
    simp only [areLegal, Bool.and_eq_true] at h
    simp [toElements, areAllWritable, isWritable_toElement h.1, areAllWritable_toElements h.2]

end

theorem itemElement_injective : Function.Injective itemElement := by
  intro item item' h
  simpa [itemElement] using h

theorem name_toElement (c : Category) : (toElement c).name = "category" := by
  obtain ⟨name, custom, items, sub⟩ := c
  unfold toElement
  split <;> rfl

/-- Inside a drawer the items stand before the drawers, and no item looks like a drawer. -/
theorem inside_inj {items items' : List String} {sub sub' : List Category}
    (h : items.map itemElement ++ toElements sub = items'.map itemElement ++ toElements sub') :
    items = items' ∧ toElements sub = toElements sub' := by
  have hother : ∀ (item : String) (es : List Element) (sub : List Category), itemElement item :: es ≠ toElements sub := by
    intro item es sub heq
    cases sub with
    | nil => cases heq
    | cons c rest =>
      have hname : "block" = (toElement c).name := congrArg Element.name (List.cons.inj heq).1
      rw [name_toElement] at hname
      exact absurd hname (by decide)
  induction items generalizing items' with
  | nil =>
    cases items' with
    | nil => exact ⟨rfl, h⟩
    | cons item' rest' => exact absurd h.symm (hother _ _ _)
  | cons item rest ih =>
    cases items' with
    | nil => exact absurd h (hother _ _ _)
    | cons item' rest' =>
      obtain ⟨hitem, htail⟩ := List.cons.inj h
      obtain ⟨rfl, hsub⟩ := ih htail
      exact ⟨congrArg (· :: rest) (itemElement_injective hitem), hsub⟩

mutual

/-- Drawers with the same element differ only in what the editor fills. -/
theorem normal_eq_of_toElement_eq {c c' : Category} (h : toElement c = toElement c') : normal c = normal c' := by
  match c, c' with
  | ⟨name, custom, items, sub⟩, ⟨name', custom', items', sub'⟩ =>
    unfold toElement at h
    unfold normal
    split at h <;> split at h
    · rename_i hcustom hcustom'
      obtain ⟨-, hattributes, hinside⟩ := Element.mk.inj h
      obtain ⟨hitems, hsub⟩ := inside_inj hinside
      have hname : name = name' := by simpa using hattributes
      rw [if_pos hcustom, if_pos hcustom', hname, hitems, normals_eq_of_toElements_eq hsub]
    · simp at h
    · simp at h
    · rename_i hcustom hcustom'
      have hboth : name = name' ∧ custom = custom' := by simpa using h
      rw [if_neg hcustom, if_neg hcustom', hboth.1, hboth.2]

theorem normals_eq_of_toElements_eq {cs cs' : List Category} (h : toElements cs = toElements cs') :
    normals cs = normals cs' := by
  match cs, cs' with
  | [], [] => rfl
  | [], _ :: _ => cases h
  | _ :: _, [] => cases h
  | c :: rest, c' :: rest' =>
    obtain ⟨hfirst, hrest⟩ := List.cons.inj h
    rw [normals, normals, normal_eq_of_toElement_eq hfirst, normals_eq_of_toElements_eq hrest]

end

theorem toElements_eq_iff {cs cs' : List Category} : toElements cs = toElements cs' ↔ normals cs = normals cs' := by
  constructor
  · exact normals_eq_of_toElements_eq
  · intro h
    rw [← toElements_normals cs, h, toElements_normals]

end Blockwright.Kind.Category

namespace Blockwright.Kind

open Blockwright.Kind.Category

/-! ## Toolboxes -/

theorem isWritable_toolbox {cs : List Category} (h : areLegal cs = true) :
    (Xml.Element.mk "xml" [] (toElements cs)).isWritable = true := by
  have hname : Xml.isLabel "xml" = true := by decide
  simp [Xml.Element.isWritable, Xml.areWritable, hname, areAllWritable_toElements h]

/-- Two toolboxes are written alike exactly when they are the same without what the editor fills. -/
theorem toolboxXml_eq_iff {cs cs' : List Category} (h : areLegal cs = true) (h' : areLegal cs' = true) :
    toolboxXml cs = toolboxXml cs' ↔ normals cs = normals cs' := by
  rw [← toElements_eq_iff]
  constructor
  · intro heq
    exact (Xml.Element.mk.inj (Xml.Element.render_inj (isWritable_toolbox h) (isWritable_toolbox h') heq)).2.2
  · intro heq
    rw [toolboxXml, toolboxXml, heq]

/-- The items of a drawer that the editor fills are lost, and an item is not taken for a drawer of its name. -/
theorem toolboxXml_lists :
    toolboxXml [{ name := "Variables", custom := "VARIABLE", items := ["text"] }] =
      toolboxXml [{ name := "Variables", custom := "VARIABLE" }] ∧
    toolboxXml [{ name := "\"A\"><", items := ["text"] }] ≠ toolboxXml [{ name := "\"A\"><", sub := [{ name := "text" }] }] := by
  refine ⟨(toolboxXml_eq_iff (by decide) (by decide)).2 (by simp [normals, normal]), fun h => ?_⟩
  have hsame := (toolboxXml_eq_iff (by decide) (by decide)).1 h
  simp [normals, normal] at hsame

end Blockwright.Kind
