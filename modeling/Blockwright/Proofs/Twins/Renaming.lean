import Mathlib.Data.List.Find
import Blockwright.Emit.Procedures
import Blockwright.Proofs.Program.Declared
import Blockwright.Proofs.Text.Utf8
import Blockwright.Proofs.Twins.Program
import Blockwright.Proofs.Workspace.Mapped
/-!
# Ids and places do not matter

A program without a loop trap does not depend on the ids of variables and blocks, nor on where its
blocks lie. The ids of variables are only keys, for names and for telling used variables apart, so a
renaming that keeps them apart gives the same names to the same variables. They are renamed wherever they
stand: in the list of variables, in fields and in the parameters of procedures.
-/

namespace Blockwright

/-! ## Renaming -/

/-- A field with the id that it holds renamed. -/
def Field.renamed (ρ : String → String) (f : Field) : Field :=
  if f.isVariable then { f with value := .ofString (ρ f.value.text) } else f

/-- A parameter with its id renamed, if it has one. -/
def Param.renamed (ρ : String → String) (p : Param) : Param := if p.id = "" then p else { p with id := ρ p.id }

/-- A variable with its id renamed. -/
def Variable.renamed (ρ : String → String) (v : Variable) : Variable := { v with id := ρ v.id }

/-- A head with the ids of variables renamed. -/
def Head.renamed (ρ : String → String) (h : Head) : Head := { h with
  fields := h.fields.map (Field.renamed ρ)
  extra := { h.extra with params := h.extra.params.map (Param.renamed ρ) } }

/-- A head without its id and its place. -/
def Head.anonymous (h : Head) : Head := { h with id := "", x := Double.zero, y := Double.zero }

namespace Workspace

/-- A workspace with the ids of its variables renamed. -/
def renamed (ρ : String → String) (ws : Workspace) : Workspace :=
  { ws.mapHead (Head.renamed ρ) with vars := ws.vars.map (Variable.renamed ρ) }

/-- A workspace without the ids and places of its blocks. -/
def anonymous (ws : Workspace) : Workspace := ws.mapHead Head.anonymous

/-- The variables have ids, no id is the name of a parameter, and references are sound: they stand in
the fields `VAR`, every such field is one and refers to a listed variable, and so does every parameter
with an id. -/
structure Referring (ws : Workspace) : Prop where
  ids : ∀ v ∈ ws.vars, v.id ≠ ""
  apart : ∀ v ∈ ws.vars, ∀ b ∈ ws.blocks, ∀ p ∈ b.head.extra.params, v.id ≠ p.name
  only : ∀ b ∈ ws.blocks, ∀ f ∈ b.head.fields, f.isVariable = true → f.name = "VAR"
  listed : ∀ b ∈ ws.blocks, ∀ f ∈ b.head.fields, f.name = "VAR" →
    f.isVariable = true ∧ ∃ v ∈ ws.vars, f.value = .ofString v.id
  params : ∀ b ∈ ws.blocks, ∀ p ∈ b.head.extra.params, p.id = "" ∨ ∃ v ∈ ws.vars, v.id = p.id

/-- The renaming keeps the ids of the variables apart, from each other and from the names of
parameters. -/
structure Renaming (ws : Workspace) (ρ : String → String) : Prop where
  injective : ∀ v ∈ ws.vars, ∀ w ∈ ws.vars, ρ v.id = ρ w.id → v.id = w.id
  ids : ∀ v ∈ ws.vars, ρ v.id ≠ ""
  apart : ∀ v ∈ ws.vars, ∀ b ∈ ws.blocks, ∀ p ∈ b.head.extra.params, ρ v.id ≠ p.name

variable {ws : Workspace} {ρ : String → String}

/-! ## Lookups -/

theorem find?_renamed {test test' : Variable → Bool} (h : ∀ v ∈ ws.vars, test' (v.renamed ρ) = test v) :
    (ws.renamed ρ).vars.find? test' = (ws.vars.find? test).map (Variable.renamed ρ) := by
  have hvars : (ws.renamed ρ).vars = ws.vars.map (Variable.renamed ρ) := rfl
  rw [hvars, List.find?_map]
  exact congrArg (Option.map _) (List.find?_congr h)

theorem variableByName?_renamed (name : String) :
    (ws.renamed ρ).variableByName? name = (ws.variableByName? name).map (Variable.renamed ρ) :=
  find?_renamed fun _ _ => rfl

theorem variableById?_renamed (hρ : ws.Renaming ρ) {v : Variable} (hv : v ∈ ws.vars) :
    (ws.renamed ρ).variableById? (ρ v.id) = (ws.variableById? v.id).map (Variable.renamed ρ) :=
  find?_renamed fun w hw => by
    have hsame : ρ w.id = ρ v.id ↔ w.id = v.id := ⟨hρ.injective w hw v hv, congrArg ρ⟩
    exact decide_eq_decide.2 hsame

theorem variableById?_of_mem {v : Variable} (hv : v ∈ ws.vars) :
    ∃ w ∈ ws.vars, w.id = v.id ∧ ws.variableById? v.id = some w := by
  cases hfound : ws.variableById? v.id with
  | none => exact absurd (List.find?_eq_none.1 hfound v hv) (by simp)
  | some w => exact ⟨w, List.mem_of_find?_eq_some hfound, by simpa using List.find?_some hfound, rfl⟩

/-! ## Fields -/

theorem name_renamed (f : Field) : (f.renamed ρ).name = f.name := by
  unfold Field.renamed
  split <;> rfl

theorem written?_renamed (h : Head) (name : String) :
    (h.renamed ρ).written? name = (h.fields.find? fun f => f.name = name).map fun f => (f.renamed ρ).value := by
  have hfields : (h.renamed ρ).fields = h.fields.map (Field.renamed ρ) := rfl
  rw [Head.written?, hfields, List.find?_map, Option.map_map]
  refine congrArg (Option.map _) (List.find?_congr fun f _ => ?_)
  exact decide_eq_decide.2 (by rw [name_renamed])

/-- The field of a variable holds its id, before the renaming and behind it. -/
theorem Referring.value_renamed (hws : ws.Referring) {b : Block} (hb : b ∈ ws.blocks) {f : Field}
    (hf : f ∈ b.head.fields) (hname : f.name = "VAR") :
    f.isVariable = true ∧ ∃ v ∈ ws.vars, f.value = .ofString v.id ∧ (f.renamed ρ).value = .ofString (ρ v.id) := by
  obtain ⟨hvariable, v, hv, hvalue⟩ := hws.listed b hb f hf hname
  refine ⟨hvariable, v, hv, hvalue, ?_⟩
  rw [Field.renamed, if_pos hvariable, hvalue, RawText.text_ofString]

/-! ## Variables that are used -/

theorem fieldUse?_renamed (hws : ws.Referring) (hρ : ws.Renaming ρ) {b : Block} (hb : b ∈ ws.blocks) {f : Field}
    (hf : f ∈ b.head.fields) : (ws.renamed ρ).fieldUse? (f.renamed ρ) = (ws.fieldUse? f).map (Variable.renamed ρ) := by
  cases hvariable : f.isVariable with
  | false => simp [fieldUse?, Field.renamed, hvariable]
  | true =>
    obtain ⟨-, v, hv, hvalue, hrenamed⟩ := hws.value_renamed hb hf (hws.only b hb f hf hvariable)
    obtain ⟨w, -, -, hfound⟩ := variableById?_of_mem hv
    have hkept : (f.renamed ρ).isVariable = true := by rw [Field.renamed, if_pos hvariable]; exact hvariable
    have hid : v.id ≠ "" := hws.ids v hv
    have hid' : ρ v.id ≠ "" := hρ.ids v hv
    rw [fieldUse?, fieldUse?, hvalue, hrenamed, RawText.text_ofString, RawText.text_ofString, hvariable, hkept]
    simp [hid, hid', variableById?_renamed hρ hv, hfound]

theorem paramUse?_renamed (hws : ws.Referring) (hρ : ws.Renaming ρ) {b : Block} (hb : b ∈ ws.blocks) {p : Param}
    (hp : p ∈ b.head.extra.params) :
    (ws.renamed ρ).paramUse? (p.renamed ρ) = (ws.paramUse? p).map (Variable.renamed ρ) := by
  rcases hws.params b hb p hp with hnone | ⟨v, hv, hid⟩
  · simp [paramUse?, Param.renamed, hnone, variableByName?_renamed]
  · obtain ⟨w, -, -, hfound⟩ := variableById?_of_mem hv
    have hne : p.id ≠ "" := hid ▸ hws.ids v hv
    have hne' : ρ p.id ≠ "" := hid ▸ hρ.ids v hv
    have hrenamed := variableById?_renamed hρ hv
    rw [hid] at hfound hrenamed
    simp [paramUse?, Param.renamed, hne, hne', hrenamed, hfound]

theorem blockUses_renamed (hws : ws.Referring) (hρ : ws.Renaming ρ) {b : Block} (hb : b ∈ ws.blocks) :
    (ws.renamed ρ).blockUses (b.mapHead (Head.renamed ρ)) = (ws.blockUses b).map (Variable.renamed ρ) := by
  rw [blockUses, blockUses, Block.head_mapHead, List.map_append, List.map_filterMap, List.map_filterMap]
  have hfields : (b.head.renamed ρ).fields = b.head.fields.map (Field.renamed ρ) := rfl
  have hparams : (b.head.renamed ρ).extra.params = b.head.extra.params.map (Param.renamed ρ) := rfl
  rw [hfields, hparams, List.filterMap_map, List.filterMap_map]
  congr 1
  · exact List.filterMap_congr fun f hf => fieldUse?_renamed hws hρ hb hf
  · exact List.filterMap_congr fun p hp => paramUse?_renamed hws hρ hb hp

/-- Blocks refer to listed variables only. -/
theorem mem_vars_of_mem_blockUses (hws : ws.Referring) {b : Block} (hb : b ∈ ws.blocks) {v : Variable}
    (hv : v ∈ ws.blockUses b) : v ∈ ws.vars := by
  rcases List.mem_append.1 hv with hv | hv
  · obtain ⟨f, hf, huse⟩ := List.mem_filterMap.1 hv
    cases hvariable : f.isVariable with
    | false => simp [fieldUse?, hvariable] at huse
    | true =>
      obtain ⟨-, w, hw, hvalue⟩ := hws.listed b hb f hf (hws.only b hb f hf hvariable)
      obtain ⟨u, hu, -, hfound⟩ := variableById?_of_mem hw
      have hid : w.id ≠ "" := hws.ids w hw
      rw [fieldUse?, hvalue, RawText.text_ofString, hvariable] at huse
      obtain rfl : u = v := by simpa [hid, hfound] using huse
      exact hu
  · obtain ⟨p, hp, huse⟩ := List.mem_filterMap.1 hv
    unfold paramUse? at huse
    split at huse
    · next w hfound =>
      obtain rfl := Option.some.inj huse
      split_ifs at hfound
      exact List.mem_of_find?_eq_some hfound
    · exact List.mem_of_find?_eq_some huse

theorem mem_of_mem_addUse {seen : List Variable} {v w : Variable} (h : w ∈ addUse seen v) : w ∈ seen ∨ w = v := by
  unfold addUse at h
  split at h
  · exact .inl h
  · simpa using h

theorem mem_of_mem_foldl_addUse {seen vs : List Variable} {w : Variable} (h : w ∈ vs.foldl addUse seen) :
    w ∈ seen ∨ w ∈ vs := by
  induction vs generalizing seen with
  | nil => exact .inl h
  | cons v vs ih =>
    rcases ih h with h | h
    · rcases mem_of_mem_addUse h with h | rfl
      · exact .inl h
      · exact .inr List.mem_cons_self
    · exact .inr (List.mem_cons_of_mem _ h)

theorem mem_vars_of_mem_usedVariables (hws : ws.Referring) {v : Variable} (hv : v ∈ ws.usedVariables) : v ∈ ws.vars := by
  rcases mem_of_mem_foldl_addUse hv with hv | hv
  · cases hv
  · obtain ⟨b, hb, hv⟩ := List.mem_flatMap.1 hv
    exact mem_vars_of_mem_blockUses hws hb hv

theorem addUse_renamed (hws : ws.Referring) (hρ : ws.Renaming ρ) {seen : List Variable}
    (hseen : ∀ w ∈ seen, w ∈ ws.vars) {v : Variable} (hv : v ∈ ws.vars) :
    addUse (seen.map (Variable.renamed ρ)) (v.renamed ρ) = (addUse seen v).map (Variable.renamed ρ) := by
  have hkey : ∀ w ∈ ws.vars, useKey w = w.id ∧ useKey (w.renamed ρ) = ρ w.id := fun w hw =>
    ⟨if_neg (hws.ids w hw), if_neg (hρ.ids w hw)⟩
  have hsame : ∀ w ∈ seen, useKey (w.renamed ρ) = useKey (v.renamed ρ) ↔ useKey w = useKey v := by
    intro w hw
    rw [(hkey w (hseen w hw)).1, (hkey w (hseen w hw)).2, (hkey v hv).1, (hkey v hv).2]
    exact ⟨hρ.injective w (hseen w hw) v hv, congrArg ρ⟩
  have hany : (seen.map (Variable.renamed ρ)).any (fun w => useKey w = useKey (v.renamed ρ)) =
      seen.any fun w => useKey w = useKey v := by
    rw [List.any_map, Bool.eq_iff_iff, List.any_eq_true, List.any_eq_true]
    refine exists_congr fun w => and_congr_right fun hw => ?_
    exact (decide_eq_true_iff.trans (hsame w hw)).trans decide_eq_true_iff.symm
  unfold addUse
  rw [hany]
  split <;> simp

theorem foldl_addUse_renamed (hws : ws.Referring) (hρ : ws.Renaming ρ) {seen vs : List Variable}
    (hseen : ∀ w ∈ seen, w ∈ ws.vars) (hvs : ∀ v ∈ vs, v ∈ ws.vars) :
    (vs.map (Variable.renamed ρ)).foldl addUse (seen.map (Variable.renamed ρ)) =
      (vs.foldl addUse seen).map (Variable.renamed ρ) := by
  induction vs generalizing seen with
  | nil => rfl
  | cons v vs ih =>
    obtain ⟨hv, hvs⟩ := List.forall_mem_cons.1 hvs
    have hadded : ∀ w ∈ addUse seen v, w ∈ ws.vars := by
      intro w hw
      rcases mem_of_mem_addUse hw with hw | rfl
      · exact hseen w hw
      · exact hv
    rw [List.map_cons, List.foldl_cons, List.foldl_cons, addUse_renamed hws hρ hseen hv, ih hadded hvs]

/-- The renamed variables are used, in the same order. -/
theorem usedVariables_renamed (hws : ws.Referring) (hρ : ws.Renaming ρ) :
    (ws.renamed ρ).usedVariables = ws.usedVariables.map (Variable.renamed ρ) := by
  have huses : (ws.renamed ρ).blocks.flatMap (ws.renamed ρ).blockUses =
      (ws.blocks.flatMap ws.blockUses).map (Variable.renamed ρ) := by
    rw [List.map_flatMap]
    exact flatMap_blocks_mapHead fun b hb => blockUses_renamed hws hρ hb
  have hvars : ∀ v ∈ ws.blocks.flatMap ws.blockUses, v ∈ ws.vars := by
    intro v hv
    obtain ⟨b, hb, hv⟩ := List.mem_flatMap.1 hv
    exact mem_vars_of_mem_blockUses hws hb hv
  rw [usedVariables, usedVariables, huses]
  exact foldl_addUse_renamed hws hρ (List.forall_mem_nil _) hvars

end Workspace

/-! ## Passes -/

open Emit Text

/-- Passes over two workspaces of which neither writes a line of its own. -/
def Pairing.exact (g : Generator) (ws ws' : Workspace) : Pairing where
  settings := g.settings ws
  remark := fun _ => False
  first := ws.variableNames
  second := ws'.variableNames

/-! ## Keys -/

namespace Workspace

variable {g : Generator} {ws : Workspace} {ρ : String → String}

theorem variableById?_eq_none {ws : Workspace} {id : String} (h : ∀ v ∈ ws.vars, v.id ≠ id) :
    ws.variableById? id = none := List.find?_eq_none.2 fun v hv => by simpa using h v hv

/-- An id and what it is renamed to stand for the name of one variable. -/
theorem sameKey_id (hρ : ws.Renaming ρ) {v : Variable} (hv : v ∈ ws.vars) :
    (Pairing.exact g ws (ws.renamed ρ)).SameKey (.ofString v.id) (.ofString (ρ v.id)) := by
  obtain ⟨w, -, -, hfound⟩ := variableById?_of_mem hv
  have hfirst : ws.variableNames.lookup (.ofString v.id) = some w.name := by
    rw [lookup_variableNames, hfound]
    rfl
  have hsecond : (ws.renamed ρ).variableNames.lookup (.ofString (ρ v.id)) = some w.name := by
    rw [lookup_variableNames, variableById?_renamed hρ hv, hfound]
    rfl
  rw [Pairing.SameKey, Pairing.exact, hfirst, hsecond]
  rfl

/-- A text that is no id stands for itself. -/
theorem sameKey_text {text : String} (h : ∀ v ∈ ws.vars, v.id ≠ text) (h' : ∀ v ∈ ws.vars, ρ v.id ≠ text) :
    (Pairing.exact g ws (ws.renamed ρ)).SameKey (.ofString text) (.ofString text) := by
  have hrenamed : ∀ v ∈ (ws.renamed ρ).vars, v.id ≠ text := by
    intro v hv
    obtain ⟨w, hw, rfl⟩ := List.mem_map.1 hv
    exact h' w hw
  have hfirst : ws.variableNames.lookup (.ofString text) = none := by
    rw [lookup_variableNames, variableById?_eq_none h]
    rfl
  have hsecond : (ws.renamed ρ).variableNames.lookup (.ofString text) = none := by
    rw [lookup_variableNames, variableById?_eq_none hrenamed]
    rfl
  rw [Pairing.SameKey, Pairing.exact, hfirst, hsecond]

/-! ## Heads -/

theorem sameKey_written (hws : ws.Referring) (hρ : ws.Renaming ρ) {b : Block} (hb : b ∈ ws.blocks) :
    (Pairing.exact g ws (ws.renamed ρ)).SameKey (b.head.written "VAR") ((b.head.renamed ρ).written "VAR") := by
  rw [Head.written, Head.written, written?_renamed, Head.written?]
  cases hfound : b.head.fields.find? fun f => f.name = "VAR" with
  | none => exact sameKey_text hws.ids hρ.ids
  | some f =>
    have hname : f.name = "VAR" := by simpa using List.find?_some hfound
    obtain ⟨-, v, hv, hvalue, hrenamed⟩ := hws.value_renamed hb (List.mem_of_find?_eq_some hfound) hname
    rw [Option.map_some, Option.map_some, Option.getD_some, Option.getD_some, hvalue, hrenamed]
    exact sameKey_id hρ hv

theorem sameKey_param (hws : ws.Referring) (hρ : ws.Renaming ρ) {b : Block} (hb : b ∈ ws.blocks) {p : Param}
    (hp : p ∈ b.head.extra.params) :
    (Pairing.exact g ws (ws.renamed ρ)).SameKey (paramKey p) (paramKey (p.renamed ρ)) := by
  rcases hws.params b hb p hp with hnone | ⟨v, hv, hid⟩
  · have hkey : paramKey p = p.name := if_pos hnone
    rw [Param.renamed, if_pos hnone, hkey]
    exact sameKey_text (fun v hv => hws.apart v hv b hb p hp) fun v hv => hρ.apart v hv b hb p hp
  · have hne : p.id ≠ "" := hid ▸ hws.ids v hv
    have hne' : ρ p.id ≠ "" := hid ▸ hρ.ids v hv
    have hkey : paramKey p = v.id := (if_neg hne).trans hid.symm
    have hkey' : paramKey { p with id := ρ p.id } = ρ v.id := (if_neg hne').trans (congrArg ρ hid.symm)
    rw [Param.renamed, if_neg hne, hkey, hkey']
    exact sameKey_id hρ hv

/-- Emitters cannot tell a head from the renamed one but by the keys of variables, which stand for
the same names. -/
theorem twin_renamed (hws : ws.Referring) (hρ : ws.Renaming ρ) {b : Block} (hb : b ∈ ws.blocks) :
    b.head.Twin (.exact g ws (ws.renamed ρ)) (b.head.renamed ρ) where
  kind := rfl
  id := .inr rfl
  written? name hname := by
    rw [written?_renamed, Head.written?]
    cases hfound : b.head.fields.find? fun f => f.name = name with
    | none => rfl
    | some f =>
      have hnone : ¬ f.isVariable = true := by
        intro hvariable
        have hvar := hws.only b hb f (List.mem_of_find?_eq_some hfound) hvariable
        have hfname : f.name = name := by simpa using List.find?_some hfound
        exact hname (hfname.symm.trans hvar)
      rw [Option.map_some, Option.map_some, Field.renamed, if_neg hnone]
  key := sameKey_written hws hρ hb
  extra := rfl
  params := List.forall₂_map_right_iff.2 (List.forall₂_same.2 fun p hp => sameKey_param hws hρ hb hp)
  link := rfl
  disabled := rfl
  owned := rfl

/-- The renamed workspace declares the renamed variables. -/
theorem sameDeclared_renamed (hws : ws.Referring) (hρ : ws.Renaming ρ) :
    List.Forall₂ (Pairing.exact g ws (ws.renamed ρ)).SameDeclared (Generator.declaredKeys ws)
      (Generator.declaredKeys (ws.renamed ρ)) := by
  have hdeveloper : (ws.renamed ρ).developerVariables = ws.developerVariables :=
    developerVariables_mapHead fun _ _ => rfl
  rw [Generator.declaredKeys, Generator.declaredKeys, hdeveloper, usedVariables_renamed hws hρ]
  refine List.rel_append (List.forall₂_same.2 fun k hk => ?_) ?_
  · obtain ⟨name, -, rfl⟩ := List.mem_map.1 hk
    have hcategory : Category.developerVariable ≠ .variable := by decide
    exact ⟨rfl, fun h => absurd h hcategory, fun _ => rfl⟩
  · rw [List.map_map, List.forall₂_map_left_iff, List.forall₂_map_right_iff]
    refine List.forall₂_same.2 fun v hv => ⟨rfl, fun _ => ?_, fun h => absurd rfl h⟩
    have hmem := mem_vars_of_mem_usedVariables hws hv
    have hkey : Generator.variableKey v = v.id := if_neg (hws.ids v hmem)
    have hkey' : Generator.variableKey (v.renamed ρ) = ρ v.id := if_neg (hρ.ids v hmem)
    dsimp only [Function.comp]
    rw [hkey, hkey']
    exact sameKey_id hρ hmem

end Workspace

/-! ## Programs -/

namespace Generator

variable {g : Generator} {ws ws' : Workspace} {f : Head → Head} {ρ : String → String}

/-- Workspaces of one shape, whose heads emitters cannot tell apart, give the same program or fail
for the same reason. -/
theorem generate_exact (hemitters : g.emitters = standard) (htrap : g.loopTrap = "")
    (hbased : ws'.oneBased = ws.oneBased) (hreserved : ws'.reserved = ws.reserved)
    (htop : ws'.top = ws.top.map (Block.mapHead f))
    (hheads : ∀ b ∈ ws.blocks, b.head.Twin (.exact g ws ws') (f b.head))
    (hcomment : ∀ h, (f h).comment = h.comment) (hlink : ∀ h, (f h).link = h.link)
    (hkeys : List.Forall₂ (Pairing.exact g ws ws').SameDeclared (declaredKeys ws) (declaredKeys ws')) :
    (g.generate ws').mapError GenerateError.reason = (g.generate ws).mapError GenerateError.reason := by
  have hexact : (Pairing.exact g ws ws').Exact := fun _ h => h
  have hfit : (Pairing.exact g ws ws').Fit := ⟨fun _ h => h.elim, .inl htrap⟩
  have hsettings : g.settings ws' = (Pairing.exact g ws ws').settings := by
    rw [settings, hbased]
    rfl
  have hblocks : ∀ b ∈ ws.blocks, b.Fits (.exact g ws ws') f := by
    intro b hb
    have hlines := (Block.commentary_commentLines b).lines
    exact ⟨hheads b hb, ⟨hlines, .inl (Block.commentLines_of_kept hcomment hlink b)⟩, .inl hexact⟩
  have hstart : Alike (Pass.Twin (.exact g ws ws')) ((g.start ws).mapError GenerateError.reason)
      ((g.start ws').mapError GenerateError.reason) := start_twin hreserved rfl rfl hkeys
  have htwin := generate_twin hemitters hfit rfl hsettings htop hblocks hstart
  refine (htwin.mono ?_).eq.symm
  rintro _ _ ⟨text, text', rfl, rfl, htext⟩
  rw [String.toList_injective (htext.eq hexact)]

/-- A program does not depend on the ids and places of blocks. -/
theorem generate_anonymous (ws : Workspace) (hemitters : g.emitters = standard) (htrap : g.loopTrap = "") :
    (g.generate ws.anonymous).mapError GenerateError.reason = (g.generate ws).mapError GenerateError.reason := by
  have hkeys : declaredKeys ws.anonymous = declaredKeys ws :=
    declaredKeys_mapHead (fun _ => rfl) (fun _ => rfl) fun _ => rfl
  have htop : ws.anonymous.top = ws.top.map (Block.mapHead Head.anonymous) := rfl
  have hheads : ∀ b ∈ ws.blocks, b.head.Twin (.exact g ws ws.anonymous) b.head.anonymous := fun b _ =>
    Head.twin_of_same rfl rfl rfl rfl rfl rfl rfl (.inl htrap)
  refine generate_exact hemitters htrap rfl rfl htop hheads (fun _ => rfl) (fun _ => rfl) ?_
  rw [hkeys]
  exact Pairing.sameDeclared_self rfl _

/-- A program without a loop trap depends neither on the ids of variables nor on the ids and places of
blocks: a workspace with other ones, where references are sound, gives the same program, or fails for
the same reason in a block of the same kind. -/
theorem generate_renamed (hemitters : g.emitters = standard) (htrap : g.loopTrap = "") (hws : ws.Referring)
    (hρ : ws.Renaming ρ) (hsame : ws'.anonymous = (ws.renamed ρ).anonymous) :
    (g.generate ws').mapError GenerateError.reason = (g.generate ws).mapError GenerateError.reason := by
  have htop : (ws.renamed ρ).top = ws.top.map (Block.mapHead (Head.renamed ρ)) := rfl
  have hheads : ∀ b ∈ ws.blocks, b.head.Twin (.exact g ws (ws.renamed ρ)) (b.head.renamed ρ) := fun b hb =>
    Workspace.twin_renamed hws hρ hb
  calc (g.generate ws').mapError GenerateError.reason
      = (g.generate ws'.anonymous).mapError GenerateError.reason := (generate_anonymous ws' hemitters htrap).symm
    _ = (g.generate (ws.renamed ρ).anonymous).mapError GenerateError.reason := by rw [hsame]
    _ = (g.generate (ws.renamed ρ)).mapError GenerateError.reason := generate_anonymous _ hemitters htrap
    _ = (g.generate ws).mapError GenerateError.reason :=
      generate_exact hemitters htrap rfl rfl htop hheads (fun _ => rfl) (fun _ => rfl)
        (Workspace.sameDeclared_renamed hws hρ)

/-- The value of the variable again, under another id and in another place. -/
def relocated : Workspace := {
  top := [⟨{ kind := "variables_get", id := "b0", x := Double.one, fields := [⟨"VAR", .ofString "rid0", true⟩] }, [], none⟩]
  vars := [{ id := "rid0", name := "x0" }] }

theorem mem_vars_counting {v : Variable} : v ∈ counting.vars ↔ v = { id := "id0", name := "x0" } := List.mem_singleton

theorem mem_blocks_counting {b : Block} : b ∈ counting.blocks ↔ b = countingBlock := List.mem_singleton

theorem referring_counting : counting.Referring where
  ids v hv := by
    obtain rfl := mem_vars_counting.1 hv
    decide
  apart v _ b hb p hp := by
    obtain rfl := mem_blocks_counting.1 hb
    cases hp
  only b hb f hf _ := by
    obtain rfl := mem_blocks_counting.1 hb
    obtain rfl := List.mem_singleton.1 hf
    rfl
  listed b hb f hf _ := by
    obtain rfl := mem_blocks_counting.1 hb
    obtain rfl := List.mem_singleton.1 hf
    exact ⟨rfl, _, mem_vars_counting.2 rfl, rfl⟩
  params b hb p hp := by
    obtain rfl := mem_blocks_counting.1 hb
    cases hp

theorem renaming_counting : counting.Renaming ("r" ++ ·) where
  injective v hv w hw _ := by rw [mem_vars_counting.1 hv, mem_vars_counting.1 hw]
  ids v hv := by
    obtain rfl := mem_vars_counting.1 hv
    decide
  apart v _ b hb p hp := by
    obtain rfl := mem_blocks_counting.1 hb
    cases hp

/-- The variable has the name that it had under the other id. -/
theorem relocated_renamed : generate {} relocated = .ok "var x0;\n\n\nx0;\n" ∧
    (generate {} relocated).mapError GenerateError.reason = (generate {} counting).mapError GenerateError.reason := by
  have hfield : Field.renamed ("r" ++ ·) ⟨"VAR", .ofString "id0", true⟩ = ⟨"VAR", .ofString "rid0", true⟩ := by
    rw [Field.renamed, if_pos rfl, RawText.text_ofString]
    rfl
  have hsame : relocated.anonymous = (counting.renamed ("r" ++ ·)).anonymous := by
    have hvariable : Variable.renamed ("r" ++ ·) { id := "id0", name := "x0" } = { id := "rid0", name := "x0" } := rfl
    simp only [Workspace.anonymous, Workspace.renamed, Workspace.mapHead, counting, countingBlock, relocated,
      List.map_cons, List.map_nil, Block.mapHead, Block.mapSockets, Block.mapNext, Head.renamed, Head.anonymous, hfield,
      hvariable]
  have hreason := generate_renamed (g := {}) rfl rfl referring_counting renaming_counting hsame
  refine ⟨?_, hreason⟩
  rw [generate_counting] at hreason
  cases hgenerate : generate {} relocated with
  | error e =>
    rw [hgenerate] at hreason
    cases hreason
  | ok code =>
    rw [hgenerate] at hreason
    exact congrArg Except.ok (Except.ok.inj hreason)

end Generator
end Blockwright
