import Blockwright.Proofs.Names.Unreserved
import Blockwright.Proofs.Program.Start
import Blockwright.Proofs.Sockets.Kinds
import Blockwright.Proofs.Workspace.Decoded
/-!
# Variables are declared before use

A variable that a field refers to is named at the start of a pass, so its name is in the
declaration. No demand of a standard emitter takes the name away, gives the variables other names or
replaces the declaration, which is the first code in front of the program.
-/

namespace Blockwright

/-- A field of the block refers to the variable of an id: the id is not empty, and it does not begin
with the zero character that sets the names of variables without an id apart. -/
structure Head.Refers (h : Head) (field id : String) : Prop where
  holds : ∃ f ∈ h.fields, f.isVariable = true ∧ f.value = .ofString id
  written : h.written field = .ofString id
  ne : id ≠ ""
  plain : ∀ name, id ≠ "\x00" ++ name

namespace Workspace

/-! ## Variables that blocks refer to -/

/-- In a workspace that was read from a document, every field that is marked as a variable refers to
one when its id is of the right form. -/
theorem refers_of_decode {classify : Option Classifier} {document : Bytes} {ws : Workspace}
    (hdecode : decode classify document = .ok ws) {b : Block} (hb : b ∈ ws.blocks) {f : Field}
    (hf : f ∈ b.head.fields) (hvariable : f.isVariable = true) : ∃ id : String, f.value = .ofString id ∧
      (id ≠ "" → (∀ name, id ≠ "\x00" ++ name) → b.head.Refers f.name id) := by
  have hwired := wired_of_decode hdecode b hb
  obtain ⟨id, hid⟩ := hwired.id f hf hvariable
  have hwritten : b.head.written f.name = .ofString id := (Head.written_of_mem hwired.names hf).trans hid
  exact ⟨id, hid, fun hne hplain => ⟨⟨f, hf, hvariable, hid⟩, hwritten, hne, hplain⟩⟩

theorem lookup_variableNames (ws : Workspace) (key : String) :
    ws.variableNames.lookup (.ofString key) = (ws.variableById? key).map (·.name) := by
  unfold variableNames variableById?
  induction ws.vars with
  | nil => rfl
  | cons v vs ih =>
    rw [List.map_cons, List.lookup_cons, List.find?_cons, ih]
    by_cases hid : v.id = key
    · simp [hid]
    · have hother : (RawText.ofString key == RawText.ofString v.id) = false := by
        rw [beq_eq_false_iff_ne, Ne, RawText.ofString_inj]
        exact fun h => hid h.symm
      simp [hid, hother]

theorem mem_foldl_addUse {v : Variable} {seen : List Variable} (vs : List Variable) (h : v ∈ seen) :
    v ∈ vs.foldl addUse seen := by
  induction vs generalizing seen with
  | nil => exact h
  | cons w vs ih =>
    refine ih ?_
    unfold addUse
    split
    · exact h
    · exact List.mem_append_left _ h

/-- Every variable that is added stands for itself, or another one with its key does. -/
theorem exists_useKey {v : Variable} {vs seen : List Variable} (h : v ∈ vs) :
    ∃ w ∈ vs.foldl addUse seen, useKey w = useKey v := by
  induction vs generalizing seen with
  | nil => cases h
  | cons first vs ih =>
    rcases List.mem_cons.1 h with rfl | h
    · have hadded : ∃ w ∈ addUse seen v, useKey w = useKey v := by
        unfold addUse
        split
        · next hseen => simpa using hseen
        · exact ⟨v, List.mem_append_right _ List.mem_cons_self, rfl⟩
      obtain ⟨w, hw, hkey⟩ := hadded
      exact ⟨w, mem_foldl_addUse vs hw, hkey⟩
    · exact ih h

theorem id_of_useKey {v : Variable} {id : String} (hplain : ∀ name, id ≠ "\x00" ++ name) (h : useKey v = id) :
    v.id = id := by
  unfold useKey at h
  split at h
  · exact absurd h.symm (hplain _)
  · exact h

theorem exists_fieldUse (ws : Workspace) {f : Field} {id : String} (hvariable : f.isVariable = true)
    (hid : f.value = .ofString id) (hne : id ≠ "") : ∃ v, ws.fieldUse? f = some v ∧ v.id = id := by
  unfold fieldUse?
  rw [hvariable, hid, RawText.text_ofString]
  simp only [Bool.true_and, bne_iff_ne, ne_eq, hne, not_false_eq_true, if_true]
  cases hfound : ws.variableById? id with
  | none => exact ⟨_, rfl, rfl⟩
  | some v => exact ⟨v, rfl, by simpa using List.find?_some hfound⟩

/-- The variable that a field refers to is asked for by its id when the pass starts. -/
theorem mem_declaredKeys {ws : Workspace} {b : Block} {field id : String} (hb : b ∈ ws.blocks)
    (h : b.head.Refers field id) : (id, Category.variable) ∈ Generator.declaredKeys ws := by
  obtain ⟨f, hf, hvariable, hid⟩ := h.holds
  obtain ⟨v, hv, hvid⟩ := ws.exists_fieldUse hvariable hid h.ne
  have hused : v ∈ ws.blocks.flatMap ws.blockUses :=
    List.mem_flatMap.2 ⟨b, hb, List.mem_append_left _ (List.mem_filterMap.2 ⟨f, hf, hv⟩)⟩
  -- the variable that was added first for this key has the same id: without one its key would not be plain
  obtain ⟨w, hw, hkey⟩ : ∃ w ∈ ws.usedVariables, useKey w = useKey v := exists_useKey hused
  have hwid : w.id = id := by
    refine id_of_useKey h.plain (hkey.trans ?_)
    rw [useKey, hvid, if_neg h.ne]
  refine List.mem_append_right _ (List.mem_map.2 ⟨w, hw, ?_⟩)
  rw [Generator.variableKey, hwid, if_neg h.ne]

end Workspace

namespace Pass

variable {settings : PassSettings} {p q : Pass}

/-! ## What modest demands keep -/

/-- A pass behind another one: names stay, variables keep their names, and so does the declaration. -/
structure Follows (p q : Pass) : Prop where
  grows : p.names.Grows q.names
  idNames : q.names.idNames = p.names.idNames
  first : ∀ code, p.definitions.head? = some (.ofString "variables", code) →
    q.definitions.head? = some (.ofString "variables", code)

theorem head?_setDefinition {definitions : List (RawText × String)} {first : RawText × String} {key : RawText}
    (hfirst : definitions.head? = some first) (hne : first.1 ≠ key) (code : String) :
    (setDefinition definitions key code).head? = some first := by
  obtain ⟨rest, rfl⟩ := List.head?_eq_some_iff.1 hfirst
  unfold setDefinition
  split
  · rw [List.map_cons, if_neg hne, List.head?_cons]
  · rfl

theorem first_serve {c : Call} {first : RawText × String} (hfirst : p.definitions.head? = some first)
    (hne : c.key? ≠ some first.1) : (p.serve settings c).2.definitions.head? = some first := by
  cases c with
  | provide desired body =>
    cases hfound : p.helpers.lookup desired with
    | some helper =>
      rw [serve_known body hfound]
      exact hfirst
    | none =>
      rw [serve_provide, hfound]
      exact head?_setDefinition hfirst (fun h => hne (congrArg some h.symm)) _
  | name key category => exact hfirst
  | distinct seed category => exact hfirst
  | reserve words => exact hfirst
  | define key code => exact head?_setDefinition hfirst (fun h => hne (congrArg some h.symm)) _

theorem Follows.refl (p : Pass) : p.Follows p := ⟨.refl _, rfl, fun _ h => h⟩

theorem Follows.perform (h : p.Follows q) {d : Demand} (hd : d.Modest) : p.Follows (d.perform.run settings q).2 := by
  obtain ⟨c, rfl, hkey⟩ := hd
  rw [Demand.perform, run_perform]
  exact ⟨h.grows.trans (grows_serve q c), (idNames_serve q c).trans h.idNames,
    fun code hcode => first_serve (h.first code hcode) hkey⟩

theorem follows_behind {ds : List Demand} (hds : ∀ d ∈ ds, d.Modest) : p.Follows (p.behind settings ds) :=
  behind_keeps (fun _ d hd h => h.perform (hds d hd)) (.refl p)

/-- A name that was known is given again, and nothing changes. -/
theorem Follows.run_name (h : p.Follows q) {key : RawText} {category : Category} {name : String}
    (hknown : p.names.known[Names.slot (p.names.resolve key category) category]? = some name) :
    (Emit.name key category).run settings q = (.ok name, q) := by
  have hlater := h.grows.known _ _ hknown
  rw [← Names.resolve_congr h.idNames] at hlater
  have hget := Names.get_of_known hlater
  show (Except.ok (q.names.get key category).1, { q with names := (q.names.get key category).2 }) = _
  rw [hget]

end Pass

namespace Generator

open Emit

/-! ## Programs -/

theorem licensed_standard : Licensed Demand.Modest standard := by
  intro kind emitter hfound s
  obtain ⟨k, -, -, hreads⟩ := reads_of_lookup hfound
  exact ⟨.standard s k.values k.statements, fun _ hd => hd, (hreads s).within⟩

variable {g : Generator} {ws : Workspace} {p : Pass}

theorem isWordChar_of_mem_nameAll {n : Names} (hn : n.Sound) {keys : List (String × Category)} {name : String}
    (hname : name ∈ (nameAll n keys).1) : ∀ c ∈ name.toList, Text.isWordChar c = true := by
  induction keys generalizing n with
  | nil => cases hname
  | cons key keys ih =>
    obtain ⟨key, category⟩ := key
    rcases List.mem_cons.1 hname with hgiven | hname
    · have hget : name = (n.get key category).1 := hgiven
      rw [hget]
      rcases hn.answered_get key category with hlegal | ⟨hempty, -⟩
      · exact Identifier.isWordChar_of_mem hlegal
      · simp [hempty]
    · have hsound : (n.get key category).2.Sound := hn.serve (.get key category)
      exact ih hsound hname

theorem no_feed_in_declaration (g : Generator) (ws : Workspace) : '\n' ∉ (g.declaration ws).toList := by
  intro h
  simp only [declaration, String.toList_append, List.mem_append] at h
  rcases h with (hvar | hnames) | hend
  · exact absurd hvar (by decide)
  · rcases Text.mem_joinWith hnames with hcomma | ⟨name, hname, hfeed⟩
    · exact absurd hcomma (by decide)
    · exact absurd (isWordChar_of_mem_nameAll (sound_startNames g ws) hname _ hfeed) (by decide)
  · exact absurd hend (by decide)

/-- Tidying keeps the declaration in front of a program. -/
theorem tidy_declaration (g : Generator) (ws : Workspace) (rest : String) :
    ∃ rest', Text.tidy (g.declaration ws ++ "\n" ++ rest) = g.declaration ws ++ "\n" ++ rest' := by
  refine Scan.tidy_line (no_feed_in_declaration g ws) ⟨'v', ?_, by decide⟩ (fun c hc => ?_) rest
  · simp [declaration]
  · have hend : (g.declaration ws).toList = ("var " ++ Text.joinWith ", " (g.declared ws)).toList ++ [';'] :=
      String.toList_append
    rw [hend, List.getLast?_concat] at hc
    cases hc
    decide

/-- The first definition is the first line of a program. -/
theorem finish_of_first {first : RawText × String} (h : p.definitions.head? = some first) (code : String) :
    ∃ rest, (p.finish code).1 = first.2 ++ "\n" ++ rest := by
  obtain ⟨more, hmore⟩ := List.head?_eq_some_iff.1 h
  unfold Pass.finish
  rw [hmore]
  have hgap : "\n\n" = "\n" ++ "\n" := rfl
  have hend : "\n\n\n" = "\n" ++ "\n\n" := rfl
  cases more with
  | nil => exact ⟨"\n\n" ++ code, by rw [hend]; simp only [List.map, Text.joinWith, String.append_assoc]⟩
  | cons second more =>
    refine ⟨"\n" ++ Text.joinWith "\n\n" ((second :: more).map (·.2)) ++ "\n\n\n" ++ code, ?_⟩
    rw [hgap]
    simp only [List.map, Text.joinWith, String.append_assoc]

/-- A field that refers to a variable is given one declared name in every pass that follows the start. -/
theorem exists_declared_name (hstart : g.start ws = .ok p) {s : Site} (hs : s.block ∈ ws.blocks) {field id : String}
    (hrefers : s.head.Refers field id) : ∃ name ∈ g.declared ws, ∀ (settings : PassSettings) (q : Pass), p.Follows q →
      (s.variableName field).run settings q = (.ok name, q) := by
  obtain ⟨hnames, hfailure⟩ := names_of_start hstart
  rw [hnames] at hfailure
  obtain ⟨name, hname, hknown⟩ :=
    known_nameAll (sound_startNames g ws) hfailure (Workspace.mem_declaredKeys hs hrefers)
  rw [← Names.resolve_congr (idNames_nameAll _ (declaredKeys ws)), ← hnames] at hknown
  refine ⟨name, hname, fun settings q hfollows => ?_⟩
  rw [Site.variableName, hrefers.written]
  exact hfollows.run_name hknown

theorem first_of_start (hstart : g.start ws = .ok p) (hdeclared : g.declared ws ≠ []) :
    p.definitions.head? = some (.ofString "variables", g.declaration ws) := by
  rw [definitions_of_start hstart, if_neg hdeclared]
  rfl

/-- A program whose pass ends with the declaration in front begins with it. -/
theorem tidy_finish (h : p.definitions.head? = some (.ofString "variables", g.declaration ws)) (code : String) :
    ∃ rest, Text.tidy (p.finish code).1 = g.declaration ws ++ "\n" ++ rest := by
  obtain ⟨rest, hrest⟩ := finish_of_first h code
  rw [hrest]
  exact tidy_declaration g ws rest

/-- In a program that the standard emitters generate, variables are declared before use. The journal
of its emission tells every moment of the pass. At each of them a field that refers to a variable is
given the same declared name and nothing else changes; and at each of them the declaration is the
first code in front of the program, whose first line it is. -/
theorem generate_declares_variables {code : String} (hemitters : g.emitters = standard)
    (h : g.generate ws = .ok code) :
    ∃ p ds lines, g.start ws = .ok p ∧ Journal (g.settings ws) (emitTop g.emitters ws.top) p ds (.ok lines) ∧
      (∀ s : Site, s.block ∈ ws.blocks → ∀ field id, s.head.Refers field id →
        ∃ name ∈ g.declared ws, ∀ before, before <+: ds →
          (s.variableName field).run (g.settings ws) (p.behind (g.settings ws) before) =
            (.ok name, p.behind (g.settings ws) before)) ∧
      (g.declared ws ≠ [] →
        (∀ before, before <+: ds →
          (p.behind (g.settings ws) before).definitions.head? = some (.ofString "variables", g.declaration ws)) ∧
        ∃ rest, code = g.declaration ws ++ "\n" ++ rest) := by
  cases hstart : g.start ws with
  | error e =>
    unfold generate at h
    rw [hstart] at h
    cases h
  | ok p =>
    have hlicensed : Licensed Demand.Modest g.emitters := hemitters ▸ licensed_standard
    have hjournaled : Journaled (g.settings ws) Demand.Modest (emitTop g.emitters ws.top) :=
      journaled_emitTop hlicensed ws.top
    obtain ⟨ds, r, hjournal, hmodest⟩ := hjournaled p
    rw [List.nil_append] at hjournal
    -- every moment of the pass lies behind modest demands, so it follows the start
    have hfollows : ∀ before, before <+: ds → p.Follows (p.behind (g.settings ws) before) := fun before hbefore =>
      Pass.follows_behind fun d hd => hmodest d (hbefore.subset hd)
    rw [generate_of_journal hstart hjournal] at h
    cases r with
    | error f => cases h
    | ok lines =>
      refine ⟨p, ds, lines, rfl, hjournal, fun s hs field id hrefers => ?_, fun hdeclared => ?_⟩
      · obtain ⟨name, hname, hrun⟩ := exists_declared_name hstart hs hrefers
        exact ⟨name, hname, fun before hbefore => hrun _ _ (hfollows before hbefore)⟩
      · have hfirst := first_of_start hstart hdeclared
        rw [← Except.ok.inj h]
        exact ⟨fun before hbefore => (hfollows before hbefore).first _ hfirst,
          tidy_finish ((hfollows ds (List.prefix_refl ds)).first _ hfirst) _⟩

/-- The value of the variable. -/
def countingBlock : Block := ⟨{ kind := "variables_get", fields := [⟨"VAR", .ofString "id0", true⟩] }, [], none⟩

/-- A workspace of that block. -/
def counting : Workspace := { top := [countingBlock], vars := [{ id := "id0", name := "x0" }] }

theorem refers_counting : countingBlock.head.Refers "VAR" "id0" where
  holds := ⟨_, List.mem_cons_self, rfl, rfl⟩
  written := rfl
  ne := by decide
  plain name h := by
    have hhead := congrArg (·.toList.head?) h
    simp at hhead

theorem declaredKeys_counting : declaredKeys counting = [("id0", .variable)] := by
  have huse : counting.fieldUse? ⟨"VAR", .ofString "id0", true⟩ = some { id := "id0", name := "x0" } := by
    unfold Workspace.fieldUse?
    rw [RawText.text_ofString]
    rfl
  have hused : counting.usedVariables = [{ id := "id0", name := "x0" }] := by
    have hblock : counting.blockUses countingBlock = [{ id := "id0", name := "x0" }] := by
      simp only [Workspace.blockUses, countingBlock, List.filterMap_cons, huse]
      rfl
    have hblocks : counting.blocks = [countingBlock] := rfl
    rw [Workspace.usedVariables, hblocks, List.flatMap_singleton, hblock]
    rfl
  rw [declaredKeys, hused]
  rfl

theorem get_counting : ((startNames {} counting).get "id0" .variable).1 = "x0" ∧
    ((startNames {} counting).get "id0" .variable).2.failure = none := by
  have hresolve : (startNames {} counting).resolve "id0" .variable = "x0" := by
    have hidNames : (startNames {} counting).idNames = [(.ofString "id0", "x0")] := rfl
    rw [Names.resolve, if_pos rfl, hidNames, List.lookup_cons, beq_self_eq_true]
    rfl
  have hname : Identifier.ofText "x0" = "x0" := by
    rw [Identifier.ofText, RawText.bytes_ofString, Text.bytesOf_eq]
    decide
  rw [← failure_startNames {} counting]
  refine Names.get_of_free (known_startNames {} counting) ?_
  rw [hresolve, hname]
  exact Names.free?_startNames (by decide) rfl rfl

theorem declared_counting : declared {} counting = ["x0"] := by
  have hone : ∀ n : Names, (nameAll n [("id0", .variable)]).1 = [(n.get "id0" .variable).1] := fun _ => rfl
  rw [declared, declaredKeys_counting, hone, get_counting.1]

theorem failure_counting : (nameAll (startNames {} counting) (declaredKeys counting)).2.failure = none := by
  have hone : ∀ n : Names, (nameAll n [("id0", .variable)]).2 = (n.get "id0" .variable).2 := fun _ => rfl
  rw [declaredKeys_counting, hone, get_counting.2]

theorem run_counting {settings : PassSettings} {p : Pass} (hclean : p.failure? = none)
    (hname : ((countingBlock.site standard).variableName "VAR").run settings p = (.ok "x0", p)) :
    (emitTop standard counting.top).run settings p = (.ok ["x0;\n"], p) := by
  have hget : (variablesGet (countingBlock.site standard)).run settings p = (.ok (.value "x0" Order.atomic), p) := by
    rw [variablesGet, run_bind, hname]
    rfl
  have hcheck : check.run settings p = (.ok (), p) := by
    have hpass : (get : Emit Pass).run settings p = (.ok p, p) := rfl
    rw [check, run_bind, hpass]
    dsimp only
    rw [hclean]
    rfl
  have hemit : (countingBlock.emit standard false).run settings p = (.ok (.value "x0" Order.atomic), p) := by
    have hfound : standard.lookup (countingBlock.site standard).head.kind = some variablesGet := rfl
    rw [Block.emit_eq, if_neg (by decide), Site.emit, run_bind, inBlock, run_tryCatch]
    simp only [hfound]
    rw [run_bind, hget]
    dsimp only
    rw [run_bind, hcheck]
    rfl
  have htop : emitTop standard counting.top = do
      let result ← countingBlock.emit standard false
      let lines ← emitTop standard []
      return topCode result ++ lines := rfl
  rw [htop, run_bind, hemit]
  rfl

theorem generate_counting : generate {} counting = .ok "var x0;\n\n\nx0;\n" := by
  obtain ⟨p, hstart⟩ := exists_start failure_counting
  have hblock : (countingBlock.site standard).block ∈ counting.blocks := List.mem_singleton.2 rfl
  obtain ⟨name, hname, hgiven⟩ := exists_declared_name hstart hblock refers_counting
  have hx0 : name = "x0" := List.mem_singleton.1 (declared_counting ▸ hname)
  have hrun : (emitTop ({} : Generator).emitters counting.top).run (settings {} counting) p = (.ok ["x0;\n"], p) :=
    run_counting (contained_start hstart).2 (hx0 ▸ hgiven _ p (.refl p))
  have hdefinitions : p.definitions = [(.ofString "variables", "var x0;")] := by
    rw [definitions_of_start hstart, declaration, declared_counting]
    rfl
  have htidy : Text.tidy ("var x0;" ++ "\n\n\n" ++ "x0;\n") = "var x0;\n\n\nx0;\n" := by decide +kernel
  have hfinish : (p.finish (Text.joinWith "\n" ["x0;\n"])).1 = "var x0;" ++ "\n\n\n" ++ "x0;\n" := by
    rw [Pass.finish, hdefinitions]
    rfl
  rw [generate_eq hstart hrun, hfinish, htidy]

/-- The program begins with the declaration of its one variable. -/
theorem counting_declares_variable :
    generate {} counting = .ok "var x0;\n\n\nx0;\n" ∧ countingBlock.head.Refers "VAR" "id0" ∧
      (∃ p ds lines, start {} counting = .ok p ∧
        Journal (settings {} counting) (emitTop standard counting.top) p ds (.ok lines) ∧
        ∀ before, before <+: ds →
          ((countingBlock.site standard).variableName "VAR").run (settings {} counting)
            (p.behind (settings {} counting) before) = (.ok "x0", p.behind (settings {} counting) before)) ∧
      ∃ rest, "var x0;\n\n\nx0;\n" = declaration {} counting ++ "\n" ++ rest := by
  obtain ⟨p, ds, lines, hstart, hjournal, hnames, hfirst⟩ := generate_declares_variables rfl generate_counting
  have hblock : countingBlock ∈ counting.blocks := List.mem_singleton.2 rfl
  obtain ⟨name, hname, hrun⟩ := hnames (countingBlock.site standard) hblock "VAR" "id0" refers_counting
  have hx0 : name = "x0" := List.mem_singleton.1 (declared_counting ▸ hname)
  have hsome : declared {} counting ≠ [] := by
    rw [declared_counting]
    simp
  exact ⟨generate_counting, refers_counting, ⟨p, ds, lines, hstart, hjournal, hx0 ▸ hrun⟩, (hfirst hsome).2⟩

end Generator
end Blockwright
