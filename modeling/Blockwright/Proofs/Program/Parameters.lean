import Blockwright.Proofs.Program.Declared
import Blockwright.Proofs.Twins.Comments
/-!
# Parameters of procedures

A parameter of a procedure is resolved twice. The start of a pass resolves it to a listed variable, by
its id and else by its name, and declares that variable. The definition of the procedure asks for a
name by the id of the parameter, or by its name when it has none. Both keys have one name exactly when
they stand for the same text, which they always do when the id is listed.
-/

namespace Blockwright

open List (Forall₂)

namespace Workspace

/-! ## What keys stand for -/

/-- The text that a key of a variable stands for: the name of the first variable with that id, or else the key. -/
def keyName (ws : Workspace) (key : String) : String := ((ws.variableById? key).map (·.name)).getD key

theorem resolve_startNames (g : Generator) (ws : Workspace) (key : String) :
    (g.startNames ws).resolve key .variable = .ofString (ws.keyName key) := by
  have hids : (g.startNames ws).idNames = ws.variableNames := rfl
  rw [Names.resolve, if_pos rfl, hids, lookup_variableNames, keyName]
  cases ws.variableById? key <;> rfl

/-- A parameter whose id is listed is asked for by the key of the variable that it stands for. -/
theorem keyName_paramKey {ws : Workspace} {a : Param} {v : Variable} (hid : a.id ≠ "") (h : ws.variableById? a.id = some v) :
    ws.keyName (Emit.paramKey a) = ws.keyName (Generator.variableKey v) := by
  have hsame : v.id = a.id := by simpa using List.find?_some h
  rw [Emit.paramKey, if_neg hid, Generator.variableKey, if_neg (by rw [hsame]; exact hid), hsame]

theorem mem_vars_of_paramUse? {ws : Workspace} {a : Param} {v : Variable} (h : ws.paramUse? a = some v) : v ∈ ws.vars := by
  unfold paramUse? at h
  split at h
  · next w hw =>
    cases h
    split at hw
    · cases hw
    · exact List.mem_of_find?_eq_some hw
  · exact List.mem_of_find?_eq_some h

/-- Where no id begins with the zero character that sets the names of variables without an id apart, the
variable that a parameter stands for is asked for when the pass starts. -/
theorem mem_declaredKeys_of_paramUse? {ws : Workspace} (hplain : ∀ w ∈ ws.vars ++ ws.usedVariables, ∀ name, w.id ≠ "\x00" ++ name)
    {b : Block} (hb : b ∈ ws.blocks) {a : Param} (ha : a ∈ b.head.extra.params) {v : Variable} (h : ws.paramUse? a = some v) :
    (Generator.variableKey v, Category.variable) ∈ Generator.declaredKeys ws := by
  have hused : v ∈ ws.blocks.flatMap ws.blockUses :=
    List.mem_flatMap.2 ⟨b, hb, List.mem_append_right _ (List.mem_filterMap.2 ⟨a, ha, h⟩)⟩
  have hv : ∀ name, v.id ≠ "\x00" ++ name := hplain v (List.mem_append_left _ (mem_vars_of_paramUse? h))
  obtain ⟨w, hw, hkey⟩ : ∃ w ∈ ws.usedVariables, useKey w = useKey v := exists_useKey hused
  have hw' : ∀ name, w.id ≠ "\x00" ++ name := hplain w (List.mem_append_right _ hw)
  -- the variable that was added first for this key has the same id, or neither has one and the names agree
  have hsame : Generator.variableKey w = Generator.variableKey v := by
    unfold useKey at hkey
    unfold Generator.variableKey
    by_cases hwid : w.id = "" <;> by_cases hvid : v.id = ""
    · rw [if_pos hwid, if_pos hvid] at hkey
      rw [if_pos hwid, if_pos hvid]
      exact String.append_right_inj _ |>.1 hkey
    · rw [if_pos hwid, if_neg hvid] at hkey
      exact absurd hkey.symm (hv _)
    · rw [if_neg hwid, if_pos hvid] at hkey
      exact absurd hkey (hw' _)
    · rw [if_neg hwid, if_neg hvid] at hkey
      rw [if_neg hwid, if_neg hvid, hkey]
  exact List.mem_append_right _ (List.mem_map.2 ⟨w, hw, by rw [hsame]⟩)

end Workspace

namespace Generator

/-! ## The name that is declared for a variable -/

/-- The name that the start of a pass declares for a variable. -/
def declaredName? (g : Generator) (ws : Workspace) (v : Variable) : Option String :=
  ((declaredKeys ws).zip (g.declared ws)).lookup (variableKey v, .variable)

theorem length_nameAll (n : Names) (keys : List (String × Category)) : (nameAll n keys).1.length = keys.length := by
  induction keys generalizing n with
  | nil => rfl
  | cons key keys ih => exact congrArg (· + 1) (ih _)

/-- When no request failed, each key is kept with the name that was given for it. -/
theorem known_of_mem_zip {n : Names} (hn : n.Sound) {keys : List (String × Category)}
    (hf : (nameAll n keys).2.failure = none) {key name : String} {category : Category}
    (h : ((key, category), name) ∈ keys.zip (nameAll n keys).1) :
    (nameAll n keys).2.known[Names.slot (n.resolve key category) category]? = some name := by
  induction keys generalizing n with
  | nil => cases h
  | cons first rest ih =>
    obtain ⟨key', category'⟩ := first
    have hgrows := grows_nameAll (n.get key' category').2 rest
    rcases List.mem_cons.1 h with heq | hrest
    · obtain ⟨hkey, rfl⟩ := Prod.mk.inj heq
      obtain ⟨rfl, rfl⟩ := Prod.mk.inj hkey
      have hnext : (n.get key category).2.failure = none := hgrows.failure_none hf
      have hne : (n.get key category).1 ≠ "" := by
        rcases hn.answered_get key category with hlegal | ⟨-, hfailed⟩
        · exact Identifier.ne_empty_of_isLegal hlegal
        · exact absurd hnext hfailed
      exact hgrows.known _ _ (Names.known_get hne)
    · have hsound : (n.get key' category').2.Sound := hn.serve (.get key' category')
      have hknown := ih hsound hf hrest
      rwa [Names.resolve_congr (idNames_get n key' category')] at hknown

variable {g : Generator} {ws : Workspace} {p q : Pass} {v : Variable} {declared : String}

theorem known_of_declaredName? (hstart : g.start ws = .ok p) (h : g.declaredName? ws v = some declared) :
    p.names.known[Names.slot (.ofString (ws.keyName (variableKey v))) .variable]? = some declared := by
  obtain ⟨hnames, hfailure⟩ := names_of_start hstart
  rw [hnames] at hfailure
  have hknown := known_of_mem_zip (sound_startNames g ws) hfailure (mem_of_lookup h)
  rwa [Workspace.resolve_startNames, ← hnames] at hknown

theorem isSome_declaredName? (h : (variableKey v, Category.variable) ∈ declaredKeys ws) : (g.declaredName? ws v).isSome := by
  have hkeys : ((declaredKeys ws).zip (g.declared ws)).map (·.1) = declaredKeys ws :=
    List.map_fst_zip (Nat.le_of_eq (length_nameAll _ _).symm)
  rw [← hkeys] at h
  obtain ⟨entry, hentry, hkey⟩ := List.mem_map.1 h
  rw [Option.isSome_iff_ne_none, declaredName?, Ne, List.lookup_eq_none_iff]
  exact fun hno => absurd (hno entry hentry) (by simp [hkey])

end Generator

namespace Pass

/-! ## Later in a pass -/

/-- A moment of the pass behind another one. -/
def Later (p q : Pass) : Prop := p.Follows q ∧ q.names.Sound

theorem Later.perform {settings : PassSettings} {p q : Pass} (h : p.Later q) {d : Demand} (hd : d.Modest) :
    p.Later (d.perform.run settings q).2 := by
  refine ⟨h.1.perform hd, ?_⟩
  obtain ⟨c, rfl, -⟩ := hd
  rw [Demand.perform, run_perform]
  rcases names_serve settings q c with hnames | ⟨r, -, hnames⟩
  · rw [hnames]; exact h.2
  · rw [hnames]; exact h.2.serve r

theorem later_of_start {g : Generator} {ws : Workspace} {p : Pass} (hstart : g.start ws = .ok p) : p.Later p :=
  ⟨.refl p, (Generator.contained_start hstart).1.sound⟩

theorem Later.behind {settings : PassSettings} {p q : Pass} (h : p.Later q) {ds : List Demand} (hds : ∀ d ∈ ds, d.Modest) :
    p.Later (q.behind settings ds) :=
  behind_keeps (fun _ d hd h => h.perform (hds d hd)) h

end Pass

namespace Emit

variable {settings : PassSettings} {p : Pass}

/-! ## Actions of a pass -/

/-- What every allowed demand keeps, an action that makes only such demands keeps. -/
theorem Journaled.keeps {α : Type} {allowed : Demand → Prop} {x : Emit α} {I : Pass → Prop} (hx : Journaled settings allowed x)
    (hkeep : ∀ p d, allowed d → I p → I (d.perform.run settings p).2) : Keeps settings I x fun _ => True := by
  intro p hp
  obtain ⟨ds, r, hjournal, hds⟩ := hx p
  rw [List.nil_append] at hjournal
  have hend : I (p.behind settings ds) := Pass.behind_keeps (fun p d hd => hkeep p d (hds d hd)) hp
  rw [Ends, hjournal.run]
  cases r with
  | error f => trivial
  | ok a => exact ⟨hend, trivial⟩

theorem Keeps.forall₂_mapM {α β : Type} {I : Pass → Prop} {f : α → Emit β} {R : α → β → Prop}
    (h : ∀ a, Keeps settings I (f a) (R a)) (l : List α) : Keeps settings I (l.mapM f) (Forall₂ R l) := by
  induction l with
  | nil =>
    rw [List.mapM_nil]
    exact .pure .nil
  | cons a l ih =>
    rw [List.mapM_cons]
    exact .bind (h a) fun b hb => .bind ih fun bs hbs => .pure (.cons hb hbs)

/-- The name that a parameter is given is the one declared for a variable exactly when their keys stand for
the same text. -/
theorem keeps_paramName {g : Generator} {ws : Workspace} (hstart : g.start ws = .ok p) (a : Param) :
    Keeps settings p.Later (name (paramKey a) .variable) fun x => ∀ v declared, g.declaredName? ws v = some declared →
      (x = declared ↔ ws.keyName (paramKey a) = ws.keyName (Generator.variableKey v)) := by
  intro q hq
  have hids : q.names.idNames = (g.startNames ws).idNames := by
    rw [hq.1.idNames, (Generator.names_of_start hstart).1, Generator.idNames_nameAll]
  have hresolve : q.names.resolve (paramKey a) .variable = .ofString (ws.keyName (paramKey a)) :=
    (Names.resolve_congr hids _ _).trans (Workspace.resolve_startNames g ws _)
  have hlater : p.Later ((Demand.call (.name (paramKey a) .variable)).perform.run settings q).2 :=
    hq.perform ⟨_, rfl, by simp [Call.key?]⟩
  refine (ends_modifyGet _).2 ⟨hlater, fun v declared hdeclared => ?_⟩
  have hknown := hlater.1.grows.known _ _ (Generator.known_of_declaredName? hstart hdeclared)
  constructor
  · intro hsame
    have hne : (q.names.get (paramKey a) .variable).1 ≠ "" := by
      rw [show (q.names.get (paramKey a) .variable).1 = declared from hsame]
      exact Identifier.ne_empty_of_isLegal (hlater.2.isLegal_known hknown)
    have hgiven := Names.known_get hne
    rw [hresolve, show (q.names.get (paramKey a) .variable).1 = declared from hsame] at hgiven
    exact RawText.ofString_inj.1 (Names.slot_injective (hlater.2.known_inj _ _ _ hgiven hknown))
  · intro hsame
    have hbefore := hq.1.grows.known _ _ (Generator.known_of_declaredName? hstart hdeclared)
    rw [← hsame, ← hresolve] at hbefore
    exact congrArg Prod.fst (Names.get_of_known hbefore)

/-- A definition writes the names of its parameters into the head of the function that it puts in front of
the program. -/
theorem ends_proceduresDef {s : Site} {I : Pass → Prop} {R : Param → String → Prop}
    (hname : Keeps settings I (procedureName (s.head.written "NAME")) fun _ => True)
    (hbody : Keeps settings I (loopBody s "STACK") fun _ => True)
    (hresult : Keeps settings I (s.value "RETURN" Order.none) fun _ => True)
    (hparam : ∀ a, Keeps settings I (name (paramKey a) .variable) (R a))
    (hnext : Keeps settings I s.nextCode fun _ => True) (hp : I p) :
    Ends settings p (proceduresDef s)
      (fun _ q => ∃ fn params rest, q.definitions.lookup (.ofString ("%" ++ fn)) =
          some (commentLines s.block ++ "function " ++ fn ++ "(" ++ Text.joinWith ", " params ++ ") \x7b\n" ++ rest) ∧
        Forall₂ R s.head.extra.params params)
      (fun _ => True) := by
  unfold proceduresDef
  rw [ends_bind]
  refine (hname p hp).mono (fun fn q hq => ?_) fun _ h => h
  rw [ends_bind]
  refine (hbody q hq.1).mono (fun body q hq => ?_) fun _ h => h
  rw [ends_bind]
  refine (hresult q hq.1).mono (fun result q hq => ?_) fun _ h => h
  -- with or without a result, the names of the parameters come next
  have hrest : ∀ last {q}, I q → Ends settings q (do
      let params ← s.head.extra.params.mapM fun a => name (paramKey a) .variable
      define ("%" ++ fn) (← s.dress ("function " ++ fn ++ "(" ++ Text.joinWith ", " params ++ ") \x7b\n" ++ body ++ last ++ "\x7d") false)
      return Result.handled)
      (fun _ q => ∃ fn params rest, q.definitions.lookup (.ofString ("%" ++ fn)) =
          some (commentLines s.block ++ "function " ++ fn ++ "(" ++ Text.joinWith ", " params ++ ") \x7b\n" ++ rest) ∧
        Forall₂ R s.head.extra.params params)
      (fun _ => True) := by
    intro last q hq
    rw [ends_bind]
    refine (Keeps.forall₂_mapM hparam s.head.extra.params q hq).mono (fun params q hq => ?_) fun _ h => h
    rw [ends_bind, Site.dress, if_neg Bool.false_ne_true, ends_bind]
    refine (hnext q hq.1).mono (fun next q' _ => ?_) fun _ h => h
    refine (ends_pure _).2 ?_
    rw [ends_bind]
    refine (ends_modify _).2 ((ends_pure _).2 ⟨fn, params, body ++ last ++ "\x7d" ++ next, ?_, hq.2⟩)
    show (Pass.setDefinition q'.definitions (.ofString "%" ++ .ofString fn) _).lookup (.ofString ("%" ++ fn)) = _
    rw [RawText.ofString_append, Pass.setDefinition_eq, Entries.lookup_put, if_pos rfl]
    simp only [String.append_assoc]
  split
  · rw [pure_bind]
    exact hrest "" hq.1
  · rw [ends_bind]
    refine (Keeps.indent q hq.1).mono (fun indent q hq => ?_) fun _ h => h
    rw [pure_bind]
    exact hrest _ hq.1

/-- The definition of a procedure at any moment of a pass, whatever its blocks hold. -/
theorem ends_definition {g : Generator} {ws : Workspace} {q : Pass} (hlicensed : Licensed Demand.Modest g.emitters)
    (hstart : g.start ws = .ok p) (hq : p.Later q) (b : Block) :
    Ends settings q (proceduresDef (b.site g.emitters))
      (fun _ q' => ∃ fn params rest, q'.definitions.lookup (.ofString ("%" ++ fn)) =
          some (commentLines b ++ "function " ++ fn ++ "(" ++ Text.joinWith ", " params ++ ") \x7b\n" ++ rest) ∧
        Forall₂ (fun a x => ∀ v declared, g.declaredName? ws v = some declared →
          (x = declared ↔ ws.keyName (paramKey a) = ws.keyName (Generator.variableKey v))) b.head.extra.params params)
      (fun _ => True) := by
  have hkeep : ∀ q (d : Demand), d.Modest → p.Later q → p.Later (d.perform.run settings q).2 :=
    fun _ _ hd hq => hq.perform hd
  have hplug : ∀ socket plug, (b.site g.emitters).plug? socket = some plug → Journaled settings Demand.Modest plug.emit := by
    intro socket plug hp
    obtain ⟨s, -, -, -, hemit⟩ := Block.plug?_site hp
    exact hemit ▸ hlicensed.journaled_block _ _
  have hchained : ∀ plug, (b.site g.emitters).next = some plug → Journaled settings Demand.Modest plug.emit := by
    intro plug hp
    exact (Block.next_site hp).2 ▸ hlicensed.journaled_block _ _
  have hcompositional := Journaled.compositional settings Demand.Modest
  have hname : Journaled settings Demand.Modest (procedureName (b.head.written "NAME")) :=
    .demand (d := .call (.name _ _)) ⟨_, rfl, by simp [Call.key?]⟩
  have hbody : Journaled settings Demand.Modest (loopBody (b.site g.emitters) "STACK") := by
    refine (hcompositional.statements (hplug "STACK")).bind fun body => Journaled.read.bind fun settings => ?_
    split
    · exact .pure _
    · exact .pure _
  have hresult := hcompositional.value Order.none (hplug "RETURN")
  exact ends_proceduresDef (s := b.site g.emitters) (hname.keeps hkeep) (hbody.keeps hkeep) (hresult.keeps hkeep)
    (keeps_paramName hstart) ((hcompositional.nextCode hchained).keeps hkeep) hq

end Emit

namespace Generator

open Emit

/-! ## Programs -/

/-- In a program that emitters generate which leave the declaration alone, as the standard ones do, a
procedure is defined with one name for each of its parameters, at whatever moment of the pass. For a parameter
that stands for a variable this is the name that the start declares for the variable, and so the one that
references to it have all the time, exactly when the keys of both stand for the same text. A parameter whose id is listed has
it, and every variable has such a name where no id begins with the zero character. -/
theorem generate_names_parameters {g : Generator} {ws : Workspace} {code : String}
    (hlicensed : Licensed Demand.Modest g.emitters) (h : g.generate ws = .ok code) :
    ∃ p ds lines, g.start ws = .ok p ∧ Journal (g.settings ws) (emitTop g.emitters ws.top) p ds (.ok lines) ∧
      (∀ v declared, g.declaredName? ws v = some declared → declared ∈ g.declared ws ∧ ∀ before, before <+: ds →
        (name (variableKey v) .variable).run (g.settings ws) (p.behind (g.settings ws) before) =
          (.ok declared, p.behind (g.settings ws) before)) ∧
      ∀ b ∈ ws.blocks, ∀ before, before <+: ds →
        Ends (g.settings ws) (p.behind (g.settings ws) before) (proceduresDef (b.site g.emitters))
          (fun _ q => ∃ fn params rest, q.definitions.lookup (.ofString ("%" ++ fn)) =
              some (commentLines b ++ "function " ++ fn ++ "(" ++ Text.joinWith ", " params ++ ") \x7b\n" ++ rest) ∧
            Forall₂ (fun a x => ∀ v, ws.paramUse? a = some v →
              ((∀ w ∈ ws.vars ++ ws.usedVariables, ∀ name, w.id ≠ "\x00" ++ name) → (g.declaredName? ws v).isSome) ∧
              ∀ declared, g.declaredName? ws v = some declared →
                (x = declared ↔ ws.keyName (paramKey a) = ws.keyName (variableKey v)) ∧
                (a.id ≠ "" → (ws.variableById? a.id).isSome → x = declared)) b.head.extra.params params)
          (fun _ => True) := by
  cases hstart : g.start ws with
  | error e =>
    unfold generate at h
    rw [hstart] at h
    cases h
  | ok p =>
    have hjournaled : Journaled (g.settings ws) Demand.Modest (emitTop g.emitters ws.top) := journaled_emitTop hlicensed _
    obtain ⟨ds, r, hjournal, hmodest⟩ := hjournaled p
    rw [List.nil_append] at hjournal
    rw [generate_of_journal hstart hjournal] at h
    -- every moment of the pass lies behind modest demands
    have hlater : ∀ before, before <+: ds → p.Later (p.behind (g.settings ws) before) := fun before hbefore =>
      (Pass.later_of_start hstart).behind fun d hd => hmodest d (hbefore.subset hd)
    cases r with
    | error f => cases h
    | ok lines =>
      refine ⟨p, ds, lines, rfl, hjournal, fun v declared hdeclared => ⟨?_, fun before hbefore => ?_⟩,
        fun b hb before hbefore => ?_⟩
      · exact (List.of_mem_zip (mem_of_lookup hdeclared)).2
      · have hknown := known_of_declaredName? hstart hdeclared
        rw [← Workspace.resolve_startNames g, ← Names.resolve_congr (idNames_nameAll _ (declaredKeys ws)),
          ← (names_of_start hstart).1] at hknown
        exact (hlater before hbefore).1.run_name hknown
      · refine (ends_definition hlicensed hstart (hlater before hbefore) b).mono ?_ fun _ h => h
        rintro _ q ⟨fn, params, rest, hcode, hparams⟩
        refine ⟨fn, params, rest, hcode, ?_⟩
        refine List.forall₂_iff_zip.2 ⟨hparams.length_eq, fun {a x} hmem v huse => ⟨fun hplain => ?_, fun declared hdeclared => ?_⟩⟩
        · exact isSome_declaredName? (Workspace.mem_declaredKeys_of_paramUse? hplain hb (List.of_mem_zip hmem).1 huse)
        · have hiff := (List.forall₂_iff_zip.1 hparams).2 hmem v declared hdeclared
          refine ⟨hiff, fun hid hlisted => hiff.2 (Workspace.keyName_paramKey hid ?_)⟩
          obtain ⟨w, hw⟩ := Option.isSome_iff_exists.1 hlisted
          rw [Workspace.paramUse?, if_neg hid, hw] at huse
          exact hw.trans huse

/-! ## A parameter that is listed, and one that is not -/

/-- A procedure with a parameter of a name and an id. -/
def procedureOf (id : String) : Block :=
  ⟨{ kind := "procedures_defnoreturn", fields := [⟨"NAME", .ofString "f0", false⟩], extra := { params := [{ name := "x0", id }] } },
    [], none⟩

/-- A workspace of the procedure and of a variable with the name of the parameter. -/
def declaring (id : String) : Workspace := { top := [procedureOf id], vars := [{ id := "id0", name := "x0" }] }

theorem paramUse?_declaring {id : String} (h : id = "id0" ∨ id = "zz0") :
    (declaring id).paramUse? { name := "x0", id } = some { id := "id0", name := "x0" } := by
  rcases h with rfl | rfl <;> decide

theorem declaredKeys_declaring {id : String} (h : id = "id0" ∨ id = "zz0") :
    declaredKeys (declaring id) = [("id0", .variable)] := by
  have huses : (declaring id).blockUses (procedureOf id) = [{ id := "id0", name := "x0" }] := by
    simp [Workspace.blockUses, procedureOf, paramUse?_declaring h, Workspace.fieldUse?]
  have hused : (declaring id).usedVariables = [{ id := "id0", name := "x0" }] := by
    have hblocks : (declaring id).blocks = [procedureOf id] := rfl
    rw [Workspace.usedVariables, hblocks, List.flatMap_singleton, huses]
    rfl
  rw [declaredKeys, hused]
  rfl

theorem ofText_of_bytes {text : String} (h : Identifier.ofBytes (text.toList.flatMap String.utf8EncodeChar) = text.toList) :
    Identifier.ofText text = text := by
  rw [Identifier.ofText, RawText.bytes_ofString, Text.bytesOf_eq, h, String.ofList_toList]

/-- The names of a pass over a workspace without reserved words, behind those that are given. -/
structure Behind (ws : Workspace) (n : Names) (given : List String) : Prop where
  reserved : n.reserved = (startNames {} ws).reserved
  used : ∀ name ∈ n.used, name ∈ given
  idNames : n.idNames = ws.variableNames
  failure : n.failure = none

variable {ws : Workspace} {n : Names} {given : List String}

/-- A name with the digit 0 that has not been given is free. -/
theorem Behind.free? (h : Behind ws n given) (hws : ws.reserved = []) {name : String} (hzero : '0' ∈ name.toList)
    (hnew : name ∉ given) : n.free? name = some name := by
  have htaken : n.taken name = false := by
    rw [Names.taken, Names.isReserved, h.reserved, Bool.or_eq_false_iff]
    exact ⟨by simpa using fun hused => hnew (h.used name hused), by simpa using Names.not_mem_reserved_startNames hzero rfl hws⟩
  rw [Names.free?, htaken]
  rfl

/-- It is given to a key that has no name yet and that it can be made from. -/
theorem Behind.get (h : Behind ws n given) (hws : ws.reserved = []) (key : RawText) (category : Category) (name : String)
    (hmade : Identifier.ofText (n.resolve key category) = name) (hzero : '0' ∈ name.toList) (hnew : name ∉ given)
    (hknown : n.known[Names.slot (n.resolve key category) category]? = none) :
    ∃ n', n.get key category = (name, n') ∧ Behind ws n' (name :: given) ∧
      n'.known = n.known.insert (Names.slot (n.resolve key category) category) name := by
  have hfree := h.free? hws hzero hnew
  rw [← hmade] at hfree
  rcases Names.get_cases n key category with ⟨name', hk, -⟩ | ⟨name', -, hf, hg⟩ | ⟨-, hf, -⟩
  · exact absurd (hk.symm.trans hknown) (by simp)
  · obtain rfl : name' = name := (Option.some.inj (hf.symm.trans hfree)).trans hmade
    refine ⟨_, hg, ⟨h.reserved, fun x hx => ?_, h.idNames, h.failure⟩, rfl⟩
    rcases Std.HashSet.mem_insert.1 hx with hx | hx
    · exact List.mem_cons.2 (.inl (eq_of_beq hx).symm)
    · exact List.mem_cons_of_mem _ (h.used x hx)
  · exact absurd (hf.symm.trans hfree) (by simp)

theorem behind_startNames (ws : Workspace) : Behind ws (startNames {} ws) [] :=
  ⟨rfl, fun x hx => absurd hx (Names.not_mem_used_startNames {} ws x), rfl, failure_startNames {} ws⟩

/-- The registry behind the variable and the name of the procedure. -/
theorem names_declaring (id : String) : ∃ n n' : Names,
    (startNames {} (declaring id)).get "id0" .variable = ("x0", n) ∧ n.get "f0" .procedure = ("f0", n') ∧
      n.failure = none ∧ Behind (declaring id) n' ["f0", "x0"] ∧ n'.known[Names.slot "x0" .variable]? = some "x0" ∧
      n'.known[Names.slot "zz0" .variable]? = none := by
  have hx0 : (startNames {} (declaring id)).resolve "id0" .variable = "x0" := Workspace.resolve_startNames {} (declaring id) "id0"
  have hf0 : ∀ n : Names, n.resolve "f0" .procedure = "f0" := fun n => if_neg (by decide)
  have hprocedure : ∀ key : RawText, Names.slot "f0" .procedure ≠ Names.slot key .variable := fun _ => Names.slot_procedure_ne (by decide)
  have hzz0 : Names.slot "x0" .variable ≠ Names.slot "zz0" .variable := fun h =>
    absurd (RawText.ofString_inj.1 (Names.slot_injective h)) (by decide)
  have hempty := known_startNames {} (declaring id)
  obtain ⟨n, hget, hn, hknown⟩ := (behind_startNames (declaring id)).get rfl "id0" .variable "x0"
    (by rw [hx0]; exact ofText_of_bytes (by decide)) (by decide) (by decide)
    (by rw [hempty, Std.HashMap.getElem?_empty])
  rw [hx0, hempty] at hknown
  obtain ⟨n', hget', hn', hknown'⟩ := hn.get rfl "f0" .procedure "f0"
    (by rw [hf0]; exact ofText_of_bytes (by decide)) (by decide) (by decide)
    (by rw [hf0, hknown, Std.HashMap.getElem?_insert, if_neg fun h => hprocedure _ (eq_of_beq h).symm, Std.HashMap.getElem?_empty])
  rw [hf0, hknown] at hknown'
  refine ⟨n, n', hget, hget', hn.failure, hn', ?_, ?_⟩
  · rw [hknown', Std.HashMap.getElem?_insert, if_neg fun h => hprocedure _ (eq_of_beq h), Std.HashMap.getElem?_insert_self]
  · rw [hknown', Std.HashMap.getElem?_insert, if_neg fun h => hprocedure _ (eq_of_beq h), Std.HashMap.getElem?_insert,
      if_neg fun h => hzz0 (eq_of_beq h), Std.HashMap.getElem?_empty]

/-- The name that the parameter is given. -/
theorem get_declaring {id : String} (h : id = "id0" ∨ id = "zz0") {n : Names} (hn : Behind (declaring id) n ["f0", "x0"])
    (hx0 : n.known[Names.slot "x0" .variable]? = some "x0") (hzz0 : n.known[Names.slot "zz0" .variable]? = none) :
    ∃ n', n.get id .variable = (if id = "id0" then "x0" else id, n') ∧ n'.failure = none := by
  have hresolve : n.resolve id .variable = .ofString ((declaring id).keyName id) :=
    (Names.resolve_congr (n := startNames {} (declaring id)) hn.idNames _ _).trans (Workspace.resolve_startNames {} (declaring id) id)
  rcases h with rfl | rfl
  · have hlisted : n.resolve "id0" .variable = "x0" := hresolve
    exact ⟨n, Names.get_of_known (by rw [hlisted]; exact hx0), hn.failure⟩
  · have hself : n.resolve "zz0" .variable = "zz0" := hresolve
    obtain ⟨n', hget, hn', -⟩ := hn.get rfl "zz0" .variable "zz0"
      (by rw [hself]; exact ofText_of_bytes (by decide)) (by decide) (by decide) (by rw [hself]; exact hzz0)
    exact ⟨n', hget, hn'.failure⟩

/-- The pass that has declared the variable. -/
def variablePass (n : Names) : Pass := { names := n, definitions := [("variables", "var x0;")] }

/-- The pass that has defined the procedure as well, whose parameter got a name. -/
def procedurePass (n : Names) (x : String) : Pass :=
  { names := n, definitions := [("variables", "var x0;"), ("%f0", "function f0(" ++ x ++ ") \x7b\n\x7d")] }

theorem run_procedureOf {id x : String} {n n' n'' : Names} (hfirst : n.get "f0" .procedure = ("f0", n'))
    (hsecond : n'.get id .variable = (x, n'')) (hid : id ≠ "") :
    (proceduresDef ((procedureOf id).site standard)).run (settings {} (declaring id)) (variablePass n) =
      (.ok .handled, procedurePass n'' x) := by
  have hname : (procedureName (((procedureOf id).site standard).head.written "NAME")).run
      (settings {} (declaring id)) (variablePass n) = (.ok "f0", variablePass n') := by
    show (Except.ok (n.get "f0" .procedure).1, variablePass (n.get "f0" .procedure).2) = _
    rw [hfirst]
  have hbody : (loopBody ((procedureOf id).site standard) "STACK").run (settings {} (declaring id)) (variablePass n') =
      (.ok "", variablePass n') := rfl
  have hresult : (((procedureOf id).site standard).value "RETURN" Order.none).run (settings {} (declaring id)) (variablePass n') =
      (.ok "", variablePass n') := rfl
  have hparams : ((((procedureOf id).site standard).head.extra.params.mapM fun a => name (paramKey a) .variable) :
      Emit (List String)).run (settings {} (declaring id)) (variablePass n') = (.ok [x], variablePass n'') := by
    -- the only parameter has an id, so the name is asked for under the id
    have hone : (((procedureOf id).site standard).head.extra.params.mapM fun a => name (paramKey a) .variable : Emit (List String)) =
        (do let x ← name (.ofString id) .variable; pure [x]) := by
      show ([{ name := "x0", id }] : List Param).mapM (fun a => name (paramKey a) .variable) = _
      rw [List.mapM_cons, paramKey, if_neg hid]
      rfl
    have hasked : (name (.ofString id) .variable).run (settings {} (declaring id)) (variablePass n') = (.ok x, variablePass n'') := by
      show (Except.ok (n'.get id .variable).1, variablePass (n'.get id .variable).2) = _
      rw [hsecond]
    rw [hone, run_bind, hasked]
    rfl
  have hdress : ∀ code, (((procedureOf id).site standard).dress code false).run (settings {} (declaring id)) (variablePass n'') =
      (.ok ("" ++ code ++ ""), variablePass n'') := fun _ => rfl
  have hcode : "" ++ ("function " ++ "f0" ++ "(" ++ Text.joinWith ", " [x] ++ ") \x7b\n" ++ "" ++ "" ++ "\x7d") ++ "" =
      "function f0(" ++ x ++ ") \x7b\n\x7d" := by
    show "" ++ ("function " ++ "f0" ++ "(" ++ x ++ ") \x7b\n" ++ "" ++ "" ++ "\x7d") ++ "" = _
    simp only [String.empty_append, String.append_empty, String.append_assoc]
    rfl
  unfold proceduresDef
  rw [run_bind, hname]
  dsimp only
  rw [run_bind, hbody]
  dsimp only
  rw [run_bind, hresult]
  simp only [if_true]
  rw [pure_bind, run_bind, hparams]
  dsimp only
  rw [run_bind, hdress, hcode]
  have hput : Pass.setDefinition (variablePass n'').definitions (.ofString "%" ++ .ofString "f0") ("function f0(" ++ x ++ ") \x7b\n\x7d") =
      (procedurePass n'' x).definitions := by
    rw [← RawText.ofString_append, Pass.setDefinition, if_neg (by simp [variablePass, RawText.ofString_inj])]
    rfl
  exact congrArg (fun definitions => (Except.ok Result.handled, ({ names := n'', definitions } : Pass))) hput

theorem start_declaring {id : String} (h : id = "id0" ∨ id = "zz0") : ∃ n n' : Names,
    start {} (declaring id) = .ok (variablePass n) ∧
      n.get "f0" .procedure = ("f0", n') ∧ ∃ n'', n'.get id .variable = (if id = "id0" then "x0" else id, n'') ∧ n''.failure = none := by
  obtain ⟨n, n', hvariable, hprocedure, hclean, hbehind, hx0, hzz0⟩ := names_declaring id
  refine ⟨n, n', ?_, hprocedure, get_declaring h hbehind hx0 hzz0⟩
  have hall : nameAll (startNames {} (declaring id)) (declaredKeys (declaring id)) = (["x0"], n) := by
    rw [declaredKeys_declaring h, nameAll, hvariable]
    rfl
  unfold start
  rw [hall]
  dsimp only
  rw [hclean]
  rfl

/-- The program of the procedure. -/
theorem generate_declaring {id code : String} (h : id = "id0" ∨ id = "zz0")
    (hcode : Text.tidy ("var x0;" ++ "\n\n" ++ ("function f0(" ++ (if id = "id0" then "x0" else id) ++ ") \x7b\n\x7d") ++ "\n\n\n" ++ "") = code) :
    generate {} (declaring id) = .ok code := by
  obtain ⟨n, n', hstart, hprocedure, n'', hparam, hclean⟩ := start_declaring h
  have hid : id ≠ "" := by rcases h with rfl | rfl <;> decide
  have hemit := Site.run_bare (s := (procedureOf id).site standard) rfl (run_procedureOf hprocedure hparam hid)
    (Pass.failure?_eq_none.2 ⟨rfl, hclean⟩)
  have hblock : ((procedureOf id).emit standard false).run (settings {} (declaring id)) (variablePass n) =
      (.ok .handled, procedurePass n'' (if id = "id0" then "x0" else id)) := by
    have henabled : (procedureOf id).head.disabled = false := rfl
    rw [Block.emit_eq, henabled, if_neg Bool.false_ne_true, Site.emit_standard, run_bind, hemit]
    rfl
  rw [generate_eq hstart (run_emitTop_singleton hblock), ← hcode]
  rfl

theorem declaredName?_declaring {id : String} (h : id = "id0" ∨ id = "zz0") :
    declaredName? {} (declaring id) { id := "id0", name := "x0" } = some "x0" := by
  obtain ⟨n, n', hvariable, -⟩ := names_declaring id
  have hall : declared {} (declaring id) = ["x0"] := by
    rw [declared, declaredKeys_declaring h, nameAll, hvariable]
    rfl
  rw [declaredName?, hall, declaredKeys_declaring h]
  rfl

/-- A parameter whose id is listed has the name that is declared for the variable. -/
theorem listed_parameter_named :
    generate {} (declaring "id0") = .ok "var x0;\n\nfunction f0(x0) \x7b\n\x7d\n" ∧
      ∃ p q fn rest, start {} (declaring "id0") = .ok p ∧
        (proceduresDef ((procedureOf "id0").site standard)).run (settings {} (declaring "id0")) p = (.ok .handled, q) ∧
        q.definitions.lookup (.ofString ("%" ++ fn)) = some (commentLines (procedureOf "id0") ++ "function " ++ fn ++ "(" ++
          Text.joinWith ", " ["x0"] ++ ") \x7b\n" ++ rest) := by
  have hcode : generate {} (declaring "id0") = .ok "var x0;\n\nfunction f0(x0) \x7b\n\x7d\n" :=
    generate_declaring (.inl rfl) (by decide +kernel)
  obtain ⟨n, n', hstart, hprocedure, n'', hparam, -⟩ := start_declaring (.inl rfl : "id0" = "id0" ∨ _)
  have hrun := run_procedureOf hprocedure hparam (by decide)
  obtain ⟨p, ds, lines, hstart', -, -, hdefinitions⟩ := generate_names_parameters licensed_standard hcode
  obtain rfl : variablePass n = p := Except.ok.inj (hstart.symm.trans hstart')
  have hends := hdefinitions (procedureOf "id0") (List.mem_singleton.2 rfl) [] (List.nil_prefix)
  have hstandard : Block.site ({} : Generator).emitters (procedureOf "id0") = (procedureOf "id0").site standard := rfl
  have hfirst : Pass.behind (settings {} (declaring "id0")) (variablePass n) [] = variablePass n := rfl
  rw [hstandard, hfirst, Ends, hrun] at hends
  obtain ⟨fn, params, rest, htext, hparams⟩ := hends
  obtain ⟨name, names, hname, hnone, rfl⟩ := List.forall₂_cons_left_iff.1 hparams
  obtain rfl := List.forall₂_nil_left_iff.1 hnone
  have hsame := ((hname _ (paramUse?_declaring (.inl rfl))).2 "x0" (declaredName?_declaring (.inl rfl))).2 (by decide) (by decide)
  exact ⟨hcode, variablePass n, _, fn, rest, hstart, hrun, hsame ▸ htext⟩

/-- A parameter with an id of its own is the variable by its name and has a name of its own. -/
theorem unlisted_parameter_named_apart :
    (declaring "zz0").paramUse? { name := "x0", id := "zz0" } = some { id := "id0", name := "x0" } ∧
      declaredName? {} (declaring "zz0") { id := "id0", name := "x0" } = some "x0" ∧
      generate {} (declaring "zz0") = .ok "var x0;\n\nfunction f0(zz0) \x7b\n\x7d\n" ∧
      ∃ p q, start {} (declaring "zz0") = .ok p ∧
        (proceduresDef ((procedureOf "zz0").site standard)).run (settings {} (declaring "zz0")) p = (.ok .handled, q) ∧
        q.definitions.lookup (.ofString "%f0") = some "function f0(zz0) \x7b\n\x7d" := by
  obtain ⟨n, n', hstart, hprocedure, n'', hparam, -⟩ := start_declaring (.inr rfl : _ ∨ "zz0" = "zz0")
  refine ⟨paramUse?_declaring (.inr rfl), declaredName?_declaring (.inr rfl), generate_declaring (.inr rfl) (by decide +kernel),
    variablePass n, _, hstart, run_procedureOf hprocedure hparam (by decide), ?_⟩
  have hother : RawText.ofString "%f0" ≠ RawText.ofString "variables" := fun h => absurd (RawText.ofString_inj.1 h) (by decide)
  have hdefinitions : (procedurePass n'' "zz0").definitions =
      [(.ofString "variables", "var x0;"), (.ofString "%f0", "function f0(" ++ "zz0" ++ ") \x7b\n\x7d")] := rfl
  show (procedurePass n'' "zz0").definitions.lookup _ = _
  rw [hdefinitions, Entries.lookup_cons_eq, if_neg hother, Entries.lookup_cons_eq, if_pos rfl]
  rfl

end Generator
end Blockwright
