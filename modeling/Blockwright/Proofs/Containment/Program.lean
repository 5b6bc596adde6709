import Blockwright.Generator
import Blockwright.Proofs.Containment.Values
/-!
# Programs are contained

Whatever the users of a workspace wrote, a generated program ends outside strings and comments,
and its brackets are balanced. A block is emitted in a contained pass to sealed code, by induction
on the tree of blocks; a program is the definitions of the last pass and the code of its top
blocks, with its blank space tidied.
-/

namespace Blockwright

open Scan Emit

variable {settings : PassSettings}

theorem Emit.safe_standard (hs : settings.Blank) {s : Site} (h : s.Safe settings) :
    ∀ e ∈ standard, SafeResult settings (e.2 s) := by
  intro e he
  simp only [standard, List.mem_append] at he
  rcases he with (((((he | he) | he) | he) | he) | he) | he
  · exact safe_logic hs h e he
  · exact safe_loops hs h e he
  · exact safe_math hs h e he
  · exact safe_lists hs h e he
  · exact safe_texts hs h e he
  · exact safe_procedures hs h e he
  · exact safe_vars hs h e he

theorem Emit.safe_check : Safe settings check fun _ => True :=
  fun _ hp => ends_check (fun _ => ⟨hp, trivial⟩) fun _ _ => trivial

/-! ## Blocks -/

theorem Site.Safe.emit {s : Site} (h : s.Safe settings) (hs : settings.Blank) (thisOnly : Bool) :
    SafeResult settings (s.emit standard thisOnly) := by
  refine Keeps.bind (Q := fun r => Sealed r.code) (.inBlock ?_) fun r hr => ?_
  · split
    · next emitter hfound =>
      refine (safe_standard hs h _ (mem_of_lookup hfound)).bind fun r hr => ?_
      exact safe_check.bind fun _ _ => .pure hr
    · exact .fail
  · cases r with
    | handled => exact .pure sealed_empty
    | statement code => exact (h.dress hr thisOnly).bind fun _ hd => safe_statement hd
    | value code order =>
      dsimp only
      split
      · exact .failIn
      · exact (h.dress hr thisOnly).bind fun _ hd => safe_value hd

mutual

theorem Block.safe_emit (hs : settings.Blank) (b : Block) (thisOnly : Bool) :
    SafeResult settings (b.emit standard thisOnly) := by
  obtain ⟨head, sockets, next⟩ := b
  rw [Block.emit]
  split
  · split
    · exact .pure sealed_empty
    · exact Block.safe_emitNext hs next
  · refine Site.Safe.emit ⟨fun socket plug hp => ?_, fun plug hp => ?_⟩ hs thisOnly
    · exact Block.safe_plugs hs sockets _ (mem_of_lookup (Option.join_eq_some_iff.1 hp)) plug rfl
    · exact Block.safe_nextPlug hs next plug hp

theorem Block.safe_emitNext (hs : settings.Blank) (next : Option Block) :
    SafeResult settings (Block.emitNext standard next) := by
  cases next with
  | none => exact .pure sealed_empty
  | some b => exact Block.safe_emit hs b false

theorem Block.safe_nextPlug (hs : settings.Blank) (next : Option Block) (plug : Plug)
    (h : Block.nextPlug standard next = some plug) : SafeResult settings plug.emit := by
  cases next with
  | none => cases h
  | some b => cases h; exact Block.safe_emit hs b false

theorem Block.safe_plugs (hs : settings.Blank) (sockets : List Socket) (entry : String × Option Plug)
    (he : entry ∈ Block.plugs standard sockets) (plug : Plug) (hp : entry.2 = some plug) :
    SafeResult settings plug.emit := by
  cases sockets with
  | nil => cases he
  | cons socket rest =>
    obtain ⟨name, kind, _ | b⟩ := socket
    · rcases List.mem_cons.1 he with rfl | he
      · cases hp
      · exact Block.safe_plugs hs rest entry he plug hp
    · rcases List.mem_cons.1 he with rfl | he
      · cases hp; exact Block.safe_emit hs b false
      · exact Block.safe_plugs hs rest entry he plug hp

end

/-! ## Failures on record -/

/-- No failure is on record. -/
def Pass.Clean (p : Pass) : Prop := p.failure? = none

/-- An action that succeeds leaves no failure on record if there was none. -/
abbrev Emit.Cleanly {α : Type} (settings : PassSettings) (x : Emit α) : Prop :=
  Keeps settings Pass.Clean x fun _ => True

theorem Site.cleanly_dress {s : Site} (h : ∀ plug, s.next = some plug → Cleanly settings plug.emit) (code : String)
    (thisOnly : Bool) : Cleanly settings (s.dress code thisOnly) := by
  have hnext : Cleanly settings s.nextCode := by
    unfold Site.nextCode
    cases hp : s.next with
    | none => exact .pure trivial
    | some plug =>
      refine (h plug hp).bind fun r _ => ?_
      cases r with
      | handled => exact .pure trivial
      | statement code => exact .pure trivial
      | value code order => exact .failIn
  unfold Site.dress
  cases thisOnly with
  | true => exact .pure trivial
  | false => exact hnext.bind fun _ _ => .pure trivial

theorem Site.cleanly_emit {s : Site} (h : ∀ plug, s.next = some plug → Cleanly settings plug.emit)
    (emitters : Emitters) (thisOnly : Bool) : Cleanly settings (s.emit emitters thisOnly) := by
  refine Keeps.bind (Q := fun _ => True) (.inBlock ?_) fun r _ => ?_
  · intro p _
    split
    · -- whatever the emitter did, a failure on record is raised behind it
      rw [ends_bind]
      refine ends_of_forall (fun r p' => ?_) fun _ => trivial
      rw [ends_bind]
      exact ends_check (fun hclean => (ends_pure r).2 ⟨hclean, trivial⟩) fun _ _ => trivial
    · exact (ends_fail _).2 trivial
  · cases r with
    | handled => exact .pure trivial
    | statement code => exact (cleanly_dress h code thisOnly).bind fun _ _ => .pure trivial
    | value code order =>
      dsimp only
      split
      · exact .failIn
      · exact (cleanly_dress h code thisOnly).bind fun _ _ => .pure trivial

mutual

theorem Block.cleanly_emit (emitters : Emitters) (b : Block) (thisOnly : Bool) :
    Cleanly settings (b.emit emitters thisOnly) := by
  obtain ⟨head, sockets, next⟩ := b
  rw [Block.emit]
  split
  · split
    · exact .pure trivial
    · exact Block.cleanly_emitNext emitters next
  · refine Site.cleanly_emit (fun plug hp => ?_) emitters thisOnly
    exact Block.cleanly_nextPlug emitters next plug hp

theorem Block.cleanly_emitNext (emitters : Emitters) (next : Option Block) :
    Cleanly settings (Block.emitNext emitters next) := by
  cases next with
  | none => exact .pure trivial
  | some b => exact Block.cleanly_emit emitters b false

theorem Block.cleanly_nextPlug (emitters : Emitters) (next : Option Block) (plug : Plug)
    (h : Block.nextPlug emitters next = some plug) : Cleanly settings plug.emit := by
  cases next with
  | none => cases h
  | some b => cases h; exact Block.cleanly_emit emitters b false

end

/-! ## Programs -/

namespace Generator

theorem sealed_topCode {r : Result} (h : Sealed r.code) : ∀ line ∈ topCode r, Sealed line := by
  have hlist : ∀ (code text : String), Sealed text → ∀ line ∈ (if code = "" then [] else [text]), Sealed line := by
    intro code text ht line hline
    by_cases hc : code = ""
    · simp [hc] at hline
    · simp only [hc, if_false, List.mem_singleton] at hline
      rw [hline]; exact ht
  cases r with
  | handled => exact hlist "" "" sealed_empty
  | statement code => exact hlist code code h
  | value code order => exact hlist code _ ((Woven.code h |>.addLit _).sealed (by decide))

theorem sealed_emitTop (hs : settings.Blank) (top : List Block) :
    Safe settings (emitTop standard top) fun lines => ∀ line ∈ lines, Sealed line := by
  induction top with
  | nil => exact .pure (by simp)
  | cons b rest ih =>
    refine (Block.safe_emit hs b false).bind fun r hr => ?_
    refine ih.bind fun lines hlines => .pure fun line hline => ?_
    rcases List.mem_append.1 hline with hline | hline
    · exact sealed_topCode hr line hline
    · exact hlines line hline

theorem safe_emitTop (hs : settings.Blank) (top : List Block) :
    Safe settings (emitTop standard top) fun lines => ∀ line ∈ lines, Neutral line := fun p hp =>
  (sealed_emitTop hs top p hp).mono (fun _ _ h => ⟨h.1, fun line hline => (h.2 line hline).neutral⟩) fun _ h => h

theorem cleanly_emitTop (emitters : Emitters) (top : List Block) : Cleanly settings (emitTop emitters top) := by
  induction top with
  | nil => exact .pure trivial
  | cons b rest ih =>
    exact (Block.cleanly_emit emitters b false).bind fun r _ => ih.bind fun lines _ => .pure trivial

theorem nameAll_sealed {n : Names} (h : n.Sound) (keys : List (String × Category)) :
    (nameAll n keys).2.Sound ∧ ∀ name ∈ (nameAll n keys).1, Sealed name := by
  induction keys generalizing n with
  | nil => exact ⟨h, by simp [nameAll]⟩
  | cons key rest ih =>
    obtain ⟨key, category⟩ := key
    obtain ⟨hsound, hnames⟩ := ih (h.serve (.get key category))
    refine ⟨hsound, fun name hname => ?_⟩
    rcases List.mem_cons.1 hname with rfl | hname
    · exact (h.answered_get key category).sealed
    · exact hnames name hname

theorem sound_startNames (g : Generator) (ws : Workspace) : (g.startNames ws).Sound := by
  have hreserved : (((Names.new Names.defaultReserved).reserve g.reserved).reserve ws.reserved).Sound :=
    ((Names.sound_new Names.defaultReserved).serve (.reserve g.reserved)).serve (.reserve ws.reserved)
  exact hreserved.congr rfl rfl

/-- A program is what its pass has put in front and the code of its top blocks. -/
theorem generate_eq {g : Generator} {ws : Workspace} {p p' : Pass} {lines : List String} (hstart : g.start ws = .ok p)
    (hrun : (emitTop g.emitters ws.top).run (g.settings ws) p = (.ok lines, p')) :
    g.generate ws = .ok (Text.tidy (p'.finish (Text.joinWith "\n" lines)).1) := by
  unfold generate
  rw [hstart]
  dsimp only [bind, Except.bind]
  rw [hrun]
  rfl

theorem exists_of_generate_eq_ok {g : Generator} {ws : Workspace} {code : String} (h : g.generate ws = .ok code) :
    ∃ p lines p', g.start ws = .ok p ∧ (emitTop g.emitters ws.top).run (g.settings ws) p = (.ok lines, p') ∧
      code = Text.tidy (p'.finish (Text.joinWith "\n" lines)).1 := by
  cases hstart : g.start ws with
  | error e =>
    unfold generate at h
    rw [hstart] at h
    cases h
  | ok p =>
    rcases hrun : (emitTop g.emitters ws.top).run (g.settings ws) p with ⟨f | lines, p'⟩
    · unfold generate at h
      rw [hstart] at h
      dsimp only [bind, Except.bind] at h
      rw [hrun] at h
      cases h
    · rw [generate_eq hstart hrun] at h
      exact ⟨p, lines, p', rfl, hrun, (Except.ok.inj h).symm⟩

theorem failure_startNames (g : Generator) (ws : Workspace) : (g.startNames ws).failure = none := by
  unfold startNames Names.new
  dsimp only
  rw [Names.failure_reserve, Names.failure_reserve, Names.failure_reserve]

theorem start_of_no_keys {g : Generator} {ws : Workspace} (h : declaredKeys ws = []) :
    g.start ws = .ok { names := g.startNames ws } := by
  unfold start
  rw [h, nameAll]
  dsimp only
  rw [failure_startNames]
  rfl

/-- A pass starts contained and with no failure on record. -/
theorem contained_start {g : Generator} {ws : Workspace} {p : Pass} (h : g.start ws = .ok p) :
    p.Contained ∧ p.Clean := by
  obtain ⟨hsound, hnames⟩ := nameAll_sealed (sound_startNames g ws) (declaredKeys ws)
  unfold start at h
  dsimp only at h
  cases hf : (nameAll (g.startNames ws) (declaredKeys ws)).2.failure with
  | some e => rw [hf] at h; cases h
  | none =>
    rw [hf] at h
    cases h
    refine ⟨⟨hsound, by simp, fun _ d hd => ?_⟩, Pass.failure?_eq_none.2 ⟨rfl, hf⟩⟩
    dsimp only at hd
    split at hd
    · cases hd
    · rw [List.mem_singleton.1 hd]
      exact ⟨(Woven.lit _ |>.addCode (sealed_joinWith sealed_comma hnames) |>.addLit _).sealed (by decide), by
        simp only [String.append_assoc]
        exact Text.opens_append (by decide) _⟩

theorem sealed_finish {p : Pass} {code : String} (hp : p.Contained) (hclean : p.Clean) (hcode : Sealed code) :
    Sealed (p.finish code).1 := by
  have hgap : Sealed "\n\n" := sealed_lit _ (by decide)
  have hdefinitions : ∀ d ∈ p.definitions.map (·.2), Sealed d := by
    intro d hd
    obtain ⟨e, he, rfl⟩ := List.mem_map.1 hd
    exact (hp.definitions hclean e he).sealed
  exact (Woven.code (sealed_joinWith hgap hdefinitions) |>.addLit _ |>.addCode hcode).sealed (by decide)

theorem neutral_finish {p : Pass} {code : String} (hp : p.Contained) (hclean : p.Clean) (hcode : Neutral code) :
    Neutral (p.finish code).1 := by
  have hgap : Neutral "\n\n" := neutral_lit _ (by decide)
  have hbreak : Neutral "\n\n\n" := neutral_lit _ (by decide)
  have hdefinitions : ∀ d ∈ p.definitions.map (·.2), Neutral d := by
    intro d hd
    obtain ⟨e, he, rfl⟩ := List.mem_map.1 hd
    exact (hp.definitions hclean e he).sealed.neutral
  exact ((neutral_joinWith hgap hdefinitions).append hbreak).append hcode

/-- A program that is generated with blank indentation and without a loop trap ends outside
strings and comments, and its brackets are balanced and nested, whatever its workspace holds. -/
theorem generate_isContained {g : Generator} {ws : Workspace} {code : String} (hemitters : g.emitters = standard)
    (htrap : g.loopTrap = "") (hindent : ∀ c ∈ g.indent.toList, c = ' ' ∨ c = '\t')
    (h : g.generate ws = .ok code) : isContained code = true := by
  have hs : (g.settings ws).Blank := by
    refine ⟨fun c hc => ?_, htrap⟩
    rcases hindent c hc with rfl | rfl <;> decide
  rw [← neutral_iff]
  unfold generate at h
  rw [hemitters] at h
  cases hstart : g.start ws with
  | error e => rw [hstart] at h; cases h
  | ok p =>
    obtain ⟨hcontained, hclean⟩ := contained_start hstart
    have hsafe := safe_emitTop hs ws.top p hcontained
    have hall : Cleanly (g.settings ws) (emitTop standard ws.top) := cleanly_emitTop standard ws.top
    have hcleanly := hall p hclean
    unfold Ends at hsafe hcleanly
    rw [hstart] at h
    dsimp only [bind, Except.bind] at h
    rcases hrun : (emitTop standard ws.top).run (g.settings ws) p with ⟨f | lines, p'⟩
    · rw [hrun] at h; cases h
    · rw [hrun] at h hsafe
      rw [hrun] at hcleanly
      have hfeed : Neutral "\n" := neutral_lit _ (by decide)
      rw [← Except.ok.inj h]
      exact neutral_tidy (neutral_finish hsafe.1 hcleanly.1 (neutral_joinWith hfeed hsafe.2))

/-- A literal with a comment. -/
def commentedLiteral (text comment : String) : Block :=
  ⟨{ kind := "text", fields := [⟨"TEXT", .ofString text, false⟩], comment }, [], none⟩

theorem run_commentedLiteral {p : Pass} (h : p.failure? = none) (settings : PassSettings) (text comment : String) :
    (emitTop standard [commentedLiteral text comment]).run settings p
      = (.ok [commentLines (commentedLiteral text comment) ++ Text.quote text ++ ";\n"], p) := by
  have htext : (RawText.ofString text).text = text := RawText.text_ofString _
  have hrun : (emitTop standard [commentedLiteral text comment]).run settings p
      = (.ok (topCode (.value (commentLines (commentedLiteral text comment) ++ Text.quote (RawText.ofString text).text ++ "")
        .atomic) ++ []), p) := by
    obtain ⟨⟨reserved, known, used, idNames, failure⟩, definitions, helpers, failed⟩ := p
    obtain ⟨rfl, hf⟩ := Pass.failure?_eq_none.1 h
    cases hf
    rfl
  have hne : commentLines (commentedLiteral text comment) ++ Text.quote text ++ "" ≠ "" := by simp [Text.quote]
  rw [hrun, htext, topCode, if_neg hne]
  simp [nakedValue]

/-- A literal and a comment that hold quotes, brackets and slashes. -/
def hostile : Workspace := {
  top := [⟨{ kind := "text", fields := [⟨"TEXT", "'); //", false⟩], comment := "don't (" }, [], none⟩] }

theorem run_hostile {p : Pass} (h : p.failure? = none) :
    (emitTop ({} : Generator).emitters hostile.top).run (Generator.settings {} hostile) p
      = (.ok ["// don't (\n'\\'); //';\n"], p) := run_commentedLiteral h _ "'); //" "don't ("

theorem generate_hostile : generate {} hostile = .ok "// don't (\n'\\'); //';\n" := by
  have hkeys : declaredKeys hostile = [] := rfl
  have hclean : ({ names := startNames {} hostile } : Pass).failure? = none :=
    Pass.failure?_eq_none.2 ⟨rfl, failure_startNames {} hostile⟩
  have htidy : Text.tidy ("" ++ "\n\n\n" ++ "// don't (\n'\\'); //';\n") = "// don't (\n'\\'); //';\n" := by
    decide +kernel
  rw [generate_eq (start_of_no_keys hkeys) (run_hostile hclean)]
  exact congrArg Except.ok htidy

theorem hostile_isContained :
    generate {} hostile = .ok "// don't (\n'\\'); //';\n" ∧ isContained "// don't (\n'\\'); //';\n" = true := by
  refine ⟨generate_hostile, generate_isContained rfl rfl (fun c hc => .inl ?_) generate_hostile⟩
  have hspaces : c ∈ [' ', ' '] := hc
  simpa using hspaces

end Generator
end Blockwright
