import Blockwright.Proofs.Attempts
import Blockwright.Proofs.Program.Start
import Blockwright.Proofs.Twins.Values
import Blockwright.Proofs.Workspace.Mapped
/-!
# Programs side by side

Two workspaces of one shape, whose heads emitters cannot tell apart but for comments, ids and the
keys of variables, give programs that differ by remarks, or fail for the same reason. Their passes start in
step when they declare keys that stand for the same names, and heads that differ by what no emitter
reads do not change the keys.
-/

namespace Blockwright

open Emit Text

/-! ## Blocks that give values, definitions -/

/-- The block is not disabled and gives a value, taken by itself. -/
def Block.EmitsValue (settings : PassSettings) (b : Block) : Prop :=
  b.head.disabled = false ∧ ∃ p code order p', (b.emit standard true).run settings p = (.ok (.value code order), p')

namespace Block

mutual

/-- The first block of a chain that is not disabled. -/
def leader? : Block → Option Block
  | ⟨head, sockets, next⟩ => if head.disabled then leaderBehind? next else some ⟨head, sockets, next⟩

/-- The first block that is not disabled in what is chained behind a block. -/
def leaderBehind? : Option Block → Option Block
  | none => none
  | some b => leader? b

end

/-- The chain begins with no comment, unless with the comment of a definition, which goes elsewhere
with it. -/
def Quiet (b : Block) : Prop := ∀ c, b.leader? = some c → c.head.isDefinition = false → commentLines c = ""

/-- The block uses its links as they are meant: a value has nothing behind it, nothing that is held
passes for a top block, and no comment follows the brace of a definition. -/
structure Tame (settings : PassSettings) (b : Block) : Prop where
  alone : b.EmitsValue settings → b.next = none
  linked : ∀ c, b.Holds c → c.head.link ≠ .top
  quiet : b.head.isDefinition = true → b.head.disabled = false → ∀ c, b.next = some c → c.Quiet

end Block

/-- A definition leaves nothing in place. -/
theorem Emit.handled_proceduresDef (settings : PassSettings) (s : Site) :
    Keeps settings (fun _ => True) (proceduresDef s) (· = .handled) := by
  have hany : ∀ {α : Type} (x : Emit α), Keeps settings (fun _ => True) x fun _ => True :=
    fun x p _ => ends_of_forall (fun _ _ => ⟨trivial, trivial⟩) fun _ => trivial
  refine (hany _).bind fun fn _ => ?_
  refine (hany _).bind fun body _ => ?_
  refine (hany _).bind fun result _ => ?_
  extract_lets definition
  have hdefinition : ∀ last, Keeps settings (fun _ => True) (definition last) (· = .handled) := by
    intro last
    refine (hany _).bind fun params _ => ?_
    refine (hany _).bind fun code _ => ?_
    exact (hany _).bind fun _ _ => .pure rfl
  split
  · exact (hany _).bind fun last _ => hdefinition last
  · exact (hany _).bind fun indent _ => (hany _).bind fun last _ => hdefinition last

/-! ## Sites -/

namespace Site

/-- What the emitter of a block gives, before comments and what is chained behind. -/
def bare (s : Site) : Emit Result :=
  Emit.inBlock s.block.name do
    match standard.lookup s.head.kind with
    | some emitter => checked (emitter s)
    | none => Emit.fail (.unknownKind s.head.kind)

theorem emit_standard (s : Site) (thisOnly : Bool) : s.emit standard thisOnly = (do
    match ← s.bare with
    | .handled => return .handled
    | .statement code => return .statement (← s.dress code thisOnly)
    | .value code order =>
      if s.head.link != .value && s.head.link != .top then
        Emit.failIn s.block.name .expectedStatement
      return .value (← s.dress code thisOnly) order) := by
  unfold Site.emit bare
  refine congrArg (fun x => Emit.inBlock s.block.name x >>= _) ?_
  cases standard.lookup s.head.kind <;> rfl

theorem run_bare {settings : PassSettings} {s : Site} {emitter : Emitter} {p q : Pass} {r : Result}
    (hfound : standard.lookup s.head.kind = some emitter) (hrun : (emitter s).run settings p = (.ok r, q))
    (hclean : q.failure? = none) : s.bare.run settings p = (.ok r, q) := by
  unfold bare
  rw [hfound, inBlock, run_tryCatch]
  dsimp only
  rw [checked, run_bind, hrun]
  dsimp only
  rw [run_bind, run_check, hclean]
  rfl

/-- What a definition leaves in place is nothing. -/
theorem handled_of_isDefinition {settings : PassSettings} {s : Site} (h : s.head.isDefinition = true) {p p' : Pass}
    {r : Result} (hrun : s.bare.run settings p = (.ok r, p')) : r = .handled := by
  have hlookup : standard.lookup s.head.kind = some proceduresDef := by
    simp only [Head.isDefinition, Bool.or_eq_true, beq_iff_eq] at h
    rcases h with h | h <;> rw [h] <;> rfl
  have hends : Ends settings p s.bare (fun r _ => r = .handled) fun _ => True := by
    unfold bare
    rw [hlookup, ends_inBlock]
    unfold checked
    rw [ends_bind]
    refine (handled_proceduresDef settings s p trivial).mono (fun r p' hr => ?_) fun _ _ => trivial
    rw [ends_bind]
    exact ends_of_forall (fun _ _ => (ends_pure r).2 hr.2) fun _ => trivial
  unfold Ends at hends
  rwa [hrun] at hends

variable {π : Pairing} {s s' : Site}

theorem Twin.bare (h : s.Twin π s') (hfit : π.Fit) : PairedCode π s.bare s'.bare := by
  unfold Site.bare
  rw [h.head.kind]
  refine Paired.inBlock h.kind ?_
  cases hfound : standard.lookup s.head.kind with
  | none => exact .fail _
  | some emitter => exact paired_standard hfit h _ (mem_of_lookup hfound) rfl

/-- Blocks whose sites are in step are emitted in step. -/
theorem Twin.emit (h : s.Twin π s') (hfit : π.Fit) (thisOnly : Bool) :
    Paired π (Result.Twin π (π.Exact ∨ s.head.link ≠ .top)
        (s.head.isDefinition = false → Inline π.remark (commentLines s.block) (commentLines s'.block)))
      (s.emit standard thisOnly) (s'.emit standard thisOnly) := by
  rw [emit_standard, emit_standard]
  refine (h.bare hfit).given.bind fun r r' hr => ?_
  obtain ⟨hr, p, p', hrun⟩ := hr
  cases r <;> cases r'
  · exact .pure trivial
  · exact hr.elim
  · exact hr.elim
  · exact hr.elim
  · next code code' =>
    obtain ⟨hinline, hopens, hends, -⟩ := hr
    have hdefinition : s.head.isDefinition = false := by
      cases hdef : s.head.isDefinition with
      | false => rfl
      | true => cases handled_of_isDefinition hdef hrun
    refine (h.dress hinline hopens hends thisOnly).bind fun a b hab => .pure ?_
    exact ⟨hab.1, hab.2.1, fun hcomments => hab.2.2 (hcomments hdefinition)⟩
  · exact hr.elim
  · exact hr.elim
  · exact hr.elim
  · next code order code' order' =>
    obtain ⟨rfl, rfl, hopens⟩ := hr
    dsimp only
    rw [h.head.link]
    split
    · exact .failIn h.kind _
    · next hlink =>
      have hlink' : s.head.link = .value ∨ s.head.link = .top := by
        cases hl : s.head.link <;> simp [hl] at hlink ⊢
      have halone : π.Exact ∨ s.next = none := by
        refine h.alone.imp id fun halone => halone ⟨p, commentLines s.block ++ code ++ "", order, p', ?_⟩
        rw [emit_standard, run_bind, hrun]
        dsimp only
        rw [if_neg hlink]
        rfl
      refine (h.dress_value hopens halone hlink' thisOnly).bind fun a b hab => .pure ?_
      exact ⟨rfl, hab⟩

end Site

/-! ## Trees of blocks -/

namespace Block

variable {π : Pairing} {f : Head → Head}

theorem not_emitsValue_of_isDefinition {settings : PassSettings} {b : Block} (h : b.head.isDefinition = true) :
    ¬ b.EmitsValue settings := by
  rintro ⟨henabled, p, code, order, p', hrun⟩
  rw [emit_eq, henabled, if_neg Bool.false_ne_true, Site.emit_standard, run_bind] at hrun
  rcases hbare : (b.site standard).bare.run settings p with ⟨e | r, q⟩
  · rw [hbare] at hrun
    cases hrun
  · have hdefinition : (b.site standard).head.isDefinition = true := h
    rw [hbare, Site.handled_of_isDefinition hdefinition hbare] at hrun
    cases hrun

/-- Emitters cannot tell the head of the block from the changed one, and the block is tame unless no
line is written by one run only. -/
structure Fits (π : Pairing) (f : Head → Head) (b : Block) : Prop where
  head : b.head.Twin π (f b.head)
  comments : π.Comments (commentLines b) (commentLines (b.mapHead f))
  tame : π.Exact ∨ b.Tame π.settings

theorem rel_plugs {sockets : List Socket} (h : ∀ s ∈ sockets, ∀ c, s.plugged = some c →
      Plug.Twin π True False ⟨c, c.emit standard false⟩ ⟨c.mapHead f, (c.mapHead f).emit standard false⟩)
    (socket : String) : Option.Rel (Plug.Twin π True False) ((plugs standard sockets).lookup socket).join
      ((plugs standard (mapSockets f sockets)).lookup socket).join := by
  induction sockets with
  | nil => exact .none
  | cons s rest ih =>
    obtain ⟨hs, hrest⟩ := List.forall_mem_cons.1 h
    obtain ⟨name, kind, _ | c⟩ := s
    · rw [mapSockets, plugs, plugs, List.lookup_cons, List.lookup_cons]
      cases socket == name
      · exact ih hrest
      · exact .none
    · rw [mapSockets, plugs, plugs, List.lookup_cons, List.lookup_cons]
      cases socket == name
      · exact ih hrest
      · exact .some (hs c rfl)

theorem leader?_of_enabled {b : Block} (h : ¬ b.head.disabled = true) : b.leader? = some b := by
  obtain ⟨head, sockets, next⟩ := b
  rw [leader?]
  exact if_neg h

theorem Quiet.behind {b c : Block} (h : b.Quiet) (hdisabled : b.head.disabled = true) (hnext : b.next = some c) :
    c.Quiet := by
  obtain ⟨head, sockets, next⟩ := b
  obtain rfl : next = some c := hnext
  intro n hn
  refine h n ?_
  rw [leader?, if_pos hdisabled, leaderBehind?]
  exact hn

/-- A tree of blocks is emitted in step with the tree of the changed heads. -/
theorem paired_emit (hfit : π.Fit) (b : Block) (h : ∀ c ∈ b.blocks, c.Fits π f) (thisOnly : Bool) :
    Paired π (Result.Twin π (π.Exact ∨ b.head.link ≠ .top) (π.Exact ∨ b.Quiet)) (b.emit standard thisOnly)
      ((b.mapHead f).emit standard thisOnly) := by
  induction b using inductionOn generalizing thisOnly with
  | h b ih =>
    have hself := h b (mem_blocks_self b)
    have hheld : ∀ c, b.Holds c → ∀ d ∈ c.blocks, d.Fits π f := fun c hc d hd => h d (hc.mem_blocks hd)
    have hkind : ∀ c, b.Holds c → (c.mapHead f).head.kind = c.head.kind := by
      intro c hc
      rw [head_mapHead, (hheld c hc c (mem_blocks_self c)).head.kind]
    rw [emit_eq, emit_eq, head_mapHead, hself.head.disabled]
    split
    · next hdisabled =>
      -- a disabled block writes what the one linked behind it does
      split
      · exact .pure trivial
      · rw [next_mapHead]
        cases hnext : b.next with
        | none => exact .pure trivial
        | some c =>
          have hc : b.Holds c := .inr hnext
          refine (ih c hc (hheld c hc) false).mono fun r r' hr => hr.mono (fun _ => ?_) ?_
          · exact hself.tame.imp id fun htame => htame.linked c hc
          · exact Or.imp id fun hquiet => hquiet.behind hdisabled hnext
    · next hdisabled =>
      -- the two sites hold the same, each socket and the block behind by the induction
      have htwin : Site.Twin π (b.site standard) ((b.mapHead f).site standard) := by
        refine ⟨?_, ?_, hself.comments, fun socket => ?_, ?_, ?_⟩
        · show b.head.Twin π (b.mapHead f).head
          rw [head_mapHead]
          exact hself.head
        · show (b.mapHead f).sockets.map (·.name) = b.sockets.map (·.name)
          rw [sockets_mapHead, names_mapSockets]
        · show Option.Rel _ ((plugs standard b.sockets).lookup socket).join
            ((plugs standard (b.mapHead f).sockets).lookup socket).join
          rw [sockets_mapHead]
          refine rel_plugs (fun s hs c hplugged => ⟨?_, ?_⟩) socket
          · exact hkind c (.inl ⟨s, hs, hplugged⟩)
          · have hc : b.Holds c := .inl ⟨s, hs, hplugged⟩
            refine (ih c hc (hheld c hc) false).mono fun r r' hr => hr.mono (fun _ => ?_) False.elim
            exact hself.tame.imp id fun htame => htame.linked c hc
        · show Option.Rel _ (nextPlug standard b.next) (nextPlug standard (b.mapHead f).next)
          rw [next_mapHead]
          cases hnext : b.next with
          | none => exact .none
          | some c =>
            have hc : b.Holds c := .inr hnext
            refine .some ⟨hkind c hc, ?_⟩
            refine (ih c hc (hheld c hc) false).mono fun r r' hr => hr.mono False.elim fun hdefinition => ?_
            exact hself.tame.imp id fun htame => htame.quiet hdefinition (by simpa using hdisabled) c hnext
        · refine hself.tame.imp id fun htame hvalue => ?_
          have hemit : b.EmitsValue π.settings := by
            refine ⟨by simpa using hdisabled, ?_⟩
            rw [emit_eq, if_neg hdisabled]
            exact hvalue
          show nextPlug standard b.next = none
          rw [htame.alone hemit]
          rfl
      refine (htwin.emit hfit thisOnly).mono fun r r' hr => hr.mono id fun hquiet hdefinition => ?_
      rcases hquiet with hexact | hquiet
      · show Inline π.remark (commentLines b) (commentLines (b.mapHead f))
        rw [hself.comments.eq hexact]
        exact .same _
      · exact hself.comments.inline_of_none (hquiet b (leader?_of_enabled hdisabled) hdefinition)

end Block

/-! ## Programs -/

/-- Why there is no program, without the id of the block where it arose. -/
def GenerateError.reason (e : GenerateError) : Cause × Option String := (e.cause, e.block.map (·.kind))

namespace Generator

variable {π : Pairing} {f : Head → Head}

theorem topCode_statement {code : String} (h : opens code = true) : topCode (.statement code) = [code] :=
  if_neg (ne_empty_of_opens h)

theorem topCode_value {code : String} (h : opens code = true) (order : Order) :
    topCode (.value code order) = [nakedValue code] := if_neg (ne_empty_of_opens h)

theorem topCode_twin {fixed inline : Prop} {r r' : Result} (h : r.Twin π fixed inline r') :
    List.Forall₂ (fun a b => Annotated π.remark a.toList b.toList) (topCode r) (topCode r') := by
  cases r <;> cases r'
  · exact .nil
  · exact h.elim
  · exact h.elim
  · exact h.elim
  · next a b =>
    obtain ⟨⟨ha, hb⟩, hab, -⟩ := h
    rw [topCode_statement ha, topCode_statement hb]
    exact .cons hab .nil
  · exact h.elim
  · exact h.elim
  · exact h.elim
  · next a order b order' =>
    obtain ⟨-, ⟨ha, hb⟩, hab, -⟩ := h
    rw [topCode_value ha, topCode_value hb]
    refine .cons ?_ .nil
    rw [nakedValue, nakedValue, String.toList_append, String.toList_append]
    exact hab.before _

theorem paired_emitTop (hfit : π.Fit) {top : List Block} (h : ∀ b ∈ top, ∀ c ∈ b.blocks, c.Fits π f) :
    Paired π (List.Forall₂ fun a b => Annotated π.remark a.toList b.toList) (emitTop standard top)
      (emitTop standard (top.map (Block.mapHead f))) := by
  induction top with
  | nil => exact .pure .nil
  | cons b rest ih =>
    obtain ⟨hb, hrest⟩ := List.forall_mem_cons.1 h
    refine (Block.paired_emit hfit b hb false).bind fun r r' hr => ?_
    refine (ih hrest).bind fun lines lines' hlines => ?_
    exact .pure (List.rel_append (topCode_twin hr) hlines)

/-- The program behind passes in step. -/
theorem annotated_finish {p q : Pass} (hpq : Pass.Twin π p q) {lines lines' : List String}
    (hlines : List.Forall₂ (fun a b => Annotated π.remark a.toList b.toList) lines lines') :
    Annotated π.remark (p.finish (joinWith "\n" lines)).1.toList (q.finish (joinWith "\n" lines')).1.toList := by
  have hdefinitions : List.Forall₂ (fun a b => Annotated π.remark a.toList b.toList) (p.definitions.map (·.2))
      (q.definitions.map (·.2)) := by
    rw [List.forall₂_map_left_iff, List.forall₂_map_right_iff]
    exact hpq.definitions.imp fun _ _ hde => hde.2
  have hfeed : endsLine "\n" = true := by decide
  have hfeeds : endsLine "\n\n" = true := by decide
  have hcode := Annotated.joinWith hfeed hlines
  have hgap := (Annotated.joinWith hfeeds hdefinitions).before "\n\n\n".toList
  unfold Pass.finish
  simp only [String.toList_append]
  refine hgap.append ?_ hcode
  rw [← String.toList_append]
  exact whole_of_endsLine (endsLine_append _ (by decide))

/-- Workspaces of one shape whose passes start in step give programs that differ by remarks before
they are tidied, or fail for the same reason. -/
theorem generate_twin {g : Generator} {ws ws' : Workspace} (hemitters : g.emitters = standard) (hfit : π.Fit)
    (hsettings : g.settings ws = π.settings) (hsettings' : g.settings ws' = π.settings)
    (htop : ws'.top = ws.top.map (Block.mapHead f)) (hblocks : ∀ b ∈ ws.blocks, b.Fits π f)
    (hstart : Alike (Pass.Twin π) ((g.start ws).mapError GenerateError.reason)
      ((g.start ws').mapError GenerateError.reason)) :
    Alike (fun code code' => ∃ text text' : String, code = tidy text ∧ code' = tidy text' ∧
        Annotated π.remark text.toList text'.toList)
      ((g.generate ws).mapError GenerateError.reason) ((g.generate ws').mapError GenerateError.reason) := by
  have hfits : ∀ b ∈ ws.top, ∀ c ∈ b.blocks, c.Fits π f :=
    fun b hb c hc => hblocks c (List.mem_flatMap.2 ⟨b, hb, hc⟩)
  unfold generate
  rw [hemitters, hsettings, hsettings', htop]
  cases hp : g.start ws with
  | error e =>
    cases hq : g.start ws' with
    | error e' => rw [hp, hq] at hstart; exact hstart
    | ok q => rw [hp, hq] at hstart; exact hstart.elim
  | ok p =>
    cases hq : g.start ws' with
    | error e' => rw [hp, hq] at hstart; exact hstart.elim
    | ok q =>
      rw [hp, hq] at hstart
      have hrun := paired_emitTop hfit hfits p q hstart
      unfold EndAlike at hrun
      dsimp only [bind, Except.bind]
      generalize (emitTop standard ws.top).run π.settings p = rp,
        (emitTop standard (ws.top.map (Block.mapHead f))).run π.settings q = rq at hrun ⊢
      obtain ⟨e | lines, p'⟩ := rp <;> obtain ⟨e' | lines', q'⟩ := rq
      · exact Prod.ext hrun.1 hrun.2
      · exact hrun.elim
      · exact hrun.elim
      · exact ⟨_, _, rfl, rfl, annotated_finish hrun.1 hrun.2⟩

end Generator
end Blockwright

/-! ## Starts side by side -/

namespace Blockwright

/-- Two keys are declared alike: the same key, or keys of variables that stand for one name. -/
def Pairing.SameDeclared (π : Pairing) (k k' : String × Category) : Prop :=
  k'.2 = k.2 ∧ (k.2 = .variable → π.SameKey k.1 k'.1) ∧ (k.2 ≠ .variable → k'.1 = k.1)

theorem Pairing.SameDeclared.resolve {π : Pairing} {k k' : String × Category} (h : π.SameDeclared k k') {n : Names}
    (hn : n.idNames = π.first) : ({ n with idNames := π.second } : Names).resolve k'.1 k.2 = n.resolve k.1 k.2 := by
  obtain ⟨-, hvariable, hother⟩ := h
  unfold Names.resolve
  split
  · next hcategory =>
    rw [hn]
    exact (hvariable hcategory).symm
  · next hcategory => rw [hother hcategory]

/-- Heads with the same fields and the same links, when variables have the same names. -/
theorem Head.twin_of_same {π : Pairing} {h h' : Head} (hnames : π.second = π.first) (hkind : h'.kind = h.kind)
    (hfields : h'.fields = h.fields) (hextra : h'.extra = h.extra) (hlink : h'.link = h.link)
    (hdisabled : h'.disabled = h.disabled) (howned : h'.owned = h.owned)
    (hid : π.settings.loopTrap = "" ∨ h'.id = h.id) : h.Twin π h' where
  kind := hkind
  id := hid
  written? name _ := by rw [written?, written?, hfields]
  key := by
    rw [Pairing.SameKey, hnames, written, written, written?, written?, hfields]
  extra := by rw [hextra]
  params := by
    rw [hextra]
    exact List.forall₂_same.2 fun p _ => by rw [Pairing.SameKey, hnames]
  link := hlink
  disabled := hdisabled
  owned := howned

/-- The same keys are declared alike when variables have the same names. -/
theorem Pairing.sameDeclared_self {π : Pairing} (hnames : π.second = π.first) (keys : List (String × Category)) :
    List.Forall₂ π.SameDeclared keys keys :=
  List.forall₂_same.2 fun _ _ => ⟨rfl, fun _ => by rw [Pairing.SameKey, hnames], fun _ => rfl⟩

namespace Generator

variable {π : Pairing} {g : Generator} {ws ws' : Workspace} {f : Head → Head}

/-- Keys that are declared alike are given the same names. -/
theorem nameAll_twin {n : Names} (hn : n.idNames = π.first) {keys keys' : List (String × Category)}
    (hkeys : List.Forall₂ π.SameDeclared keys keys') : nameAll { n with idNames := π.second } keys' =
      ((nameAll n keys).1, { (nameAll n keys).2 with idNames := π.second }) := by
  induction hkeys generalizing n with
  | nil => rfl
  | @cons k k' keys keys' hk _ ih =>
    obtain ⟨key, category⟩ := k
    obtain ⟨key', category'⟩ := k'
    obtain rfl : category' = category := hk.1
    have hget := Names.get_setVariables (hk.resolve hn)
    have hrest := ih ((idNames_get n key category').trans hn)
    simp only [nameAll, hget, hrest]

theorem names_twin (hreserved : ws'.reserved = ws.reserved) (hsecond : ws'.variableNames = π.second) :
    g.startNames ws' = { g.startNames ws with idNames := π.second } := by
  rw [startNames, startNames, hreserved, hsecond]

/-- Passes over workspaces that declare keys alike start in step. -/
theorem start_twin (hreserved : ws'.reserved = ws.reserved) (hfirst : ws.variableNames = π.first)
    (hsecond : ws'.variableNames = π.second)
    (hkeys : List.Forall₂ π.SameDeclared (declaredKeys ws) (declaredKeys ws')) :
    Alike (Pass.Twin π) ((g.start ws).mapError GenerateError.reason) ((g.start ws').mapError GenerateError.reason) := by
  have hn : (g.startNames ws).idNames = π.first := hfirst
  have hsound := (nameAll_sealed (sound_startNames g ws) (declaredKeys ws)).1
  have hids := (idNames_nameAll (g.startNames ws) (declaredKeys ws)).trans hn
  unfold start
  rw [names_twin hreserved hsecond, nameAll_twin hn hkeys]
  generalize nameAll (g.startNames ws) (declaredKeys ws) = named at hsound hids ⊢
  obtain ⟨declared, ⟨reserved, known, used, ids, failure⟩⟩ := named
  dsimp only
  cases failure with
  | some e => exact rfl
  | none =>
    refine { names := rfl, first := hids, sound := hsound, helpers := rfl, named := ?_, failure := rfl, definitions := ?_ }
    · intro entry he
      cases he
    · exact List.forall₂_same.2 fun d _ => ⟨rfl, .same _⟩

/-- Heads that declare the same leave the keys as they are. -/
theorem declaredKeys_mapHead (hfields : ∀ h, (f h).fields = h.fields) (hextra : ∀ h, (f h).extra = h.extra)
    (hdeveloper : ∀ h, (f h).developerVariables = h.developerVariables) :
    declaredKeys (ws.mapHead f) = declaredKeys ws := by
  rw [declaredKeys, declaredKeys, Workspace.usedVariables_mapHead hfields hextra,
    Workspace.developerVariables_mapHead fun b _ => hdeveloper b.head]

end Generator
end Blockwright
