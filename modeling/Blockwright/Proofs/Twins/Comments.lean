import Blockwright.Proofs.Program.Declared
import Blockwright.Proofs.Twins.Program
/-!
# Comments are inert

A workspace and the same workspace without the comments of its blocks give the same program, but for
comment lines, or fail for the same reason. The two passes run in step, and the lines that only the
first one writes are comments.

Comments do get behind code in three ways: behind the brace of a procedure that blocks are chained
to, behind a loop trap that does not end its line, and behind an indentation that is not blank.
-/

namespace Blockwright

open Emit Text

/-- A head without its comment. -/
def Head.uncommented (h : Head) : Head := { h with comment := "" }

/-- A workspace without the comments of its blocks. -/
def Workspace.uncommented (ws : Workspace) : Workspace := ws.mapHead Head.uncommented

/-- Two passes with the same variables, of which the first writes comments. -/
def Pairing.commented (g : Generator) (ws : Workspace) : Pairing where
  settings := g.settings ws
  remark := (isCommentLine · = true)
  first := ws.variableNames
  second := ws.variableNames

namespace Pairing

variable {g : Generator} {ws : Workspace}

theorem fit_commented (hindent : ∀ c ∈ g.indent.toList, isPad c = true)
    (htrap : g.loopTrap = "" ∨ endsLine g.loopTrap = true) : (commented g ws).Fit where
  indent l hl := by
    refine ⟨isCommentLine_indented hindent hl, fun hfeed => ?_⟩
    exact absurd (hindent '\n' hfeed) (by decide)
  loopTrap := htrap

theorem comments_uncommented (b : Block) :
    (commented g ws).Comments (commentLines b) (commentLines (b.mapHead Head.uncommented)) where
  lines := (Block.commentary_commentLines b).lines
  same_or_remarks := .inr ⟨Block.commentLines_of_dropped (fun _ => rfl) b, Block.commentary_commentLines b⟩

end Pairing

/-- What a block of a document holds is no top block. -/
theorem Block.Wired.link_ne_top {classify : Option Classifier} {b c : Block} (h : b.Wired classify) (hc : b.Holds c) :
    c.head.link ≠ .top := by
  rcases hc with ⟨s, hs, hplugged⟩ | hnext
  · rw [h.plugged s hs c hplugged]
    cases s.kind <;> decide
  · rw [h.next c hnext]
    decide

namespace Generator

variable {g : Generator} {ws : Workspace}

/-- Comments are inert in a workspace that was read from a document. The program without its comment
lines does not depend on them, and neither does what a failure says but for the id of its block.
Indentation is blank and a loop trap ends its line, a block that gives a value has nothing chained
behind it, and what is chained behind a definition begins with no comment. -/
theorem generate_uncommented {classify : Option Classifier} {document : Bytes}
    (hdecode : Workspace.decode classify document = .ok ws) (hemitters : g.emitters = standard)
    (hindent : ∀ c ∈ g.indent.toList, isPad c = true) (htrap : g.loopTrap = "" ∨ endsLine g.loopTrap = true)
    (halone : ∀ b ∈ ws.blocks, b.EmitsValue (g.settings ws) → b.next = none)
    (hquiet : ∀ b ∈ ws.blocks, b.head.isDefinition = true → b.head.disabled = false →
      ∀ c, b.next = some c → c.Quiet) :
    ((g.generate ws).mapError GenerateError.reason).map dropComments =
      ((g.generate ws.uncommented).mapError GenerateError.reason).map dropComments := by
  have hblocks : ∀ b ∈ ws.blocks, b.Fits (Pairing.commented g ws) Head.uncommented := by
    intro b hb
    refine ⟨Head.twin_of_same rfl rfl rfl rfl rfl rfl rfl (.inr rfl), Pairing.comments_uncommented b, .inr ?_⟩
    exact ⟨halone b hb, fun c hc => (Workspace.wired_of_decode hdecode b hb).link_ne_top hc, hquiet b hb⟩
  have hkeys : declaredKeys ws.uncommented = declaredKeys ws :=
    declaredKeys_mapHead (fun _ => rfl) (fun _ => rfl) fun _ => rfl
  have hstart : Alike (Pass.Twin (.commented g ws)) ((g.start ws).mapError GenerateError.reason)
      ((g.start ws.uncommented).mapError GenerateError.reason) :=
    start_twin rfl rfl rfl (hkeys ▸ Pairing.sameDeclared_self rfl _)
  have hsettings : g.settings ws.uncommented = (Pairing.commented g ws).settings := rfl
  have htop : ws.uncommented.top = ws.top.map (Block.mapHead Head.uncommented) := rfl
  have htwin := generate_twin hemitters (Pairing.fit_commented hindent htrap) rfl hsettings htop hblocks hstart
  refine (htwin.map ?_).eq
  rintro _ _ ⟨text, text', rfl, rfl, htext⟩
  exact htext.dropComments_tidy

/-! ## A comment in a loop -/

/-- A loop over a block with a comment. -/
def loop (comment : String) : Block :=
  ⟨{ kind := "controls_whileUntil", fields := [⟨"MODE", .ofString "WHILE", false⟩] },
    [⟨"DO", .statement, some ⟨{ kind := "text_print", comment, link := .statement }, [], none⟩⟩], none⟩

/-- A workspace of the loop. -/
def looping (comment : String) : Workspace := { top := [loop comment] }

/-- The document of the loop. -/
def loopingDocument : Bytes := [
  0x7B, 0x22, 0x62, 0x6C, 0x6F, 0x63, 0x6B, 0x73, 0x22, 0x3A, 0x7B, 0x22, 0x62, 0x6C, 0x6F, 0x63, 0x6B, 0x73,
  0x22, 0x3A, 0x5B, 0x7B, 0x22, 0x74, 0x79, 0x70, 0x65, 0x22, 0x3A, 0x22, 0x63, 0x6F, 0x6E, 0x74, 0x72, 0x6F,
  0x6C, 0x73, 0x5F, 0x77, 0x68, 0x69, 0x6C, 0x65, 0x55, 0x6E, 0x74, 0x69, 0x6C, 0x22, 0x2C, 0x22, 0x66, 0x69,
  0x65, 0x6C, 0x64, 0x73, 0x22, 0x3A, 0x7B, 0x22, 0x4D, 0x4F, 0x44, 0x45, 0x22, 0x3A, 0x22, 0x57, 0x48, 0x49,
  0x4C, 0x45, 0x22, 0x7D, 0x2C, 0x22, 0x69, 0x6E, 0x70, 0x75, 0x74, 0x73, 0x22, 0x3A, 0x7B, 0x22, 0x44, 0x4F,
  0x22, 0x3A, 0x7B, 0x22, 0x62, 0x6C, 0x6F, 0x63, 0x6B, 0x22, 0x3A, 0x7B, 0x22, 0x74, 0x79, 0x70, 0x65, 0x22,
  0x3A, 0x22, 0x74, 0x65, 0x78, 0x74, 0x5F, 0x70, 0x72, 0x69, 0x6E, 0x74, 0x22, 0x2C, 0x22, 0x69, 0x63, 0x6F,
  0x6E, 0x73, 0x22, 0x3A, 0x7B, 0x22, 0x63, 0x6F, 0x6D, 0x6D, 0x65, 0x6E, 0x74, 0x22, 0x3A, 0x7B, 0x22, 0x74,
  0x65, 0x78, 0x74, 0x22, 0x3A, 0x22, 0x63, 0x22, 0x7D, 0x7D, 0x7D, 0x7D, 0x7D, 0x7D, 0x5D, 0x7D, 0x7D]

set_option maxRecDepth 4000 in
theorem decode_looping : Workspace.decode none loopingDocument = .ok (looping "c") := by rfl

theorem run_emitTop_singleton {settings : PassSettings} {b : Block} {p q : Pass} {r : Result}
    (h : (b.emit standard false).run settings p = (.ok r, q)) :
    (emitTop standard [b]).run settings p = (.ok (topCode r), q) := by
  have htop : emitTop standard [b] = do
      let result ← b.emit standard false
      let lines ← emitTop standard []
      return topCode result ++ lines := rfl
  rw [htop, run_bind, h, ← List.append_nil (topCode r)]
  rfl

theorem run_looping {settings : PassSettings} {comment body : String} {p : Pass} (hclean : p.failure? = none)
    (hbody : (loopBody ((loop comment).site standard) "DO").run settings p = (.ok body, p)) :
    (emitTop standard (looping comment).top).run settings p =
      (.ok ["while (false) \x7b\n" ++ body ++ "\x7d\n"], p) := by
  have hmode : ((loop comment).site standard).head.field "MODE" = "WHILE" := RawText.text_ofString _
  have hcondition : (((loop comment).site standard).valueOr "BOOL" Order.none "false").run settings p =
      (.ok "false", p) := rfl
  have hloop : (controlsWhileUntil ((loop comment).site standard)).run settings p =
      (.ok (.statement ("while (false) \x7b\n" ++ body ++ "\x7d\n")), p) := by
    unfold controlsWhileUntil
    simp only [hmode]
    rw [if_neg (by decide), run_bind]
    simp only [String.reduceEq, if_false]
    rw [hcondition]
    dsimp only
    rw [run_bind, hbody]
    rfl
  have hdress : ∀ code, (((loop comment).site standard).dress code false).run settings p =
      (.ok ("" ++ code ++ ""), p) := fun _ => rfl
  have hemit : ((loop comment).emit standard false).run settings p =
      (.ok (.statement ("while (false) \x7b\n" ++ body ++ "\x7d\n")), p) := by
    have henabled : (loop comment).head.disabled = false := rfl
    rw [Block.emit_eq, henabled, if_neg Bool.false_ne_true, Site.emit_standard, run_bind, Site.run_bare rfl hloop hclean]
    dsimp only
    rw [run_bind, hdress, String.empty_append, String.append_empty]
    rfl
  have hopens : opens ("while (false) \x7b\n" ++ body ++ "\x7d\n") = true :=
    opens_append (opens_append (by decide : opens "while (false) \x7b\n" = true) body) "\x7d\n"
  have htop : emitTop standard (looping comment).top = emitTop standard [loop comment] := rfl
  rw [htop, run_emitTop_singleton hemit, topCode_statement hopens]

/-- The program of the loop, by the code of its body. -/
theorem generate_looping {g : Generator} (hemitters : g.emitters = standard) {comment body code : String}
    (hbody : ∀ reserved known used ids, (loopBody ((loop comment).site standard) "DO").run (g.settings (looping comment))
      { names := ⟨reserved, known, used, ids, none⟩ } = (.ok body, { names := ⟨reserved, known, used, ids, none⟩ }))
    (htidy : tidy ("" ++ "\n\n\n" ++ ("while (false) \x7b\n" ++ body ++ "\x7d\n")) = code) :
    g.generate (looping comment) = .ok code := by
  have hkeys : declaredKeys (looping comment) = [] := rfl
  have hfailure := failure_startNames g (looping comment)
  have hrun : ∀ n : Names, n.failure = none → (emitTop standard (looping comment).top).run (g.settings (looping comment))
      { names := n } = (.ok ["while (false) \x7b\n" ++ body ++ "\x7d\n"], { names := n }) := by
    rintro ⟨reserved, known, used, ids, failure⟩ hnone
    cases hnone
    exact run_looping (Pass.failure?_eq_none.2 ⟨rfl, rfl⟩) (hbody reserved known used ids)
  rw [← hemitters] at hrun
  rw [generate_eq (start_of_no_keys hkeys) (hrun _ hfailure), ← htidy]
  rfl

theorem blocks_looping : (looping "c").blocks =
    [loop "c", ⟨{ kind := "text_print", comment := "c", link := .statement }, [], none⟩] := rfl

/-- The comment in the loop is a line of its own. -/
theorem looping_uncommented :
    generate {} (looping "c") = .ok "while (false) \x7b\n  // c\n  window.alert('');\n\x7d\n" ∧
      Workspace.decode none loopingDocument = .ok (looping "c") ∧
      ((generate {} (looping "c")).mapError GenerateError.reason).map dropComments =
        ((generate {} (looping "c").uncommented).mapError GenerateError.reason).map dropComments := by
  have hgenerate : generate {} (looping "c") = .ok "while (false) \x7b\n  // c\n  window.alert('');\n\x7d\n" :=
    generate_looping rfl (fun _ _ _ _ => rfl) (by decide +kernel)
  have hindent : ∀ c ∈ ({} : Generator).indent.toList, isPad c = true := by
    intro c hc
    have hspaces : c ∈ [' ', ' '] := hc
    rcases List.mem_pair.1 hspaces with rfl | rfl <;> rfl
  refine ⟨hgenerate, decode_looping, generate_uncommented decode_looping rfl hindent (.inl rfl) ?_ ?_⟩
  · rw [blocks_looping]
    intro b hb _
    rcases List.mem_pair.1 hb with rfl | rfl <;> rfl
  · rw [blocks_looping]
    intro b hb hdefinition
    rcases List.mem_pair.1 hb with rfl | rfl <;> cases hdefinition

/-! ## A comment behind a procedure -/

/-- A procedure and a block with a comment chained to it. -/
def procedure (comment : String) : Block :=
  ⟨{ kind := "procedures_defnoreturn", fields := [⟨"NAME", .ofString "f0", false⟩] }, [],
    some ⟨{ kind := "text_print", comment, link := .next }, [], none⟩⟩

/-- A workspace of the procedure. -/
def trailing (comment : String) : Workspace := { top := [procedure comment] }

/-- The document of the procedure. -/
def trailingDocument : Bytes := [
  0x7B, 0x22, 0x62, 0x6C, 0x6F, 0x63, 0x6B, 0x73, 0x22, 0x3A, 0x7B, 0x22, 0x62, 0x6C, 0x6F, 0x63, 0x6B, 0x73,
  0x22, 0x3A, 0x5B, 0x7B, 0x22, 0x74, 0x79, 0x70, 0x65, 0x22, 0x3A, 0x22, 0x70, 0x72, 0x6F, 0x63, 0x65, 0x64,
  0x75, 0x72, 0x65, 0x73, 0x5F, 0x64, 0x65, 0x66, 0x6E, 0x6F, 0x72, 0x65, 0x74, 0x75, 0x72, 0x6E, 0x22, 0x2C,
  0x22, 0x66, 0x69, 0x65, 0x6C, 0x64, 0x73, 0x22, 0x3A, 0x7B, 0x22, 0x4E, 0x41, 0x4D, 0x45, 0x22, 0x3A, 0x22,
  0x66, 0x30, 0x22, 0x7D, 0x2C, 0x22, 0x6E, 0x65, 0x78, 0x74, 0x22, 0x3A, 0x7B, 0x22, 0x62, 0x6C, 0x6F, 0x63,
  0x6B, 0x22, 0x3A, 0x7B, 0x22, 0x74, 0x79, 0x70, 0x65, 0x22, 0x3A, 0x22, 0x74, 0x65, 0x78, 0x74, 0x5F, 0x70,
  0x72, 0x69, 0x6E, 0x74, 0x22, 0x2C, 0x22, 0x69, 0x63, 0x6F, 0x6E, 0x73, 0x22, 0x3A, 0x7B, 0x22, 0x63, 0x6F,
  0x6D, 0x6D, 0x65, 0x6E, 0x74, 0x22, 0x3A, 0x7B, 0x22, 0x74, 0x65, 0x78, 0x74, 0x22, 0x3A, 0x22, 0x63, 0x22,
  0x7D, 0x7D, 0x7D, 0x7D, 0x7D, 0x5D, 0x7D, 0x7D]

set_option maxRecDepth 4000 in
theorem decode_trailing : Workspace.decode none trailingDocument = .ok (trailing "c") := by rfl

theorem get_trailing (comment : String) :
    ((startNames {} (trailing comment)).get "f0" .procedure).1 = "f0" ∧
      ((startNames {} (trailing comment)).get "f0" .procedure).2.failure = none := by
  have hname : Identifier.ofText ((startNames {} (trailing comment)).resolve "f0" .procedure) = "f0" := by
    rw [Names.resolve, if_neg (by decide), Identifier.ofText, RawText.bytes_ofString, bytesOf_eq]
    decide
  rw [← failure_startNames {} (trailing comment)]
  refine Names.get_of_free (known_startNames {} (trailing comment)) ?_
  rw [hname]
  exact Names.free?_startNames (by decide) rfl rfl

/-- The pass that has defined the procedure. -/
def trailed (n : Names) (next : String) : Pass :=
  { names := n, definitions := [(.ofString "%" ++ .ofString "f0", "function f0() \x7b\n\x7d" ++ next)] }

theorem run_trailing {comment next : String} {n n' : Names} (hfirst : (n.get "f0" .procedure).1 = "f0")
    (hrest : (n.get "f0" .procedure).2 = n') (hclean : n'.failure = none)
    (hnext : ((procedure comment).site standard).nextCode.run (settings {} (trailing comment)) { names := n' } =
      (.ok next, { names := n' })) :
    (emitTop standard (trailing comment).top).run (settings {} (trailing comment)) { names := n } =
      (.ok [], trailed n' next) := by
  have hname : (procedureName (((procedure comment).site standard).head.written "NAME")).run
      (settings {} (trailing comment)) { names := n } = (.ok "f0", { names := n' }) := by
    show (Except.ok (n.get "f0" .procedure).1, ({ names := (n.get "f0" .procedure).2 } : Pass)) = _
    rw [hfirst, hrest]
  have hbody : (loopBody ((procedure comment).site standard) "STACK").run (settings {} (trailing comment))
      { names := n' } = (.ok "", { names := n' }) := rfl
  have hresult : (((procedure comment).site standard).value "RETURN" Order.none).run (settings {} (trailing comment))
      { names := n' } = (.ok "", { names := n' }) := rfl
  have hparams : (((procedure comment).site standard).head.extra.params.mapM fun p =>
      name (paramKey p) .variable : Emit (List String)) = pure [] := rfl
  have hcode : "function " ++ "f0" ++ "(" ++ joinWith ", " [] ++ ") \x7b\n" ++ "" ++ "" ++ "\x7d" =
      "function f0() \x7b\n\x7d" := by decide
  have hdress : (((procedure comment).site standard).dress "function f0() \x7b\n\x7d" false).run
      (settings {} (trailing comment)) { names := n' } =
        (.ok ("" ++ "function f0() \x7b\n\x7d" ++ next), { names := n' }) := by
    show ((((procedure comment).site standard).nextCode >>= fun next =>
      pure ("" ++ "function f0() \x7b\n\x7d" ++ next)) : Emit String).run _ _ = _
    rw [run_bind, hnext]
    rfl
  have hdefine : (proceduresDef ((procedure comment).site standard)).run (settings {} (trailing comment))
      { names := n } = (.ok .handled, trailed n' next) := by
    unfold proceduresDef
    rw [run_bind, hname]
    dsimp only
    rw [run_bind, hbody]
    dsimp only
    rw [run_bind, hresult]
    simp only [if_true]
    rw [hparams, pure_bind, pure_bind, hcode, run_bind, hdress, String.empty_append]
    rfl
  have hemit : ((procedure comment).emit standard false).run (settings {} (trailing comment)) { names := n } =
      (.ok .handled, trailed n' next) := by
    have henabled : (procedure comment).head.disabled = false := rfl
    have hend : (trailed n' next).failure? = none := Pass.failure?_eq_none.2 ⟨rfl, hclean⟩
    rw [Block.emit_eq, henabled, if_neg Bool.false_ne_true, Site.emit_standard, run_bind, Site.run_bare rfl hdefine hend]
    rfl
  have htop : emitTop standard (trailing comment).top = emitTop standard [procedure comment] := rfl
  rw [htop, run_emitTop_singleton hemit]
  rfl

/-- The program of the procedure, by the code of what is chained to it. -/
theorem generate_trailing {comment next code : String}
    (hnext : ∀ reserved known used ids, ((procedure comment).site standard).nextCode.run (settings {} (trailing comment))
      { names := ⟨reserved, known, used, ids, none⟩ } = (.ok next, { names := ⟨reserved, known, used, ids, none⟩ }))
    (htidy : tidy ("function f0() \x7b\n\x7d" ++ next ++ "\n\n\n" ++ "") = code) :
    generate {} (trailing comment) = .ok code := by
  have hkeys : declaredKeys (trailing comment) = [] := rfl
  have hemitters : ({} : Generator).emitters = standard := rfl
  obtain ⟨hname, hfailure⟩ := get_trailing comment
  have hchained : ∀ n : Names, n.failure = none → ((procedure comment).site standard).nextCode.run
      (settings {} (trailing comment)) { names := n } = (.ok next, { names := n }) := by
    rintro ⟨reserved, known, used, ids, failure⟩ hnone
    cases hnone
    exact hnext reserved known used ids
  have hrun := run_trailing hname rfl hfailure (hchained _ hfailure)
  rw [← hemitters] at hrun
  rw [generate_eq (start_of_no_keys hkeys) hrun, ← htidy]
  rfl

/-- Comments show in the program of a workspace, besides in lines of their own. -/
def CommentsShow (g : Generator) (ws : Workspace) : Prop := ∃ code code', g.generate ws = .ok code ∧
  g.generate ws.uncommented = .ok code' ∧ dropComments code ≠ dropComments code'

/-- Comments get behind code: behind the brace of a procedure, behind a loop trap that does not end
its line, and behind an indentation that is not blank. No block of the documents gives a value and has
one chained behind it. -/
theorem comments_behind_code :
    (Workspace.decode none trailingDocument = .ok (trailing "c") ∧
      (∀ b ∈ (trailing "c").blocks, b.EmitsValue (settings {} (trailing "c")) → b.next = none) ∧
      CommentsShow {} (trailing "c")) ∧
    Workspace.decode none loopingDocument = .ok (looping "c") ∧ (∀ b ∈ (looping "c").blocks, b.next = none) ∧
      CommentsShow { loopTrap := "trap();" } (looping "c") ∧ CommentsShow { indent := "> " } (looping "c") := by
  refine ⟨⟨decode_trailing, fun b hb hvalue => ?_, "function f0() \x7b\n\x7d// c\nwindow.alert('');\n",
    "function f0() \x7b\n\x7dwindow.alert('');\n", ?_, ?_, by decide +kernel⟩, decode_looping, fun b hb => ?_,
    ⟨"while (false) \x7b\n  trap();  // c\n  window.alert('');\n\x7d\n",
      "while (false) \x7b\n  trap();  window.alert('');\n\x7d\n", ?_, ?_, by decide +kernel⟩,
    "while (false) \x7b\n> // c\n> window.alert('');\n\x7d\n", "while (false) \x7b\n> window.alert('');\n\x7d\n",
    ?_, ?_, by decide +kernel⟩
  · have hblocks : (trailing "c").blocks =
        [procedure "c", ⟨{ kind := "text_print", comment := "c", link := .next }, [], none⟩] := rfl
    rw [hblocks] at hb
    rcases List.mem_pair.1 hb with rfl | rfl
    · exact absurd hvalue (Block.not_emitsValue_of_isDefinition rfl)
    · rfl
  · exact generate_trailing (fun _ _ _ _ => rfl) (by decide +kernel)
  · exact generate_trailing (fun _ _ _ _ => rfl) (by decide +kernel)
  · rw [blocks_looping] at hb
    rcases List.mem_pair.1 hb with rfl | rfl <;> rfl
  · exact generate_looping rfl (fun _ _ _ _ => rfl) (by decide +kernel)
  · exact generate_looping rfl (fun _ _ _ _ => rfl) (by decide +kernel)
  · exact generate_looping rfl (fun _ _ _ _ => rfl) (by decide +kernel)
  · exact generate_looping rfl (fun _ _ _ _ => rfl) (by decide +kernel)

end Generator
end Blockwright
