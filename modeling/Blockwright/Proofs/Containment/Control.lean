import Blockwright.Emit.Helpers
import Blockwright.Emit.Logic
import Blockwright.Emit.Procedures
import Blockwright.Emit.Variables
import Blockwright.Proofs.Containment.Pass
import Blockwright.Proofs.Workspace.Mapped
/-!
# Statements, conditions and helpers are sealed

The emitters of conditions, loops, procedures, variables and colours give back sealed code
wherever what is plugged in does. The bodies of the helpers, with the mark still in place of their
names, are sealed.
-/

/-! ## Helpers are sealed -/

namespace Blockwright.Emit.Helpers

open Scan

/-- The bodies that are the same in every program. -/
def fixed : List (List String) := [
  mathIsPrime, mathSum, mathMin, mathMax, mathMean, mathMedian, mathModes, mathStandardDeviation, mathRandomList,
  mathRandomInt, listsRepeat, listsGetRandomItem, listsGetSortCompare, textRandomLetter, textToTitleCase, textCount,
  textReplace, colourRandom, colourRgb, colourBlend]

theorem sealed_fixed : ∀ body ∈ fixed, Sealed (Text.joinWith "\n" body) := by
  simp only [fixed, List.forall_mem_cons]
  refine ⟨?_, ?_, ?_, ?_, ?_, ?_, ?_, ?_, ?_, ?_, ?_, ?_, ?_, ?_, ?_, ?_, ?_, ?_, ?_, ?_, by simp⟩
  all_goals
    refine Woven.sealed (σ := ?_) ?_ ?_
    rotate_left
    · repeat refine Woven.line (Woven.lit _) ?_
      exact Woven.lit _
    · decide +kernel

/-- A body begins as its first line does. -/
theorem starts_lines {line : String} (h : line.toList.head? = some 'f') (rest : List String) :
    (Text.joinWith "\n" (line :: rest)).toList.head? = some 'f' := by
  cases rest with
  | nil => exact h
  | cons next rest =>
    rw [Text.joinWith, String.toList_append, String.toList_append, List.head?_append, List.head?_append, h]
    rfl

theorem starts_fixed : ∀ body ∈ fixed, (Text.joinWith "\n" body).toList.head? = some 'f' := by
  simp only [fixed, List.forall_mem_cons]
  refine ⟨?_, ?_, ?_, ?_, ?_, ?_, ?_, ?_, ?_, ?_, ?_, ?_, ?_, ?_, ?_, ?_, ?_, ?_, ?_, ?_, by simp⟩
  all_goals exact starts_lines rfl _

theorem sealed_sequenceIndex (place : String) {argument : String} (h : Sealed argument) :
    Sealed (sequenceIndex place argument) := by
  unfold sequenceIndex
  split
  · exact sealed_lit _ (by decide)
  · exact (Woven.lit _ |>.addCode h).sealed (by decide)
  · exact sealed_lit _ (by decide)
  · exact h

theorem sealed_subsequence (place1 place2 : String) : Sealed (Text.joinWith "\n" (subsequence place1 place2)) := by
  have hat1 : Sealed "at1" := sealed_lit _ (by decide)
  have hat2 : Sealed "at2" := sealed_lit _ (by decide)
  have hparam1 : Sealed (if takesIndex place1 then ", at1" else "") :=
    sealed_ite (sealed_lit _ (by decide)) sealed_empty
  have hparam2 : Sealed (if takesIndex place2 then ", at2" else "") :=
    sealed_ite (sealed_lit _ (by decide)) sealed_empty
  refine Woven.sealed (σ := ?σ) ?lines ?back
  case lines =>
    refine Woven.line (Woven.lit _ |>.addCode hparam1 |>.addCode hparam2 |>.addLit _) ?_
    refine Woven.line (Woven.lit _ |>.addCode (sealed_sequenceIndex place1 hat1) |>.addLit _) ?_
    refine Woven.line (Woven.lit _ |>.addCode (sealed_sequenceIndex place2 hat2) |>.addLit _) ?_
    refine Woven.line (Woven.lit _) ?_
    exact Woven.lit _
  case back => decide +kernel

theorem starts_subsequence (place1 place2 : String) :
    (Text.joinWith "\n" (subsequence place1 place2)).toList.head? = some 'f' := by
  refine starts_lines ?_ _
  simp only [String.append_assoc, String.toList_append, List.head?_append]
  rfl

end Blockwright.Emit.Helpers

namespace Blockwright.Emit

open Scan

variable {settings : PassSettings} {s : Site}

/-! ## What stands for something missing -/

theorem sealed_zero : Sealed "0" := sealed_lit _ (by decide)

theorem sealed_false : Sealed "false" := sealed_lit _ (by decide)

theorem sealed_null : Sealed "null" := sealed_lit _ (by decide)

theorem sealed_noItems : Sealed "[]" := sealed_lit _ (by decide)

theorem sealed_noText : Sealed "''" := sealed_lit _ (by decide)

theorem sealed_comma : Sealed ", " := sealed_lit _ (by decide)

/-! ## Conditions -/

theorem safe_ifBranch (hs : settings.Blank) (h : s.Safe settings) (n : Nat) : SafeCode settings (ifBranch s n) := by
  refine (h.valueOr _ _ sealed_false).bind fun condition hc => ?_
  refine (h.statements hs _).bind fun body hb => ?_
  exact .pure <| (Woven.lit _ |>.addCode hc |>.addLit _ |>.addCode hb |>.addLit _).sealed (by decide)

theorem safe_controlsIf (hs : settings.Blank) (h : s.Safe settings) : SafeResult settings (controlsIf s) := by
  have helse : Sealed " else " := sealed_lit _ (by decide)
  refine (Keeps.mapM fun n _ => safe_ifBranch hs h n).bind fun branches hb => ?_
  have hcode := sealed_joinWith helse hb
  dsimp only
  split
  · refine (h.statements hs _).bind fun body hbody => ?_
    exact safe_statement <| (Woven.code hcode |>.addLit _ |>.addCode hbody |>.addLit _).sealed (by decide)
  · exact safe_statement <| (Woven.code hcode |>.addLit _).sealed (by decide)

theorem sealed_comparison : ∀ e ∈ comparisons, Sealed e.2 := by
  simp only [comparisons, List.forall_mem_cons]
  refine ⟨?_, ?_, ?_, ?_, ?_, ?_, by simp⟩
  all_goals exact sealed_lit _ (by decide)

theorem safe_logicCompare (h : s.Safe settings) : SafeResult settings (logicCompare s) := by
  unfold logicCompare
  split
  · next op hop =>
    have hsymbol : Sealed op := sealed_comparison _ (mem_of_lookup hop)
    refine (h.valueOr _ _ sealed_zero).bind fun a ha => ?_
    refine (h.valueOr _ _ sealed_zero).bind fun b hb => ?_
    exact safe_value <| (Woven.code ha |>.addLit _ |>.addCode hsymbol |>.addLit _ |>.addCode hb).sealed (by decide)
  · exact safe_unhandled s "OP"

theorem sealed_logicalOperator : ∀ e ∈ logicalOperators, Sealed e.2.symbol ∧ Sealed e.2.identity := by
  simp only [logicalOperators, List.forall_mem_cons]
  refine ⟨⟨?_, ?_⟩, ⟨?_, ?_⟩, by simp⟩
  all_goals exact sealed_lit _ (by decide)

theorem safe_logicOperation (h : s.Safe settings) : SafeResult settings (logicOperation s) := by
  unfold logicOperation
  split
  · next op hop =>
    obtain ⟨hsymbol, hidentity⟩ := sealed_logicalOperator _ (mem_of_lookup hop)
    refine (h.value _ _).bind fun a ha => ?_
    refine (h.value _ _).bind fun b hb => ?_
    split
    · exact safe_value (sealed_lit _ (by decide))
    · have ha' := sealed_ite (c := a = "") hidentity ha
      have hb' := sealed_ite (c := b = "") hidentity hb
      exact safe_value <| (Woven.code ha' |>.addLit _ |>.addCode hsymbol |>.addLit _ |>.addCode hb').sealed (by decide)
  · exact safe_unhandled s "OP"

theorem safe_logicNegate (h : s.Safe settings) : SafeResult settings (logicNegate s) := by
  have htrue : Sealed "true" := sealed_lit _ (by decide)
  refine (h.valueOr _ _ htrue).bind fun code hc => ?_
  exact safe_value <| (Woven.lit _ |>.addCode hc).sealed (by decide)

theorem safe_logicBoolean (s : Site) : SafeResult settings (logicBoolean s) :=
  safe_value (sealed_ite (sealed_lit _ (by decide)) (sealed_lit _ (by decide)))

theorem safe_logicNull (s : Site) : SafeResult settings (logicNull s) :=
  safe_value (sealed_lit _ (by decide))

theorem safe_logicTernary (h : s.Safe settings) : SafeResult settings (logicTernary s) := by
  refine (h.valueOr _ _ sealed_false).bind fun condition hc => ?_
  refine (h.valueOr _ _ sealed_null).bind fun yes hy => ?_
  refine (h.valueOr _ _ sealed_null).bind fun no hn => ?_
  exact safe_value <| (Woven.code hc |>.addLit _ |>.addCode hy |>.addLit _ |>.addCode hn).sealed (by decide)

theorem safe_logic (hs : settings.Blank) (h : s.Safe settings) : ∀ e ∈ logic, SafeResult settings (e.2 s) := by
  simp only [logic, List.forall_mem_cons]
  exact ⟨safe_controlsIf hs h, safe_controlsIf hs h, safe_logicCompare h, safe_logicOperation h, safe_logicNegate h,
    safe_logicBoolean s, safe_logicNull s, safe_logicTernary h, by simp⟩

/-! ## Loops -/

theorem safe_loopBody (hs : settings.Blank) (h : s.Safe settings) (socket : String) :
    SafeCode settings (loopBody s socket) := by
  refine (h.statements hs socket).bind fun body hb => ?_
  refine Keeps.read.bind fun _ heq => ?_
  rw [heq, if_pos hs.loopTrap]
  exact .pure hb

theorem safe_cached {code : String} (seed : String) (h : Sealed code) :
    Safe settings (cached code seed) fun r => Sealed r.1 ∧ Sealed r.2 := by
  unfold cached
  split
  · exact .pure ⟨sealed_empty, h⟩
  · refine (safe_distinctVariable _).bind fun name hname => ?_
    exact .pure ⟨(Woven.lit _ |>.addCode hname |>.addLit _ |>.addCode h |>.addLit _).sealed (by decide), hname⟩

theorem safe_repeats (h : s.Safe settings) : SafeCode settings (repeats s) := by
  unfold repeats
  split
  · split
    · exact .pure (sealed_format _)
    · exact safe_unhandled s "TIMES"
  · exact h.valueOr _ _ (sealed_lit _ (by decide))

theorem safe_controlsRepeat (hs : settings.Blank) (h : s.Safe settings) : SafeResult settings (controlsRepeat s) := by
  refine (safe_repeats h).bind fun times ht => ?_
  refine (safe_loopBody hs h "DO").bind fun body hb => ?_
  refine (safe_distinctVariable _).bind fun loopVar hv => ?_
  refine (safe_cached _ ht).bind fun ⟨before, endVar⟩ hr => ?_
  exact safe_statement <| (Woven.code hr.1 |>.addLit _ |>.addCode hv |>.addLit _ |>.addCode hv |>.addLit _
    |>.addCode hr.2 |>.addLit _ |>.addCode hv |>.addLit _ |>.addCode hb |>.addLit _).sealed (by decide)

theorem safe_controlsWhileUntil (hs : settings.Blank) (h : s.Safe settings) :
    SafeResult settings (controlsWhileUntil s) := by
  have hnot : Sealed (if (s.head.field "MODE" = "UNTIL") then "!" else "") :=
    sealed_ite (sealed_lit _ (by decide)) sealed_empty
  unfold controlsWhileUntil
  dsimp only
  split
  · exact safe_unhandled s "MODE"
  · refine (h.valueOr _ _ sealed_false).bind fun condition hc => ?_
    refine (safe_loopBody hs h "DO").bind fun body hb => ?_
    exact safe_statement <| (Woven.lit _ |>.addCode hnot |>.addCode hc |>.addLit _
      |>.addCode hb |>.addLit _).sealed (by decide)

theorem sealed_countStep (up : Bool) (step : Double) : Sealed (countStep up step) := by
  refine sealed_ite (sealed_ite (sealed_lit _ (by decide)) (sealed_lit _ (by decide))) ?_
  exact (sealed_ite (sealed_lit _ (by decide)) (sealed_lit _ (by decide))).append (sealed_format step)

theorem sealed_stepSize {step : String} (h : Sealed step) : Sealed (stepSize step) :=
  sealed_ite (sealed_format _) ((Woven.lit _ |>.addCode h |>.addLit _).sealed (by decide))

theorem safe_controlsFor (hs : settings.Blank) (h : s.Safe settings) : SafeResult settings (controlsFor s) := by
  have hone : Sealed "1" := sealed_lit _ (by decide)
  refine (safe_variableName s "VAR").bind fun v hv => ?_
  refine (h.valueOr _ _ sealed_zero).bind fun start hstart => ?_
  refine (h.valueOr _ _ sealed_zero).bind fun stop hstop => ?_
  refine (h.valueOr _ _ hone).bind fun step hstep => ?_
  refine (safe_loopBody hs h "DO").bind fun body hb => ?_
  split
  · have hsign : Sealed (if (literalValue start).le (literalValue stop) then " <= " else " >= ") :=
      sealed_ite (sealed_lit _ (by decide)) (sealed_lit _ (by decide))
    have hcount := sealed_countStep ((literalValue start).le (literalValue stop)) (literalValue step).abs
    exact safe_statement <| (Woven.lit _ |>.addCode hv |>.addLit _ |>.addCode hstart |>.addLit _ |>.addCode hv
      |>.addCode hsign |>.addCode hstop |>.addLit _ |>.addCode hv |>.addCode hcount |>.addLit _ |>.addCode hb
      |>.addLit _).sealed (by decide)
  · refine (safe_cached _ hstart).bind fun ⟨beforeStart, startVar⟩ hfrom => ?_
    refine (safe_cached _ hstop).bind fun ⟨beforeStop, stopVar⟩ hto => ?_
    refine (safe_distinctVariable _).bind fun inc hinc => ?_
    refine Keeps.indent.bind fun indent hi => ?_
    subst hi
    exact safe_statement <| (Woven.code hfrom.1 |>.addCode hto.1 |>.addLit _ |>.addCode hinc |>.addLit _
      |>.addCode (sealed_stepSize hstep) |>.addLit _ |>.addLit _ |>.addCode hfrom.2 |>.addLit _ |>.addCode hto.2
      |>.addLit _ |>.addCode hs.sealed_indent |>.addCode hinc |>.addLit _ |>.addCode hinc |>.addLit _ |>.addLit _
      |>.append (Woven.lit _ |>.addCode hv |>.addLit _ |>.addCode hfrom.2 |>.addLit _ |>.addCode hinc |>.addLit _
        |>.addCode hv |>.addLit _ |>.addCode hto.2 |>.addLit _ |>.addCode hv |>.addLit _ |>.addCode hto.2
        |>.addLit _ |>.addCode hv |>.addLit _ |>.addCode hinc |>.addLit _)
      |>.addCode hb |>.addLit _).sealed (by decide +kernel)

theorem safe_controlsForEach (hs : settings.Blank) (h : s.Safe settings) :
    SafeResult settings (controlsForEach s) := by
  refine (safe_variableName s "VAR").bind fun v hv => ?_
  refine (h.valueOr _ _ sealed_noItems).bind fun list hlist => ?_
  refine (safe_loopBody hs h "DO").bind fun body hb => ?_
  -- the list stays where it is or goes into a variable; the loop behind is the same
  extract_lets loop
  have hloop : ∀ r, Sealed r.1 ∧ Sealed r.2 → SafeResult settings (loop r) := by
    intro r hr
    refine (safe_distinctVariable _).bind fun indexVar hx => ?_
    refine Keeps.indent.bind fun indent hi => ?_
    subst hi
    exact safe_statement <| (Woven.code hr.1 |>.addLit _ |>.addCode hx |>.addLit _ |>.addCode hr.2 |>.addLit _
      |>.addCode hs.sealed_indent |>.addCode hv |>.addLit _ |>.addCode hr.2 |>.addLit _ |>.addCode hx |>.addLit _
      |>.addCode hb |>.addLit _).sealed (by decide)
  split
  · exact (Keeps.pure ⟨sealed_empty, hlist⟩).bind hloop
  · refine (safe_distinctVariable _).bind fun name hname => ?_
    have hbefore : Sealed ("var " ++ name ++ " = " ++ list ++ ";\n") :=
      (Woven.lit _ |>.addCode hname |>.addLit _ |>.addCode hlist |>.addLit _).sealed (by decide)
    exact (Keeps.pure ⟨hbefore, hname⟩).bind hloop

theorem safe_controlsFlow (s : Site) : SafeResult settings (controlsFlow s) := by
  unfold controlsFlow
  split
  · exact safe_statement (sealed_lit _ (by decide))
  · exact safe_statement (sealed_lit _ (by decide))
  · exact safe_unhandled s "FLOW"

theorem safe_repeatWhile (hs : settings.Blank) (h : s.Safe settings) : SafeResult settings (repeatWhile s) := by
  refine (h.valueOr _ _ sealed_false).bind fun condition hc => ?_
  refine (safe_loopBody hs h "BODY").bind fun body hb => ?_
  exact safe_statement <| (Woven.lit _ |>.addCode hb |>.addLit _ |>.addCode hc |>.addLit _).sealed (by decide)

theorem safe_loops (hs : settings.Blank) (h : s.Safe settings) : ∀ e ∈ loops, SafeResult settings (e.2 s) := by
  simp only [loops, List.forall_mem_cons]
  exact ⟨safe_controlsRepeat hs h, safe_controlsRepeat hs h, safe_controlsWhileUntil hs h, safe_controlsFor hs h,
    safe_controlsForEach hs h, safe_controlsFlow s, by simp⟩

/-! ## Procedures -/

theorem safe_numbered (h : s.Safe settings) (start : String) (n : Nat) (order : Order) {fallback : String}
    (hf : Sealed fallback) : Safe settings (numbered s start n order fallback) fun items => ∀ i ∈ items, Sealed i :=
  .mapM fun _ _ => h.valueOr _ _ hf

/-- The comments in front of a definition are whole lines that are not blank either. -/
theorem definable_dress (h : s.Safe settings) {code : String} (hcode : Definable code) :
    Safe settings (s.dress code false) Definable := by
  have hcomments : ∀ next, Text.opens (commentLines s.block ++ code ++ next) = true := by
    intro next
    refine Text.opens_append ?_ next
    rcases (Block.commentary_commentLines s.block).lines with hnone | ⟨hopens, -⟩
    · rw [hnone, String.empty_append]
      exact hcode.opens
    · exact Text.opens_append hopens code
  refine h.nextCode.bind fun next hnext => .pure ⟨?_, hcomments next⟩
  exact ((sealed_commentLines s.block).append hcode.sealed).append hnext

theorem safe_proceduresDef (hs : settings.Blank) (h : s.Safe settings) : SafeResult settings (proceduresDef s) := by
  refine (safe_name _ _).bind fun fn hfn => ?_
  refine (safe_loopBody hs h "STACK").bind fun body hb => ?_
  refine (h.value _ _).bind fun result hr => ?_
  extract_lets definition
  have hdefinition : ∀ last, Sealed last → SafeResult settings (definition last) := by
    intro last hlast
    refine (Keeps.mapM fun _ _ => safe_name _ _).bind fun params hparams => ?_
    have hcode : Sealed ("function " ++ fn ++ "(" ++ Text.joinWith ", " params ++ ") \x7b\n" ++ body ++ last
        ++ "\x7d") :=
      (Woven.lit _ |>.addCode hfn |>.addLit _ |>.addCode (sealed_joinWith sealed_comma hparams) |>.addLit _
        |>.addCode hb |>.addCode hlast |>.addLit _).sealed (by decide)
    have hopens : Text.opens ("function " ++ fn ++ "(" ++ Text.joinWith ", " params ++ ") \x7b\n" ++ body ++ last
        ++ "\x7d") = true := by
      simp only [String.append_assoc]
      exact Text.opens_append (by decide) _
    refine (definable_dress h ⟨hcode, hopens⟩).bind fun code hd => ?_
    refine (safe_define _ hd).bind fun _ _ => ?_
    exact .pure sealed_empty
  split
  · exact (Keeps.pure sealed_empty).bind hdefinition
  · refine Keeps.indent.bind fun indent hi => ?_
    subst hi
    have hlast : Sealed (settings.indent ++ "return " ++ result ++ ";\n") :=
      (Woven.code hs.sealed_indent |>.addLit _ |>.addCode hr |>.addLit _).sealed (by decide)
    exact (Keeps.pure hlast).bind hdefinition

theorem safe_procedureCall (h : s.Safe settings) : SafeCode settings (procedureCall s) := by
  refine (safe_name _ _).bind fun fn hfn => ?_
  refine (safe_numbered h _ _ _ sealed_null).bind fun arguments ha => ?_
  exact .pure <| (Woven.code hfn |>.addLit _
    |>.addCode (sealed_joinWith sealed_comma ha) |>.addLit _).sealed (by decide)

theorem safe_proceduresIfReturn (hs : settings.Blank) (h : s.Safe settings) :
    SafeResult settings (proceduresIfReturn s) := by
  refine (h.valueOr _ _ sealed_false).bind fun condition hc => ?_
  extract_lets statement
  have hstatement : ∀ last, Sealed last → SafeResult settings (statement last) := by
    intro last hlast
    refine Keeps.indent.bind fun indent hi => ?_
    subst hi
    exact safe_statement <| (Woven.lit _ |>.addCode hc |>.addLit _ |>.addCode hs.sealed_indent |>.addCode hlast
      |>.addLit _).sealed (by decide)
  split
  · refine (h.valueOr _ _ sealed_null).bind fun code hcode => ?_
    have hlast : Sealed ("return " ++ code ++ ";\n") := (Woven.lit _ |>.addCode hcode |>.addLit _).sealed (by decide)
    exact (Keeps.pure hlast).bind hstatement
  · have hlast : Sealed "return;\n" := sealed_lit _ (by decide)
    exact (Keeps.pure hlast).bind hstatement

theorem safe_procedures (hs : settings.Blank) (h : s.Safe settings) :
    ∀ e ∈ procedures, SafeResult settings (e.2 s) := by
  simp only [procedures, List.forall_mem_cons]
  refine ⟨safe_proceduresDef hs h, safe_proceduresDef hs h, ?_, ?_, safe_proceduresIfReturn hs h, by simp⟩
  · exact (safe_procedureCall h).bind fun code hc => safe_value hc
  · exact (safe_procedureCall h).bind fun code hc => safe_statement <| (Woven.code hc |>.addLit _).sealed (by decide)

/-! ## Variables and colours -/

theorem safe_variablesSet (h : s.Safe settings) : SafeResult settings (variablesSet s) := by
  refine (h.valueOr _ _ sealed_zero).bind fun code hc => ?_
  refine (safe_variableName s "VAR").bind fun v hv => ?_
  exact safe_statement <| (Woven.code hv |>.addLit _ |>.addCode hc |>.addLit _).sealed (by decide)

theorem safe_fixed (hs : settings.Blank) (desired : String) {body : List String} (h : body ∈ Helpers.fixed) :
    SafeCode settings (provide desired body) :=
  safe_provide hs desired (Helpers.sealed_fixed body h) (Helpers.starts_fixed body h)

theorem safe_colourRandom (hs : settings.Blank) (s : Site) : SafeResult settings (colourRandom s) := by
  refine (safe_fixed hs _ (by simp [Helpers.fixed])).bind fun fn hfn => ?_
  exact safe_value <| (Woven.code hfn |>.addLit _).sealed (by decide)

theorem safe_colourRgb (hs : settings.Blank) (h : s.Safe settings) : SafeResult settings (colourRgb s) := by
  refine (h.valueOr _ _ sealed_zero).bind fun red hr => ?_
  refine (h.valueOr _ _ sealed_zero).bind fun green hg => ?_
  refine (h.valueOr _ _ sealed_zero).bind fun blue hb => ?_
  refine (safe_fixed hs _ (by simp [Helpers.fixed])).bind fun fn hfn => ?_
  exact safe_value <| (Woven.code hfn |>.addLit _ |>.addCode hr |>.addLit _ |>.addCode hg |>.addLit _ |>.addCode hb
    |>.addLit _).sealed (by decide)

theorem safe_colourBlend (hs : settings.Blank) (h : s.Safe settings) : SafeResult settings (colourBlend s) := by
  have hblack : Sealed "'#000000'" := sealed_lit _ (by decide)
  have hhalf : Sealed "0.5" := sealed_lit _ (by decide)
  refine (h.valueOr _ _ hblack).bind fun first h1 => ?_
  refine (h.valueOr _ _ hblack).bind fun second h2 => ?_
  refine (h.valueOr _ _ hhalf).bind fun ratio hr => ?_
  refine (safe_fixed hs _ (by simp [Helpers.fixed])).bind fun fn hfn => ?_
  exact safe_value <| (Woven.code hfn |>.addLit _ |>.addCode h1 |>.addLit _ |>.addCode h2 |>.addLit _ |>.addCode hr
    |>.addLit _).sealed (by decide)

theorem safe_stringLength (h : s.Safe settings) : SafeResult settings (stringLength s) := by
  refine (h.valueOr _ _ sealed_noText).bind fun code hc => ?_
  exact safe_value <| (Woven.code hc |>.addLit _).sealed (by decide)

theorem safe_vars (hs : settings.Blank) (h : s.Safe settings) : ∀ e ∈ vars, SafeResult settings (e.2 s) := by
  have hget : SafeResult settings (variablesGet s) := (safe_variableName s "VAR").bind fun v hv => safe_value hv
  simp only [vars, List.forall_mem_cons]
  exact ⟨hget, hget, safe_variablesSet h, safe_variablesSet h, safe_value (sealed_quote _), safe_colourRandom hs s,
    safe_colourRgb hs h, safe_colourBlend hs h, safe_stringLength h, safe_repeatWhile hs h, by simp⟩

end Blockwright.Emit
