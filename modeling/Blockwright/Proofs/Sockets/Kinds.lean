import Mathlib.Data.List.Forall2
import Blockwright.Generator
import Blockwright.Proofs.Sockets.Emitters
/-!
# The sockets of the standard kinds

One table names the sockets that the emitter of each standard kind reads. It has the order of the
emitters, so that the two are compared entry by entry.
-/

namespace Blockwright

/-- The sockets of a kind that are read for a value, and those that are read for statements. -/
structure KindSockets where
  kind : String
  values : List SocketName := []
  statements : List SocketName := []

namespace KindSockets

/-- The kinds of conditions. -/
def logic : List KindSockets := [
  { kind := "controls_if", values := [.numbered "IF"], statements := [.numbered "DO", "ELSE"] },
  { kind := "controls_ifelse", values := [.numbered "IF"], statements := [.numbered "DO", "ELSE"] },
  { kind := "logic_compare", values := ["A", "B"] }, { kind := "logic_operation", values := ["A", "B"] },
  { kind := "logic_negate", values := ["BOOL"] }, { kind := "logic_boolean" }, { kind := "logic_null" },
  { kind := "logic_ternary", values := ["IF", "THEN", "ELSE"] }]

/-- The kinds of loops. -/
def loops : List KindSockets := [
  { kind := "controls_repeat_ext", values := ["TIMES"], statements := ["DO"] },
  { kind := "controls_repeat", values := ["TIMES"], statements := ["DO"] },
  { kind := "controls_whileUntil", values := ["BOOL"], statements := ["DO"] },
  { kind := "controls_for", values := ["FROM", "TO", "BY"], statements := ["DO"] },
  { kind := "controls_forEach", values := ["LIST"], statements := ["DO"] }, { kind := "controls_flow_statements" }]

/-- The kinds on numbers. -/
def math : List KindSockets := [
  { kind := "math_number" }, { kind := "math_arithmetic", values := ["A", "B"] },
  { kind := "math_single", values := ["NUM"] }, { kind := "math_round", values := ["NUM"] },
  { kind := "math_trig", values := ["NUM"] }, { kind := "math_constant" },
  { kind := "math_number_property", values := ["NUMBER_TO_CHECK", "DIVISOR"] },
  { kind := "math_change", values := ["DELTA"] }, { kind := "math_on_list", values := ["LIST"] },
  { kind := "math_modulo", values := ["DIVIDEND", "DIVISOR"] },
  { kind := "math_constrain", values := ["VALUE", "LOW", "HIGH"] },
  { kind := "math_random_int", values := ["FROM", "TO"] }, { kind := "math_random_float" },
  { kind := "math_atan2", values := ["X", "Y"] }]

/-- The kinds on lists. -/
def lists : List KindSockets := [
  { kind := "lists_create_empty" }, { kind := "lists_create_with", values := [.numbered "ADD"] },
  { kind := "lists_repeat", values := ["ITEM", "NUM"] }, { kind := "lists_length", values := ["VALUE"] },
  { kind := "lists_isEmpty", values := ["VALUE"] }, { kind := "lists_indexOf", values := ["FIND", "VALUE"] },
  { kind := "lists_getIndex", values := ["VALUE", "AT"] },
  { kind := "lists_setIndex", values := ["LIST", "TO", "AT"] },
  { kind := "lists_getSublist", values := ["LIST", "AT1", "AT2"] }, { kind := "lists_sort", values := ["LIST"] },
  { kind := "lists_split", values := ["INPUT", "DELIM"] }, { kind := "lists_reverse", values := ["LIST"] }]

/-- The kinds on texts. -/
def texts : List KindSockets := [
  { kind := "text" }, { kind := "text_multiline" }, { kind := "text_join", values := [.numbered "ADD"] },
  { kind := "text_append", values := ["TEXT"] }, { kind := "text_length", values := ["VALUE"] },
  { kind := "text_isEmpty", values := ["VALUE"] }, { kind := "text_indexOf", values := ["FIND", "VALUE"] },
  { kind := "text_charAt", values := ["VALUE", "AT"] },
  { kind := "text_getSubstring", values := ["STRING", "AT1", "AT2"] },
  { kind := "text_changeCase", values := ["TEXT"] }, { kind := "text_trim", values := ["TEXT"] },
  { kind := "text_print", values := ["TEXT"] }, { kind := "text_prompt", values := ["TEXT"] },
  { kind := "text_prompt_ext", values := ["TEXT"] }, { kind := "text_count", values := ["TEXT", "SUB"] },
  { kind := "text_replace", values := ["TEXT", "FROM", "TO"] }, { kind := "text_reverse", values := ["TEXT"] }]

/-- The kinds of procedures. -/
def procedures : List KindSockets := [
  { kind := "procedures_defreturn", values := ["RETURN"], statements := ["STACK"] },
  { kind := "procedures_defnoreturn", values := ["RETURN"], statements := ["STACK"] },
  { kind := "procedures_callreturn", values := [.numbered "ARG"] },
  { kind := "procedures_callnoreturn", values := [.numbered "ARG"] },
  { kind := "procedures_ifreturn", values := ["CONDITION", "VALUE"] }]

/-- The kinds of variables and colours, and the two custom kinds. -/
def vars : List KindSockets := [
  { kind := "variables_get" }, { kind := "variables_get_dynamic" }, { kind := "variables_set", values := ["VALUE"] },
  { kind := "variables_set_dynamic", values := ["VALUE"] }, { kind := "colour_picker" }, { kind := "colour_random" },
  { kind := "colour_rgb", values := ["RED", "GREEN", "BLUE"] },
  { kind := "colour_blend", values := ["COLOUR1", "COLOUR2", "RATIO"] },
  { kind := "string_length", values := ["VALUE"] },
  { kind := "repeat_while", values := ["COND"], statements := ["BODY"] }]

/-- All standard kinds, in the order of their emitters. -/
def standard : List KindSockets := logic ++ loops ++ math ++ lists ++ texts ++ procedures ++ vars

/-- An emitter reads the sockets that are named for its kind. -/
def ReadBy (entry : String × Emitter) (k : KindSockets) : Prop :=
  entry.1 = k.kind ∧ Emit.Reads k.values k.statements entry.2

end KindSockets

namespace Emit

open List KindSockets

theorem logic_readBy : Forall₂ ReadBy Emit.logic KindSockets.logic := by
  simp only [Emit.logic, KindSockets.logic, forall₂_cons, ReadBy, true_and, Forall₂.nil, and_true]
  exact ⟨reads_controlsIf, reads_controlsIf, reads_logicCompare, reads_logicOperation, reads_logicNegate,
    reads_logicBoolean, reads_logicNull, reads_logicTernary⟩

theorem loops_readBy : Forall₂ ReadBy Emit.loops KindSockets.loops := by
  simp only [Emit.loops, KindSockets.loops, forall₂_cons, ReadBy, true_and, Forall₂.nil, and_true]
  exact ⟨reads_controlsRepeat, reads_controlsRepeat, reads_controlsWhileUntil, reads_controlsFor,
    reads_controlsForEach, reads_controlsFlow⟩

theorem math_readBy : Forall₂ ReadBy Emit.math KindSockets.math := by
  simp only [Emit.math, KindSockets.math, forall₂_cons, ReadBy, true_and, Forall₂.nil, and_true]
  exact ⟨reads_mathNumber, reads_mathArithmetic, reads_mathSingle, reads_mathSingle, reads_mathSingle,
    reads_mathConstant, reads_mathNumberProperty, reads_mathChange, reads_mathOnList, reads_mathModulo,
    reads_mathConstrain, reads_mathRandomInt, reads_mathRandomFloat, reads_mathAtan2⟩

theorem lists_readBy : Forall₂ ReadBy Emit.lists KindSockets.lists := by
  simp only [Emit.lists, KindSockets.lists, forall₂_cons, ReadBy, true_and, Forall₂.nil, and_true]
  exact ⟨reads_listsCreateEmpty, reads_listsCreateWith, reads_listsRepeat, reads_listsLength, reads_listsIsEmpty,
    reads_indexOf _, reads_listsGetIndex, reads_listsSetIndex, reads_listsGetSublist, reads_listsSort,
    reads_listsSplit, reads_listsReverse⟩

theorem texts_readBy : Forall₂ ReadBy Emit.texts KindSockets.texts := by
  simp only [Emit.texts, KindSockets.texts, forall₂_cons, ReadBy, true_and, Forall₂.nil, and_true]
  exact ⟨reads_text, reads_textMultiline, reads_textJoin, reads_textAppend, reads_textLength, reads_textIsEmpty,
    reads_indexOf _, reads_textCharAt, reads_textGetSubstring, reads_textChangeCase, reads_textTrim, reads_textPrint,
    reads_textPrompt, reads_textPrompt, reads_textCount, reads_textReplace, reads_textReverse⟩

theorem procedures_readBy : Forall₂ ReadBy Emit.procedures KindSockets.procedures := by
  simp only [Emit.procedures, KindSockets.procedures, forall₂_cons, ReadBy, true_and, Forall₂.nil, and_true]
  exact ⟨reads_proceduresDef, reads_proceduresDef, reads_proceduresCallReturn, reads_proceduresCallNoReturn,
    reads_proceduresIfReturn⟩

theorem vars_readBy : Forall₂ ReadBy Emit.vars KindSockets.vars := by
  simp only [Emit.vars, KindSockets.vars, forall₂_cons, ReadBy, true_and, Forall₂.nil, and_true]
  exact ⟨reads_variablesGet, reads_variablesGet, reads_variablesSet, reads_variablesSet, reads_colourPicker,
    reads_colourRandom, reads_colourRgb, reads_colourBlend, reads_stringLength, reads_repeatWhile⟩

/-- The emitter of a standard kind reads the sockets that the table names, and no other. -/
theorem standard_readBy : Forall₂ ReadBy Emit.standard KindSockets.standard :=
  rel_append (rel_append (rel_append (rel_append (rel_append (rel_append logic_readBy loops_readBy) math_readBy)
    lists_readBy) texts_readBy) procedures_readBy) vars_readBy

theorem readBy_of_lookup {emitters : Emitters} {kinds : List KindSockets} (h : Forall₂ ReadBy emitters kinds)
    {kind : String} {emitter : Emitter} (hfound : emitters.lookup kind = some emitter) :
    ∃ k ∈ kinds, ReadBy (kind, emitter) k := by
  induction h with
  | nil => cases hfound
  | @cons entry k emitters kinds hk _ ih =>
    rw [List.lookup_cons] at hfound
    split at hfound
    · next hkind =>
      cases hfound
      exact ⟨k, List.mem_cons_self, (eq_of_beq hkind).trans hk.1, hk.2⟩
    · obtain ⟨k', hmem, hread⟩ := ih hfound
      exact ⟨k', List.mem_cons_of_mem _ hmem, hread⟩

/-- The sockets of a standard kind that is emitted are in the table. -/
theorem reads_of_lookup {kind : String} {emitter : Emitter} (h : standard.lookup kind = some emitter) :
    ∃ k ∈ KindSockets.standard, k.kind = kind ∧ Reads k.values k.statements emitter := by
  obtain ⟨k, hmem, hkind, hread⟩ := readBy_of_lookup standard_readBy h
  exact ⟨k, hmem, hkind.symm, hread⟩

end Emit
end Blockwright
