import Blockwright.Generator
import Blockwright.Proofs.Emit.Ends
import Blockwright.Proofs.Emit.Steps
import Blockwright.Proofs.Text.Annotated
/-!
# Statements end their line

Every standard emitter but that of definitions leaves something in place: a value, or statements whose last
line ends with a line feed. So what is written behind statements begins a line of its own. The emitters of
statements proper never leave a value.
-/

namespace Blockwright

open Text

namespace Result

/-- Statements that end their last line. -/
def Lines (r : Result) : Prop := ∃ code, r = .statement code ∧ endsLine code = true

/-- A value, or statements that end their last line. -/
def Lined (r : Result) : Prop := (∃ code order, r = .value code order) ∨ r.Lines

end Result

namespace Emit

/-- Whatever the action gives satisfies `P`. -/
def Leaves (P : Result → Prop) (x : Emit Result) : Prop := ∀ settings p r q, x.run settings p = (.ok r, q) → P r

namespace Leaves

variable {P : Result → Prop}

theorem pure {r : Result} (h : P r) : Leaves P (Pure.pure r) := by
  rintro settings p _ q ⟨⟩
  exact h

theorem throw (f : Failure) : Leaves P (MonadExcept.throw f) := by
  rintro settings p r q ⟨⟩

theorem bind {α : Type} {x : Emit α} {f : α → Emit Result} (h : ∀ a, Leaves P (f a)) : Leaves P (x >>= f) := by
  intro settings p r q hrun
  obtain ⟨a, p', -, hf⟩ := run_bind_eq_ok_iff.1 hrun
  exact h a settings p' r q hf

theorem value (code : String) (order : Order) : Leaves Result.Lined (Pure.pure (.value code order)) :=
  pure (.inl ⟨code, order, rfl⟩)

theorem line {code : String} (h : endsLine code = true) : Leaves Result.Lines (Pure.pure (.statement code)) :=
  pure ⟨code, rfl, h⟩

/-- Code with a last line that is known. -/
theorem ending (front : String) {last : String} (h : endsLine last = true) :
    Leaves Result.Lines (Pure.pure (.statement (front ++ last))) :=
  line (endsLine_append front h)

theorem lined {x : Emit Result} (h : Leaves Result.Lines x) : Leaves Result.Lined x :=
  fun settings p r q hrun => .inr (h settings p r q hrun)

end Leaves

/-! ## Conditions -/

theorem lines_controlsIf (s : Site) : Leaves Result.Lines (controlsIf s) := by
  refine .bind fun branches => ?_
  dsimp only
  split
  · exact .bind fun body => .ending _ (by decide)
  · exact .ending _ (by decide)

theorem lined_logicCompare (s : Site) : Leaves Result.Lined (logicCompare s) := by
  unfold logicCompare
  split
  · exact .bind fun a => .bind fun b => .value _ _
  · exact .throw _

theorem lined_logicOperation (s : Site) : Leaves Result.Lined (logicOperation s) := by
  unfold logicOperation
  split
  · refine .bind fun a => .bind fun b => ?_
    split
    · exact .value _ _
    · exact .value _ _
  · exact .throw _

theorem lined_logicNegate (s : Site) : Leaves Result.Lined (logicNegate s) := .bind fun _ => .value _ _

theorem lined_logicTernary (s : Site) : Leaves Result.Lined (logicTernary s) :=
  .bind fun _ => .bind fun _ => .bind fun _ => .value _ _

theorem lined_logic (s : Site) : ∀ e ∈ logic, Leaves Result.Lined (e.2 s) := by
  simp only [logic, List.forall_mem_cons]
  exact ⟨(lines_controlsIf s).lined, (lines_controlsIf s).lined, lined_logicCompare s, lined_logicOperation s,
    lined_logicNegate s, .value _ _, .value _ _, lined_logicTernary s, by simp⟩

/-! ## Loops -/

theorem lines_controlsRepeat (s : Site) : Leaves Result.Lines (controlsRepeat s) :=
  .bind fun _ => .bind fun _ => .bind fun _ => .bind fun _ => .ending _ (by decide)

theorem lines_controlsWhileUntil (s : Site) : Leaves Result.Lines (controlsWhileUntil s) := by
  unfold controlsWhileUntil
  dsimp only
  split
  · exact .throw _
  · exact .bind fun condition => .bind fun body => .ending _ (by decide)

theorem lines_controlsFor (s : Site) : Leaves Result.Lines (controlsFor s) := by
  refine .bind fun v => .bind fun start => .bind fun stop => .bind fun step => .bind fun body => ?_
  split
  · exact .ending _ (by decide)
  · exact .bind fun _ => .bind fun _ => .bind fun inc => .bind fun indent => .ending _ (by decide)

theorem lines_controlsForEach (s : Site) : Leaves Result.Lines (controlsForEach s) := by
  refine .bind fun v => .bind fun list => .bind fun body => ?_
  extract_lets loop
  have hloop : ∀ r, Leaves Result.Lines (loop r) :=
    fun r => .bind fun indexVar => .bind fun indent => .ending _ (by decide)
  split
  · exact .bind hloop
  · exact .bind fun name => .bind hloop

theorem lines_controlsFlow (s : Site) : Leaves Result.Lines (controlsFlow s) := by
  unfold controlsFlow
  split
  · exact .line (by decide)
  · exact .line (by decide)
  · exact .throw _

theorem lined_loops (s : Site) : ∀ e ∈ loops, Leaves Result.Lined (e.2 s) := by
  simp only [loops, List.forall_mem_cons]
  exact ⟨(lines_controlsRepeat s).lined, (lines_controlsRepeat s).lined, (lines_controlsWhileUntil s).lined,
    (lines_controlsFor s).lined, (lines_controlsForEach s).lined, (lines_controlsFlow s).lined, by simp⟩

/-! ## Numbers -/

theorem lined_mathNumber (s : Site) : Leaves Result.Lined (mathNumber s) := by
  unfold mathNumber
  extract_lets text
  split
  · exact .value _ _
  · split
    · exact .value _ _
    · exact .throw _

theorem lined_mathArithmetic (s : Site) : Leaves Result.Lined (mathArithmetic s) := by
  unfold mathArithmetic
  split
  · refine .bind fun a => .bind fun b => ?_
    split
    · exact .value _ _
    · exact .value _ _
  · exact .throw _

theorem lined_mathSingle (s : Site) : Leaves Result.Lined (mathSingle s) := by
  unfold mathSingle
  extract_lets op
  split
  · exact .bind fun code => .value _ _
  · split
    · exact .bind fun code => .value _ _
    · exact .bind fun code => .value _ _
    · exact .throw _

theorem lined_mathConstant (s : Site) : Leaves Result.Lined (mathConstant s) := by
  unfold mathConstant
  split
  · exact .value _ _
  · exact .throw _

theorem lined_mathNumberProperty (s : Site) : Leaves Result.Lined (mathNumberProperty s) := by
  refine .bind fun code => ?_
  split
  · exact .bind fun fn => .value _ _
  · exact .bind fun divisor => .value _ _
  · split
    · exact .value _ _
    · exact .throw _

theorem lines_mathChange (s : Site) : Leaves Result.Lines (mathChange s) :=
  .bind fun _ => .bind fun _ => .ending _ (by decide)

theorem lined_mathOnList (s : Site) : Leaves Result.Lined (mathOnList s) := by
  unfold mathOnList
  split
  · exact .bind fun fn => .bind fun list => .value _ _
  · exact .throw _

theorem lined_mathModulo (s : Site) : Leaves Result.Lined (mathModulo s) := .bind fun _ => .bind fun _ => .value _ _

theorem lined_mathConstrain (s : Site) : Leaves Result.Lined (mathConstrain s) :=
  .bind fun _ => .bind fun _ => .bind fun _ => .value _ _

theorem lined_mathRandomInt (s : Site) : Leaves Result.Lined (mathRandomInt s) :=
  .bind fun _ => .bind fun _ => .bind fun _ => .value _ _

theorem lined_mathAtan2 (s : Site) : Leaves Result.Lined (mathAtan2 s) := .bind fun _ => .bind fun _ => .value _ _

theorem lined_math (s : Site) : ∀ e ∈ math, Leaves Result.Lined (e.2 s) := by
  simp only [math, List.forall_mem_cons]
  exact ⟨lined_mathNumber s, lined_mathArithmetic s, lined_mathSingle s, lined_mathSingle s, lined_mathSingle s,
    lined_mathConstant s, lined_mathNumberProperty s, (lines_mathChange s).lined, lined_mathOnList s,
    lined_mathModulo s, lined_mathConstrain s, lined_mathRandomInt s, .value _ _, lined_mathAtan2 s, by simp⟩

/-! ## Lists -/

theorem lined_listsCreateWith (s : Site) : Leaves Result.Lined (listsCreateWith s) := .bind fun _ => .value _ _

theorem lined_listsRepeat (s : Site) : Leaves Result.Lined (listsRepeat s) :=
  .bind fun _ => .bind fun _ => .bind fun _ => .value _ _

theorem lined_listsLength (s : Site) : Leaves Result.Lined (listsLength s) := .bind fun _ => .value _ _

theorem lined_listsIsEmpty (s : Site) : Leaves Result.Lined (listsIsEmpty s) := .bind fun _ => .value _ _

theorem lined_indexOf (fallback : String) (s : Site) : Leaves Result.Lined (indexOf fallback s) := by
  unfold indexOf
  split
  · refine .bind fun item => .bind fun sequence => .bind fun oneBased => ?_
    split
    · exact .value _ _
    · exact .value _ _
  · exact .throw _

theorem lined_taken (s : Site) (mode get : String) (getOrder : Order) (remove : String) (removeOrder : Order) :
    Leaves Result.Lined (taken s mode get getOrder remove removeOrder) := by
  unfold taken
  split
  · exact .value _ _
  · exact .value _ _
  · exact (Leaves.ending _ (by decide)).lined
  · exact .throw _

theorem lined_listsGetIndex (s : Site) : Leaves Result.Lined (listsGetIndex s) := by
  refine .bind fun list => ?_
  dsimp only
  split
  · exact lined_taken _ _ _ _ _ _
  · exact lined_taken _ _ _ _ _ _
  · refine .bind fun i => ?_
    split
    · exact .value _ _
    · exact .value _ _
    · exact (Leaves.ending _ (by decide)).lined
    · exact .throw _
  · refine .bind fun i => ?_
    split
    · exact .value _ _
    · exact .value _ _
    · exact (Leaves.ending _ (by decide)).lined
    · exact .throw _
  · exact .bind fun fn => lined_taken _ _ _ _ _ _
  · exact .throw _

theorem lines_placed (before list mode i item : String) :
    Leaves Result.Lines (pure (placed before list mode i item)) := by
  unfold placed
  split
  · exact .ending _ (by decide)
  · exact .ending _ (by decide)

theorem lines_listsSetIndex (s : Site) : Leaves Result.Lines (listsSetIndex s) := by
  refine .bind fun list => .bind fun item => ?_
  dsimp only
  split
  · split
    · exact .ending _ (by decide)
    · exact .ending _ (by decide)
    · exact .throw _
  · split
    · exact .bind fun _ => lines_placed _ _ _ _ _
    · exact .ending _ (by decide)
    · exact .throw _
  · refine .bind fun i => ?_
    split
    · exact lines_placed _ _ _ _ _
    · exact .throw _
  · refine .bind fun i => ?_
    split
    · exact .bind fun _ => lines_placed _ _ _ _ _
    · exact .throw _
  · split
    · exact .bind fun _ => .bind fun x => lines_placed _ _ _ _ _
    · exact .throw _
  · exact .throw _

theorem lined_listsGetSublist (s : Site) : Leaves Result.Lined (listsGetSublist s) := by
  refine .bind fun list => ?_
  dsimp only
  split
  · exact .bind fun code => .value _ _
  · split
    · exact .bind fun code => .value _ _
    · exact .bind fun code => .value _ _

theorem lined_listsSort (s : Site) : Leaves Result.Lined (listsSort s) := by
  refine .bind fun list => ?_
  dsimp only
  split
  · exact .bind fun fn => .value _ _
  · exact .throw _

theorem lined_listsSplit (s : Site) : Leaves Result.Lined (listsSplit s) := by
  refine .bind fun input => .bind fun delimiter => ?_
  split
  · exact .value _ _
  · exact .value _ _
  · exact .throw _

theorem lined_listsReverse (s : Site) : Leaves Result.Lined (listsReverse s) := .bind fun _ => .value _ _

theorem lined_lists (s : Site) : ∀ e ∈ lists, Leaves Result.Lined (e.2 s) := by
  simp only [lists, List.forall_mem_cons]
  exact ⟨.value _ _, lined_listsCreateWith s, lined_listsRepeat s, lined_listsLength s, lined_listsIsEmpty s,
    lined_indexOf _ s, lined_listsGetIndex s, (lines_listsSetIndex s).lined, lined_listsGetSublist s, lined_listsSort s,
    lined_listsSplit s, lined_listsReverse s, by simp⟩

/-! ## Texts -/

theorem lined_textJoin (s : Site) : Leaves Result.Lined (textJoin s) := by
  unfold textJoin
  split
  · exact .value _ _
  · exact .bind fun a => .value _ _
  · exact .bind fun a => .bind fun b => .value _ _
  · exact .bind fun items => .value _ _

theorem lines_textAppend (s : Site) : Leaves Result.Lines (textAppend s) :=
  .bind fun _ => .bind fun _ => .ending _ (by decide)

theorem lined_textLength (s : Site) : Leaves Result.Lined (textLength s) := .bind fun _ => .value _ _

theorem lined_textIsEmpty (s : Site) : Leaves Result.Lined (textIsEmpty s) := .bind fun _ => .value _ _

theorem lined_textCharAt (s : Site) : Leaves Result.Lined (textCharAt s) := by
  refine .bind fun code => ?_
  split
  · exact .value _ _
  · exact .value _ _
  · exact .bind fun i => .value _ _
  · exact .bind fun i => .value _ _
  · exact .bind fun fn => .value _ _
  · exact .throw _

theorem lined_textGetSubstring (s : Site) : Leaves Result.Lined (textGetSubstring s) := by
  refine .bind fun code => ?_
  dsimp only
  split
  · exact .bind fun part => .value _ _
  · split
    · exact .bind fun part => .value _ _
    · exact .bind fun part => .value _ _

theorem lined_textChangeCase (s : Site) : Leaves Result.Lined (textChangeCase s) := by
  unfold textChangeCase
  split
  · exact .bind fun code => .value _ _
  · exact .bind fun code => .value _ _
  · exact .bind fun code => .bind fun fn => .value _ _
  · exact .throw _

theorem lined_textTrim (s : Site) : Leaves Result.Lined (textTrim s) := by
  unfold textTrim
  split
  · exact .bind fun code => .value _ _
  · exact .throw _

theorem lines_textPrint (s : Site) : Leaves Result.Lines (textPrint s) := .bind fun _ => .ending _ (by decide)

theorem lined_textPrompt (s : Site) : Leaves Result.Lined (textPrompt s) := by
  unfold textPrompt
  extract_lets asked
  have hasked : ∀ question, Leaves Result.Lined (asked question) := by
    intro question
    unfold asked
    dsimp only
    split
    · exact .value _ _
    · exact .value _ _
    · exact .value _ _
    · exact .throw _
  split
  · exact .bind hasked
  · exact .bind hasked

theorem lined_textCount (s : Site) : Leaves Result.Lined (textCount s) :=
  .bind fun _ => .bind fun _ => .bind fun _ => .value _ _

theorem lined_textReplace (s : Site) : Leaves Result.Lined (textReplace s) :=
  .bind fun _ => .bind fun _ => .bind fun _ => .bind fun _ => .value _ _

theorem lined_textReverse (s : Site) : Leaves Result.Lined (textReverse s) := .bind fun _ => .value _ _

theorem lined_texts (s : Site) : ∀ e ∈ texts, Leaves Result.Lined (e.2 s) := by
  simp only [texts, List.forall_mem_cons]
  exact ⟨.value _ _, .value _ _, lined_textJoin s, (lines_textAppend s).lined, lined_textLength s, lined_textIsEmpty s,
    lined_indexOf _ s, lined_textCharAt s, lined_textGetSubstring s, lined_textChangeCase s, lined_textTrim s,
    (lines_textPrint s).lined, lined_textPrompt s, lined_textPrompt s, lined_textCount s, lined_textReplace s,
    lined_textReverse s, by simp⟩

/-! ## Procedures -/

theorem lines_proceduresIfReturn (s : Site) : Leaves Result.Lines (proceduresIfReturn s) := by
  refine .bind fun condition => ?_
  extract_lets statement
  have hstatement : ∀ last, Leaves Result.Lines (statement last) :=
    fun last => .bind fun indent => .ending _ (by decide)
  split
  · exact .bind fun code => .bind hstatement
  · exact .bind hstatement

/-- A definition apart. -/
theorem lined_procedures (s : Site) :
    ∀ e ∈ procedures, e.1 ≠ "procedures_defreturn" → e.1 ≠ "procedures_defnoreturn" → Leaves Result.Lined (e.2 s) := by
  simp only [procedures, List.forall_mem_cons]
  refine ⟨fun hne _ => absurd rfl hne, fun _ hne => absurd rfl hne, fun _ _ => ?_, fun _ _ => ?_, fun _ _ => ?_,
    by simp⟩
  · exact .bind fun code => .value _ _
  · exact .bind fun code => (Leaves.ending _ (by decide)).lined
  · exact (lines_proceduresIfReturn s).lined

/-! ## Variables and colours -/

theorem lines_variablesSet (s : Site) : Leaves Result.Lines (variablesSet s) :=
  .bind fun _ => .bind fun _ => .ending _ (by decide)

theorem lines_repeatWhile (s : Site) : Leaves Result.Lines (repeatWhile s) :=
  .bind fun _ => .bind fun _ => .ending _ (by decide)

theorem lined_vars (s : Site) : ∀ e ∈ vars, Leaves Result.Lined (e.2 s) := by
  have hget : Leaves Result.Lined (variablesGet s) := .bind fun v => .value _ _
  have hrandom : Leaves Result.Lined (colourRandom s) := .bind fun fn => .value _ _
  have hrgb : Leaves Result.Lined (colourRgb s) :=
    .bind fun red => .bind fun green => .bind fun blue => .bind fun fn => .value _ _
  have hblend : Leaves Result.Lined (colourBlend s) :=
    .bind fun first => .bind fun second => .bind fun ratio => .bind fun fn => .value _ _
  have hlength : Leaves Result.Lined (stringLength s) := .bind fun code => .value _ _
  simp only [vars, List.forall_mem_cons]
  exact ⟨hget, hget, (lines_variablesSet s).lined, (lines_variablesSet s).lined, .value _ _, hrandom, hrgb, hblend,
    hlength, (lines_repeatWhile s).lined, by simp⟩

/-! ## All kinds -/

/-- What a block that is no definition leaves in place is a value, or statements that end their last line. -/
theorem lined_of_lookup {kind : String} {emitter : Emitter} (hfound : standard.lookup kind = some emitter)
    (hreturn : kind ≠ "procedures_defreturn") (hnoReturn : kind ≠ "procedures_defnoreturn") (s : Site) :
    Leaves Result.Lined (emitter s) := by
  have hall : ∀ e ∈ standard, e.1 ≠ "procedures_defreturn" → e.1 ≠ "procedures_defnoreturn" →
      Leaves Result.Lined (e.2 s) := by
    simp only [standard, List.forall_mem_append]
    exact ⟨⟨⟨⟨⟨⟨fun e he _ _ => lined_logic s e he, fun e he _ _ => lined_loops s e he⟩,
      fun e he _ _ => lined_math s e he⟩, fun e he _ _ => lined_lists s e he⟩, fun e he _ _ => lined_texts s e he⟩,
      lined_procedures s⟩, fun e he _ _ => lined_vars s e he⟩
  exact hall _ (mem_of_lookup hfound) hreturn hnoReturn

end Emit
end Blockwright
