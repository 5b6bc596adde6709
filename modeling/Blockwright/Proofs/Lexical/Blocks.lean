import Blockwright.Proofs.Emit.Lined
import Blockwright.Proofs.Lexical.Values
import Blockwright.Proofs.Loops.Emission
import Blockwright.Proofs.Twins.Comments
/-!
# Blocks give operands

The other standard emitters never give a value. So the emission of a block gives an operand if it gives a
value, where a block that gives a value has nothing chained behind it and nothing that is held passes for a
top block.
-/

namespace Blockwright

open Lexical Emit

variable {settings : PassSettings} {s : Site} {b : Block}

/-! ## Emitters without a value -/

namespace Emit

/-- The action never gives a value. -/
def Valueless (x : Emit Result) : Prop :=
  ∀ settings p code order q, x.run settings p ≠ (.ok (.value code order), q)

theorem Leaves.valueless {x : Emit Result} (h : Leaves Result.Lines x) : Valueless x := by
  intro settings p code order q hrun
  obtain ⟨_, hstatement, -⟩ := h settings p _ q hrun
  cases hstatement

theorem valueless_proceduresDef (s : Site) : Valueless (proceduresDef s) := by
  intro settings p code order q hrun
  have hends := handled_proceduresDef settings s p trivial
  unfold Ends at hends
  rw [hrun] at hends
  cases hends.2

/-! ## All emitters -/

/-- The emitter never gives a value, or it uses operands. -/
def Settled (settings : PassSettings) (s : Site) (emitter : Emitter) : Prop :=
  Valueless (emitter s) ∨ Assures settings (emitter s) Result.Uses

theorem settled_logic (h : s.Fits settings) : ∀ e ∈ logic, Settled settings s e.2 := by
  simp only [logic, List.forall_mem_cons]
  exact ⟨.inl (lines_controlsIf s).valueless, .inl (lines_controlsIf s).valueless, .inr (uses_logicCompare h),
    .inr (uses_logicOperation h), .inr (uses_logicNegate h), .inr (uses_logicBoolean s),
    .inr (.pure (.value isOperand_null)), .inr (uses_logicTernary h), by simp⟩

theorem settled_loops (s : Site) : ∀ e ∈ loops, Settled settings s e.2 := by
  simp only [loops, List.forall_mem_cons]
  exact ⟨.inl (lines_controlsRepeat s).valueless, .inl (lines_controlsRepeat s).valueless,
    .inl (lines_controlsWhileUntil s).valueless, .inl (lines_controlsFor s).valueless,
    .inl (lines_controlsForEach s).valueless, .inl (lines_controlsFlow s).valueless, by simp⟩

theorem settled_math (h : s.Fits settings) : ∀ e ∈ math, Settled settings s e.2 := by
  have hrandom : IsOperand "Math.random()" := isOperand_lit _ _ (by decide)
  simp only [math, List.forall_mem_cons]
  exact ⟨.inr (uses_mathNumber s), .inr (uses_mathArithmetic h), .inr (uses_mathSingle h), .inr (uses_mathSingle h),
    .inr (uses_mathSingle h), .inr (uses_mathConstant s), .inr (uses_mathNumberProperty h),
    .inl (lines_mathChange s).valueless, .inr (uses_mathOnList h), .inr (uses_mathModulo h), .inr (uses_mathConstrain h), .inr (uses_mathRandomInt h),
    .inr (.pure (.value hrandom)), .inr (uses_mathAtan2 h), by simp⟩

theorem settled_lists (h : s.Fits settings) : ∀ e ∈ lists, Settled settings s e.2 := by
  simp only [lists, List.forall_mem_cons]
  exact ⟨.inr (.pure (.value isOperand_noItems)), .inr (uses_listsCreateWith h), .inr (uses_listsRepeat h),
    .inr (uses_listsLength h), .inr (uses_listsIsEmpty h), .inr (uses_indexOf h isOperand_noItems),
    .inr (uses_listsGetIndex h), .inl (lines_listsSetIndex s).valueless, .inr (uses_listsGetSublist h),
    .inr (uses_listsSort h), .inr (uses_listsSplit h), .inr (uses_listsReverse h), by simp⟩

theorem settled_texts (h : s.Fits settings) : ∀ e ∈ texts, Settled settings s e.2 := by
  simp only [texts, List.forall_mem_cons]
  exact ⟨.inr (.pure (.value (isOperand_quote _))), .inr (uses_textMultiline s), .inr (uses_textJoin h),
    .inl (lines_textAppend s).valueless, .inr (uses_textLength h), .inr (uses_textIsEmpty h),
    .inr (uses_indexOf h isOperand_noText), .inr (uses_textCharAt h), .inr (uses_textGetSubstring h),
    .inr (uses_textChangeCase h), .inr (uses_textTrim h), .inl (lines_textPrint s).valueless, .inr (uses_textPrompt h),
    .inr (uses_textPrompt h), .inr (uses_textCount h), .inr (uses_textReplace h), .inr (uses_textReverse h), by simp⟩

theorem settled_procedures (h : s.Fits settings) : ∀ e ∈ procedures, Settled settings s e.2 := by
  simp only [procedures, List.forall_mem_cons]
  refine ⟨.inl (valueless_proceduresDef s), .inl (valueless_proceduresDef s), .inr ?_, .inr ?_,
    .inl (lines_proceduresIfReturn s).valueless, by simp⟩
  · exact (assures_procedureCall h).bind fun _ => .pure .value
  · exact (assures_procedureCall h).bind fun _ => .pure .statement

theorem settled_vars (h : s.Fits settings) : ∀ e ∈ vars, Settled settings s e.2 := by
  simp only [vars, List.forall_mem_cons]
  exact ⟨.inr (uses_variablesGet s), .inr (uses_variablesGet s), .inl (lines_variablesSet s).valueless,
    .inl (lines_variablesSet s).valueless, .inr (.pure (.value (isOperand_quote _))), .inr (uses_colourRandom s),
    .inr (uses_colourRgb h), .inr (uses_colourBlend h), .inr (uses_stringLength h), .inl (lines_repeatWhile s).valueless,
    by simp⟩

theorem settled_standard (h : s.Fits settings) : ∀ e ∈ standard, Settled settings s e.2 := by
  simp only [standard, List.forall_mem_append]
  exact ⟨⟨⟨⟨⟨⟨settled_logic h, settled_loops s⟩, settled_math h⟩, settled_lists h⟩, settled_texts h⟩,
    settled_procedures h⟩, settled_vars h⟩

end Emit

/-! ## Trees of blocks -/

namespace Block

theorem journaled_emitter (b : Block) {emitter : Emitter} (hfound : standard.lookup b.head.kind = some emitter) :
    Journaled settings Demand.Modest (emitter (b.site standard)) := by
  obtain ⟨l, hdemand, hwithin⟩ := Generator.licensed_standard _ _ hfound (b.site standard)
  refine Journaled.within hwithin hdemand (fun _ _ => b.journaled_plug) fun plug hplug => ?_
  exact (next_site hplug).2 ▸ Generator.licensed_standard.journaled_block _ _

theorem fits_emitter (h : (b.site standard).Fits settings) {emitter : Emitter}
    (hfound : standard.lookup b.head.kind = some emitter) :
    Assures settings (emitter (b.site standard)) Result.Fits := by
  rcases settled_standard h _ (mem_of_lookup hfound) with hvalueless | huses
  · refine (Assures.of_journaled (b.journaled_emitter hfound)).ran.mono ?_
    rintro (_ | code | ⟨code, order⟩) ⟨-, p, q, hrun⟩
    · trivial
    · trivial
    · exact absurd hrun (hvalueless settings p code order q)
  · exact huses.mono fun _ => Result.Uses.fits

/-- What is plugged into the sockets gives operands if all that the block holds does. -/
theorem fits_site (h : ∀ c, b.Holds c → Assures settings (c.emit standard false) Result.Fits) :
    (b.site standard).Fits settings := by
  intro socket plug hplug
  obtain ⟨so, hso, -, hplugged, hemit⟩ := plug?_site hplug
  rw [hemit]
  exact h _ (.inl ⟨so, hso, hplugged⟩)

/-- An enabled block by itself, which is no top block. -/
theorem fits_alone (h : (b.site standard).Fits settings) (hlink : b.head.link ≠ .top) :
    Assures settings ((b.site standard).emit standard true) Result.Fits := by
  refine Assures.bind (Q := Result.Fits) (.inBlock ?_ _) fun r => ?_
  · split
    · next emitter hfound =>
      exact (fits_emitter h hfound).bind fun r => Assures.check.bind fun _ => .pure fun _ hr => hr
    · exact .throw
  · cases r with
    | handled => exact .pure fun _ => trivial
    | statement code => exact .pure fun _ => trivial
    | value code order =>
      dsimp only
      split
      · exact .throw
      · next hvalue =>
        have hlink' : (b.site standard).head.link = .value := by
          by_contra hne
          have htop : (b.site standard).head.link ≠ .top := hlink
          simp [hne, htop] at hvalue
        have hcomments : commentLines (b.site standard).block = "" := if_pos (decide_eq_true hlink')
        simp only [Site.dress, if_pos, pure_bind, hcomments, String.empty_append, String.append_empty]
        exact .pure id

/-- In the tree, links are used as they are meant: a block that gives a value has nothing chained behind it,
and nothing that is held passes for a top block. -/
structure Plain (settings : PassSettings) (b : Block) : Prop where
  alone : ∀ c ∈ b.blocks, c.EmitsValue settings → c.next = none
  linked : ∀ c ∈ b.blocks, ∀ d, c.Holds d → d.head.link ≠ .top

theorem Plain.of_holds {c : Block} (h : b.Plain settings) (hc : b.Holds c) : c.Plain settings :=
  ⟨fun d hd => h.alone d (hc.mem_blocks hd), fun d hd => h.linked d (hc.mem_blocks hd)⟩

/-- A block of a document is plain where values have nothing chained behind them. -/
theorem plain_of_decode {classify : Option Classifier} {document : Bytes} {ws : Workspace}
    (hdecode : Workspace.decode classify document = .ok ws)
    (halone : ∀ c ∈ ws.blocks, c.EmitsValue settings → c.next = none) (hb : b ∈ ws.blocks) : b.Plain settings := by
  have hin : ∀ c ∈ b.blocks, c ∈ ws.blocks := fun c hc => by
    obtain ⟨root, hroot, hmem⟩ := List.mem_flatMap.1 hb
    exact List.mem_flatMap.2 ⟨root, hroot, mem_blocks_trans hmem hc⟩
  exact ⟨fun c hc => halone c (hin c hc), fun c hc d hd => (Workspace.wired_of_decode hdecode c (hin c hc)).link_ne_top hd⟩

theorem fits_emit (h : b.Plain settings) (hlink : b.head.link ≠ .top) (thisOnly : Bool) :
    Assures settings (b.emit standard thisOnly) Result.Fits := by
  induction b using inductionOn generalizing thisOnly with
  | h b ih =>
    have hheld : ∀ c, b.Holds c → Assures settings (c.emit standard false) Result.Fits := fun c hc =>
      ih c hc (h.of_holds hc) (h.linked b b.mem_blocks_self c hc) false
    cases hdisabled : b.head.disabled with
    | true =>
      rw [emit_eq, if_pos hdisabled]
      split
      · exact .pure trivial
      · cases hnext : b.next with
        | none => exact .pure trivial
        | some c => exact hheld c (.inr hnext)
    | false =>
      have hown := fits_alone (fits_site hheld) hlink
      rw [emit_of_enabled hdisabled]
      cases thisOnly with
      | true => exact hown
      | false =>
        rw [Site.emit_false_eq]
        refine hown.ran.bind fun r => ?_
        cases r with
        | handled => exact .pure fun _ => trivial
        | statement code => exact (Assures.of_journaled b.journaled_nextCode).bind fun next => .pure fun _ _ => trivial
        | value code order =>
          refine (Assures.of_journaled b.journaled_nextCode).ran.bind fun next => .pure ?_
          rintro ⟨-, p₁, q₁, hnext⟩ ⟨hcode, p, q, hrun⟩
          have hemits : b.EmitsValue settings := ⟨hdisabled, p, code, order, q, by rwa [emit_of_enabled hdisabled]⟩
          have hnone : (b.site standard).next = none := by
            show nextPlug standard b.next = none
            rw [h.alone b b.mem_blocks_self hemits]
            rfl
          rw [Site.nextCode, hnone] at hnext
          obtain ⟨rfl, -⟩ := run_pure_eq_ok_iff.1 hnext
          rw [String.append_empty]
          exact hcode

theorem Plain.fits_site (h : b.Plain settings) : (b.site standard).Fits settings :=
  Block.fits_site fun c hc => fits_emit (h.of_holds hc) (h.linked b b.mem_blocks_self c hc) false

end Block
end Blockwright
