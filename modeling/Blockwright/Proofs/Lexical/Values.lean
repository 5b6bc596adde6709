import Blockwright.Emit.Math
import Blockwright.Emit.Procedures
import Blockwright.Emit.Texts
import Blockwright.Emit.Variables
import Blockwright.Proofs.Lexical.Passes
/-!
# Values are operands

The emitters of values give operands wherever what is plugged in is one. An emitter may use an operand as a
value, or as a statement that drops it.
-/

namespace Blockwright

open Lexical Emit

/-- A result whose code is an operand if it is a value. -/
def Result.Fits : Result → Prop
  | .value code _ => IsOperand code
  | _ => True

/-- A result that uses an operand, as a value or as a statement. -/
inductive Result.Uses : Result → Prop
  | value {code : String} {order : Order} : IsOperand code → Uses (.value code order)
  | statement {code : String} : IsOperand code → Uses (.statement (code ++ ";\n"))

theorem Result.Uses.fits {r : Result} (h : r.Uses) : r.Fits := by
  cases h with
  | value hcode => exact hcode
  | statement => trivial

/-- What is plugged into the sockets gives operands if it gives values. -/
def Site.Fits (settings : PassSettings) (s : Site) : Prop :=
  ∀ socket plug, s.plug? socket = some plug → Assures settings plug.emit Result.Fits

variable {settings : PassSettings} {s : Site}

/-! ## Sockets -/

namespace Lexical

theorem isOperand_zero : IsOperand "0" := isOperand_lit _ _ (by decide)

theorem isOperand_one : IsOperand "1" := isOperand_lit _ _ (by decide)

theorem isOperand_true : IsOperand "true" := isOperand_lit _ _ (by decide)

theorem isOperand_false : IsOperand "false" := isOperand_lit _ _ (by decide)

theorem isOperand_null : IsOperand "null" := isOperand_lit _ _ (by decide)

theorem isOperand_noItems : IsOperand "[]" := isOperand_lit _ _ (by decide)

theorem isOperand_noText : IsOperand "''" := isOperand_lit _ _ (by decide)

/-- Operands in a row between brackets, if there are any. -/
theorem isOperand_enclosed {before : String} {sep after : List Char} {σ : Spot} (hbefore : Woven before σ)
    (hsep : (Spot.behind.read sep).past = .behind) (hnone : (σ.read after).isBehind = true)
    (hsome : (σ.past.read after).isBehind = true) {items : List String} (h : ∀ i ∈ items, IsOperand i) :
    IsOperand (before ++ Text.joinWith (String.ofList sep) items ++ String.ofList after) := by
  cases items with
  | nil =>
    rw [Text.joinWith, String.append_empty]
    exact (hbefore.addLit after).isOperand hnone
  | cons i rest =>
    exact (hbefore.addCode (isOperand_joinWith hsep (List.cons_ne_nil i rest) h) |>.addLit after).isOperand hsome

/-- One argument more, or none. -/
theorem Woven.argument {code : String} (hcode : Woven code .behind) {i : String} (hi : IsOperand i) (c : Prop) [Decidable c] :
    Woven (code ++ if c then ", " ++ i else "") .behind := by
  split
  · rw [← String.append_assoc]
    exact hcode.addLit _ |>.addCode hi
  · rwa [String.append_empty]

end Lexical

namespace Site.Fits

theorem value (h : s.Fits settings) (socket : String) (outer : Order) :
    Assures settings (s.value socket outer) fun code => code = "" ∨ IsOperand code := by
  unfold Site.value
  cases hp : s.plug? socket with
  | none => exact .pure (.inl rfl)
  | some plug =>
    refine (h socket plug hp).bind fun r => ?_
    cases r with
    | handled => exact .pure fun _ => .inl rfl
    | statement code => exact .throw
    | value code order =>
      refine .pure fun hcode => .inr ?_
      have hoperand : IsOperand code := hcode
      rw [if_neg hoperand.ne_empty]
      exact isOperand_wrap hoperand outer order

theorem valueOr (h : s.Fits settings) (socket : String) (outer : Order) {fallback : String}
    (hf : IsOperand fallback) : Assures settings (s.valueOr socket outer fallback) IsOperand := by
  refine (h.value socket outer).bind fun code => .pure fun hcode => ?_
  split
  · exact hf
  · next hne => exact hcode.resolve_left hne

theorem numbered (h : s.Fits settings) (start : String) (n : Nat) (order : Order) {fallback : String}
    (hf : IsOperand fallback) :
    Assures settings (Emit.numbered s start n order fallback) fun items => ∀ i ∈ items, IsOperand i :=
  .mapM fun _ => h.valueOr _ _ hf

end Site.Fits

namespace Emit

theorem Assures.unhandled {α : Type} {Q : α → Prop} (field : String) :
    Assures settings (s.unhandled field : Emit α) Q := .throw

/-! ## Positions -/

theorem isOperand_shiftCode {code : String} (h : IsOperand code) (delta : Int) (negate : Bool) (outer : Order) :
    IsOperand (shiftCode code delta negate outer) := by
  unfold shiftCode
  extract_lets moved
  have hmoved : IsOperand moved := by
    refine isOperand_ite ?_ (isOperand_ite ?_ h)
    · exact (Woven.code h |>.addLit _ |>.addCode (isOperand_ofInt _)).isOperand (by decide)
    · exact (Woven.code h |>.addLit _ |>.addCode (isOperand_ofInt _)).isOperand (by decide)
  refine isOperand_ite (isOperand_wrap (isOperand_ite (isOperand_minus hmoved) ?_) _ _) ?_
  · exact (Woven.lit _ _ |>.addCode hmoved |>.addLit _).isOperand (by decide)
  · exact isOperand_ite (isOperand_wrap hmoved _ _) (isOperand_ite (isOperand_wrap hmoved _ _) hmoved)

theorem assures_index (h : s.Fits settings) (socket : String) (delta : Int) (negate : Bool) (outer : Order) :
    Assures settings (s.index socket delta negate outer) IsOperand := by
  refine (Assures.oneBased s).bind fun oneBased => ?_
  refine (h.valueOr _ _ (isOperand_ite isOperand_one isOperand_zero)).bind fun code => ?_
  split
  · split
    · exact .pure fun _ _ => isOperand_format _
    · exact .throw
  · exact .pure fun hc _ => isOperand_shiftCode hc _ _ _

/-! ## Conditions -/

theorem isOperand_comparison {a b option op : String} (ha : IsOperand a) (hb : IsOperand b)
    (h : (option, op) ∈ comparisons) : IsOperand (a ++ " " ++ op ++ " " ++ b) := by
  have hall : ∀ e ∈ comparisons, IsOperand (a ++ " " ++ e.2 ++ " " ++ b) := by
    simp only [comparisons, List.forall_mem_cons]
    refine ⟨?_, ?_, ?_, ?_, ?_, ?_, by simp⟩
    all_goals exact (Woven.code ha |>.addLit _ |>.addLit _ |>.addLit _ |>.addCode hb).isOperand (by decide)
  exact hall (option, op) h

theorem uses_logicCompare (h : s.Fits settings) : Assures settings (logicCompare s) Result.Uses := by
  unfold logicCompare
  split
  · next op hop =>
    refine (h.valueOr _ _ isOperand_zero).bind fun a => ?_
    refine (h.valueOr _ _ isOperand_zero).bind fun b => ?_
    exact .pure fun hb ha => .value (isOperand_comparison ha hb (mem_of_lookup hop))
  · exact .unhandled "OP"

theorem isOperand_logicalOperator {a b : String} (ha : IsOperand a) (hb : IsOperand b) :
    ∀ e ∈ logicalOperators, IsOperand e.2.identity ∧ IsOperand (a ++ " " ++ e.2.symbol ++ " " ++ b) := by
  simp only [logicalOperators, List.forall_mem_cons]
  refine ⟨⟨isOperand_true, ?_⟩, ⟨isOperand_false, ?_⟩, by simp⟩
  all_goals exact (Woven.code ha |>.addLit _ |>.addLit _ |>.addLit _ |>.addCode hb).isOperand (by decide)

theorem uses_logicOperation (h : s.Fits settings) : Assures settings (logicOperation s) Result.Uses := by
  unfold logicOperation
  split
  · next op hop =>
    have hentry := mem_of_lookup hop
    have hidentity := (isOperand_logicalOperator isOperand_true isOperand_true _ hentry).1
    refine (h.value _ _).bind fun a => ?_
    refine (h.value _ _).bind fun b => ?_
    split
    · exact .pure fun _ _ => .value isOperand_false
    · refine .pure fun hb ha => .value (isOperand_logicalOperator ?_ ?_ _ hentry).2
      · split
        · exact hidentity
        · next hne => exact ha.resolve_left hne
      · split
        · exact hidentity
        · next hne => exact hb.resolve_left hne
  · exact .unhandled "OP"

theorem uses_logicNegate (h : s.Fits settings) : Assures settings (logicNegate s) Result.Uses := by
  refine (h.valueOr _ _ isOperand_true).bind fun code => .pure fun hc => .value ?_
  exact (Woven.lit _ _ |>.addCode hc).isOperand (by decide)

theorem uses_logicBoolean (s : Site) : Assures settings (logicBoolean s) Result.Uses :=
  .pure (.value (isOperand_ite isOperand_true isOperand_false))

theorem uses_logicTernary (h : s.Fits settings) : Assures settings (logicTernary s) Result.Uses := by
  refine (h.valueOr _ _ isOperand_false).bind fun condition => ?_
  refine (h.valueOr _ _ isOperand_null).bind fun yes => ?_
  refine (h.valueOr _ _ isOperand_null).bind fun no => .pure fun hn hy hc => .value ?_
  exact (Woven.code hc |>.addLit _ |>.addCode hy |>.addLit _ |>.addCode hn).isOperand (by decide)

/-! ## Numbers -/

theorem uses_mathNumber (s : Site) : Assures settings (mathNumber s) Result.Uses := by
  unfold mathNumber
  extract_lets text
  split
  · exact .pure (.value isOperand_zero)
  · split
    · exact .pure (.value (isOperand_format _))
    · exact .unhandled "NUM"

theorem isOperand_arithmeticOperator {a b : String} (ha : IsOperand a) (hb : IsOperand b) :
    ∀ e ∈ arithmeticOperators, e.2.1 ≠ "" → IsOperand (a ++ e.2.1 ++ b) := by
  simp only [arithmeticOperators, List.forall_mem_cons]
  refine ⟨fun _ => ?_, fun _ => ?_, fun _ => ?_, fun _ => ?_, fun hne => absurd rfl hne, by simp⟩
  all_goals exact (Woven.code ha |>.addLit _ |>.addCode hb).isOperand (by decide)

theorem uses_mathArithmetic (h : s.Fits settings) : Assures settings (mathArithmetic s) Result.Uses := by
  unfold mathArithmetic
  split
  · next op order hop =>
    refine (h.valueOr _ _ isOperand_zero).bind fun a => ?_
    refine (h.valueOr _ _ isOperand_zero).bind fun b => ?_
    split
    · refine .pure fun hb ha => .value ?_
      exact (Woven.lit _ _ |>.addCode ha |>.addLit _ |>.addCode hb |>.addLit _).isOperand (by decide)
    · next hne => exact .pure fun hb ha => .value (isOperand_arithmeticOperator ha hb _ (mem_of_lookup hop) hne)
  · exact .unhandled "OP"

theorem isOperand_singleCall {code : String} (h : IsOperand code) :
    ∀ e ∈ singleCalls, IsOperand (e.2.1 ++ code ++ e.2.2) := by
  simp only [singleCalls, List.forall_mem_cons]
  refine ⟨?_, ?_, ?_, ?_, ?_, ?_, ?_, ?_, ?_, ?_, ?_, by simp⟩
  all_goals exact (Woven.lit _ _ |>.addCode h |>.addLit _).isOperand (by decide)

theorem isOperand_singleDivision {code : String} (h : IsOperand code) :
    ∀ e ∈ singleDivisions, IsOperand (e.2.1 ++ code ++ e.2.2) := by
  simp only [singleDivisions, List.forall_mem_cons]
  refine ⟨?_, ?_, ?_, ?_, by simp⟩
  all_goals exact (Woven.lit _ _ |>.addCode h |>.addLit _).isOperand (by decide)

theorem uses_mathSingle (h : s.Fits settings) : Assures settings (mathSingle s) Result.Uses := by
  unfold mathSingle
  extract_lets op
  split
  · refine (h.valueOr _ _ isOperand_zero).bind fun code => .pure fun hc => .value ?_
    split
    · exact (Woven.lit _ _ |>.addLit _ |>.addCode hc).isOperand (by decide)
    · rw [String.append_empty]
      exact isOperand_minus hc
  · cases hcall : singleCalls.lookup op with
    | some e =>
      refine (h.valueOr _ _ isOperand_zero).bind fun code => .pure fun hc => .value ?_
      exact isOperand_singleCall hc _ (mem_of_lookup hcall)
    | none =>
      cases hdivision : singleDivisions.lookup op with
      | some e =>
        refine (h.valueOr _ _ isOperand_zero).bind fun code => .pure fun hc => .value ?_
        exact isOperand_singleDivision hc _ (mem_of_lookup hdivision)
      | none => exact .unhandled "OP"

theorem isOperand_constant : ∀ e ∈ constants, IsOperand e.2.1 := by
  simp only [constants, List.forall_mem_cons]
  refine ⟨?_, ?_, ?_, ?_, ?_, ?_, by simp⟩
  all_goals exact isOperand_lit _ _ (by decide)

theorem uses_mathConstant (s : Site) : Assures settings (mathConstant s) Result.Uses := by
  unfold mathConstant
  split
  · next code order hop => exact .pure (.value (isOperand_constant _ (mem_of_lookup hop)))
  · exact .unhandled "CONSTANT"

theorem isOperand_property {code : String} (h : IsOperand code) : ∀ e ∈ properties, IsOperand (code ++ e.2) := by
  simp only [properties, List.forall_mem_cons]
  refine ⟨?_, ?_, ?_, ?_, ?_, by simp⟩
  all_goals exact (Woven.code h |>.addLit _).isOperand (by decide)

theorem uses_mathNumberProperty (h : s.Fits settings) : Assures settings (mathNumberProperty s) Result.Uses := by
  refine (h.valueOr _ _ isOperand_zero).bind fun code => ?_
  split
  · refine (Assures.provide _ _).bind fun fn => .pure fun hfn hc => .value ?_
    exact (Woven.code hfn |>.addLit _ |>.addCode hc |>.addLit _).isOperand (by decide)
  · refine (h.valueOr _ _ isOperand_zero).bind fun divisor => .pure fun hd hc => .value ?_
    exact (Woven.code hc |>.addLit _ |>.addCode hd |>.addLit _).isOperand (by decide)
  · split
    · next test htest => exact .pure fun hc => .value (isOperand_property hc _ (mem_of_lookup htest))
    · exact .unhandled "PROPERTY"

theorem uses_mathOnList (h : s.Fits settings) : Assures settings (mathOnList s) Result.Uses := by
  unfold mathOnList
  split
  · refine (Assures.provide _ _).bind fun fn => ?_
    refine (h.valueOr _ _ isOperand_noItems).bind fun list => .pure fun hl hfn => .value ?_
    exact (Woven.code hfn |>.addLit _ |>.addCode hl |>.addLit _).isOperand (by decide)
  · exact .unhandled "OP"

theorem uses_mathModulo (h : s.Fits settings) : Assures settings (mathModulo s) Result.Uses := by
  refine (h.valueOr _ _ isOperand_zero).bind fun dividend => ?_
  refine (h.valueOr _ _ isOperand_zero).bind fun divisor => .pure fun hb ha => .value ?_
  exact (Woven.code ha |>.addLit _ |>.addCode hb).isOperand (by decide)

theorem uses_mathConstrain (h : s.Fits settings) : Assures settings (mathConstrain s) Result.Uses := by
  have hinfinity : IsOperand "Infinity" := isOperand_lit _ _ (by decide)
  refine (h.valueOr _ _ isOperand_zero).bind fun v => ?_
  refine (h.valueOr _ _ isOperand_zero).bind fun low => ?_
  refine (h.valueOr _ _ hinfinity).bind fun high => .pure fun hh hl hv => .value ?_
  exact (Woven.lit _ _ |>.addCode hv |>.addLit _ |>.addCode hl |>.addLit _ |>.addCode hh |>.addLit _).isOperand (by decide)

theorem uses_mathRandomInt (h : s.Fits settings) : Assures settings (mathRandomInt s) Result.Uses := by
  refine (h.valueOr _ _ isOperand_zero).bind fun low => ?_
  refine (h.valueOr _ _ isOperand_zero).bind fun high => ?_
  refine (Assures.provide _ _).bind fun fn => .pure fun hfn hh hl => .value ?_
  exact (Woven.code hfn |>.addLit _ |>.addCode hl |>.addLit _ |>.addCode hh |>.addLit _).isOperand (by decide)

theorem uses_mathAtan2 (h : s.Fits settings) : Assures settings (mathAtan2 s) Result.Uses := by
  refine (h.valueOr _ _ isOperand_zero).bind fun x => ?_
  refine (h.valueOr _ _ isOperand_zero).bind fun y => .pure fun hy hx => .value ?_
  exact (Woven.lit _ _ |>.addCode hy |>.addLit _ |>.addCode hx |>.addLit _).isOperand (by decide)

/-! ## Lists -/

theorem uses_listsCreateWith (h : s.Fits settings) : Assures settings (listsCreateWith s) Result.Uses := by
  refine (h.numbered _ _ _ isOperand_null).bind fun items => .pure fun hi => .value ?_
  exact isOperand_enclosed (Woven.lit _ _) (by decide) (by decide) (by decide) hi

theorem uses_listsRepeat (h : s.Fits settings) : Assures settings (listsRepeat s) Result.Uses := by
  refine (Assures.provide _ _).bind fun fn => ?_
  refine (h.valueOr _ _ isOperand_null).bind fun item => ?_
  refine (h.valueOr _ _ isOperand_zero).bind fun count => .pure fun hc hi hfn => .value ?_
  exact (Woven.code hfn |>.addLit _ |>.addCode hi |>.addLit _ |>.addCode hc |>.addLit _).isOperand (by decide)

theorem uses_listsLength (h : s.Fits settings) : Assures settings (listsLength s) Result.Uses :=
  (h.valueOr _ _ isOperand_noItems).bind fun _ => .pure fun hl => .value ((Woven.code hl |>.addLit _).isOperand (by decide))

theorem uses_listsIsEmpty (h : s.Fits settings) : Assures settings (listsIsEmpty s) Result.Uses := by
  refine (h.valueOr _ _ isOperand_noItems).bind fun list => .pure fun hl => .value ?_
  exact (Woven.lit _ _ |>.addCode hl |>.addLit _).isOperand (by decide)

theorem uses_indexOf (h : s.Fits settings) {fallback : String} (hf : IsOperand fallback) :
    Assures settings (indexOf fallback s) Result.Uses := by
  have hcode : ∀ {sequence item : String}, IsOperand sequence → IsOperand item →
      ∀ e ∈ [("FIRST", "indexOf"), ("LAST", "lastIndexOf")], IsOperand (sequence ++ "." ++ e.2 ++ "(" ++ item ++ ")") := by
    intro sequence item hq hi
    simp only [List.forall_mem_cons]
    refine ⟨?_, ?_, by simp⟩
    all_goals
      exact (Woven.code hq |>.addLit _ |>.addLit _ |>.addLit _ |>.addCode hi |>.addLit _).isOperand (by decide)
  unfold indexOf
  split
  · next method hmethod =>
    have hentry := mem_of_lookup hmethod
    refine (h.valueOr _ _ isOperand_noText).bind fun item => ?_
    refine (h.valueOr _ _ hf).bind fun sequence => ?_
    have hcall : IsOperand sequence → IsOperand item → IsOperand (sequence ++ "." ++ method ++ "(" ++ item ++ ")") :=
      fun hq hi => hcode hq hi (_, method) hentry
    refine (Assures.oneBased s).bind fun oneBased => ?_
    split
    · exact .pure fun _ hq hi => .value ((Woven.code (hcall hq hi) |>.addLit _).isOperand (by decide))
    · exact .pure fun _ hq hi => .value (hcall hq hi)
  · exact .unhandled "END"

theorem uses_taken {get remove : String} {mode : String} {getOrder removeOrder : Order} {P : Prop}
    (hg : P → IsOperand get) (hr : P → IsOperand remove) :
    Assures settings (taken s mode get getOrder remove removeOrder) fun r => P → r.Uses := by
  unfold taken
  split
  · exact .pure fun h => .value (hg h)
  · exact .pure fun h => .value (hr h)
  · exact .pure fun h => .statement (hr h)
  · exact .unhandled "MODE"

theorem uses_listsGetIndex (h : s.Fits settings) : Assures settings (listsGetIndex s) Result.Uses := by
  refine (h.valueOr _ _ isOperand_noItems).bind fun list => ?_
  have hdropped : ∀ {i : String}, IsOperand i → IsOperand list →
      Result.Uses (.statement (list ++ ".splice(" ++ i ++ ", 1);\n")) := by
    intro i hi hl
    have hend : ", 1);\n" = ", 1)" ++ ";\n" := rfl
    rw [hend, ← String.append_assoc]
    exact .statement ((Woven.code hl |>.addLit _ |>.addCode hi |>.addLit _).isOperand (by decide))
  dsimp only
  split
  · refine uses_taken (fun hl => ?_) fun hl => ?_
    · exact (Woven.code hl |>.addLit _).isOperand (by decide)
    · exact (Woven.code hl |>.addLit _).isOperand (by decide)
  · refine uses_taken (fun hl => ?_) fun hl => ?_
    · exact (Woven.code hl |>.addLit _).isOperand (by decide)
    · exact (Woven.code hl |>.addLit _).isOperand (by decide)
  · refine (assures_index h _ _ _ _).bind fun i => ?_
    split
    · refine .pure fun hi hl => .value ?_
      exact (Woven.code hl |>.addLit _ |>.addCode hi |>.addLit _).isOperand (by decide)
    · refine .pure fun hi hl => .value ?_
      exact (Woven.code hl |>.addLit _ |>.addCode hi |>.addLit _).isOperand (by decide)
    · exact .pure hdropped
    · exact .unhandled "MODE"
  · refine (assures_index h _ _ _ _).bind fun i => ?_
    split
    · refine .pure fun hi hl => .value ?_
      exact (Woven.code hl |>.addLit _ |>.addCode hi |>.addLit _).isOperand (by decide)
    · refine .pure fun hi hl => .value ?_
      exact (Woven.code hl |>.addLit _ |>.addCode hi |>.addLit _).isOperand (by decide)
    · exact .pure hdropped
    · exact .unhandled "MODE"
  · refine (Assures.provide _ _).bind fun fn => ?_
    have hcode : IsOperand fn → IsOperand list →
        IsOperand (fn ++ "(" ++ list ++ ", " ++ Text.ofBool (s.head.fieldOr "MODE" "GET" != "GET") ++ ")") :=
      fun hfn hl => (Woven.code hfn |>.addLit _ |>.addCode hl |>.addLit _
        |>.addCode (isOperand_ofBool _) |>.addLit _).isOperand (by decide)
    have htaken : ∀ {mode : String}, Assures settings (taken s mode _ Order.functionCall _ Order.functionCall)
        fun r => IsOperand fn ∧ IsOperand list → r.Uses :=
      uses_taken (fun hboth => hcode hboth.1 hboth.2) fun hboth => hcode hboth.1 hboth.2
    exact htaken.mono fun r hr hfn hl => hr ⟨hfn, hl⟩
  · exact .unhandled "WHERE"

/-! ## Slices -/

theorem assures_sliceStart (h : s.Fits settings) {sequence : String} :
    Assures settings (sliceStart s sequence) fun code => IsOperand sequence → IsOperand code := by
  unfold sliceStart
  split
  · exact (assures_index h _ _ _ _).mono fun code hcode _ => hcode
  · refine (assures_index h _ _ _ _).bind fun i => .pure fun hi hq => ?_
    exact (Woven.code hq |>.addLit _ |>.addCode hi).isOperand (by decide)
  · exact .pure fun _ => isOperand_zero
  · exact .unhandled "WHERE1"

theorem assures_sliceEnd (h : s.Fits settings) {sequence : String} :
    Assures settings (sliceEnd s sequence) fun code => IsOperand sequence → IsOperand code := by
  unfold sliceEnd
  split
  · exact (assures_index h _ _ _ _).mono fun code hcode _ => hcode
  · refine (assures_index h _ _ _ _).bind fun i => .pure fun hi hq => ?_
    exact (Woven.code hq |>.addLit _ |>.addCode hi).isOperand (by decide)
  · exact .pure fun hq => (Woven.code hq |>.addLit _).isOperand (by decide)
  · exact .unhandled "WHERE2"

theorem assures_directSlice (h : s.Fits settings) {sequence : String} :
    Assures settings (directSlice s sequence) fun code => IsOperand sequence → IsOperand code := by
  refine (assures_sliceStart h).bind fun start => ?_
  refine (assures_sliceEnd h).bind fun stop => .pure fun hstop hstart hq => ?_
  exact (Woven.code hq |>.addLit _ |>.addCode (hstart hq) |>.addLit _ |>.addCode (hstop hq) |>.addLit _).isOperand (by decide)

theorem assures_helperSlice (h : s.Fits settings) {sequence : String} :
    Assures settings (helperSlice s sequence) fun code => IsOperand sequence → IsOperand code := by
  unfold helperSlice
  dsimp only
  split
  · exact .unhandled "WHERE1"
  · split
    · exact .unhandled "WHERE2"
    · refine (assures_index h _ _ _ _).bind fun i => ?_
      refine (assures_index h _ _ _ _).bind fun j => ?_
      refine (Assures.provide _ _).bind fun fn => .pure fun hfn hj hi hq => ?_
      have hcall : Woven (fn ++ "(" ++ sequence) .behind := Woven.code hfn |>.addLit _ |>.addCode hq
      exact ((hcall.argument hi _).argument hj _ |>.addLit _).isOperand (by decide)

theorem uses_listsGetSublist (h : s.Fits settings) : Assures settings (listsGetSublist s) Result.Uses := by
  refine (h.valueOr _ _ isOperand_noItems).bind fun list => ?_
  dsimp only
  split
  · have hcopy : Assures settings (pure (list ++ ".slice(0)")) fun code => IsOperand list → IsOperand code :=
      .pure fun hl => (Woven.code hl |>.addLit _).isOperand (by decide)
    exact hcopy.bind fun _ => .pure fun hc hl => .value (hc hl)
  · split
    · exact (assures_directSlice h).bind fun _ => .pure fun hc hl => .value (hc hl)
    · exact (assures_helperSlice h).bind fun _ => .pure fun hc hl => .value (hc hl)

/-! ## Other lists -/

theorem uses_listsSort (h : s.Fits settings) : Assures settings (listsSort s) Result.Uses := by
  have hdirection : IsOperand (if s.head.field "DIRECTION" = "1" then "1" else "-1") :=
    isOperand_ite isOperand_one (isOperand_lit _ _ (by decide))
  refine (h.valueOr _ _ isOperand_noItems).bind fun list => ?_
  dsimp only
  split
  · next htype =>
    refine (Assures.provide _ _).bind fun fn => .pure fun hfn hl => .value ?_
    -- the type is one of three words, so it is known what stands between the quotes
    simp only [Bool.or_eq_true, decide_eq_true_eq] at htype
    rcases htype with (htype | htype) | htype <;> rw [htype]
    all_goals exact (Woven.code hl |>.addLit _ |>.addCode hfn |>.addLit _ |>.addLit _ |>.addLit _
      |>.addCode hdirection |>.addLit _).isOperand (by decide)
  · exact .unhandled "TYPE"

theorem uses_listsSplit (h : s.Fits settings) : Assures settings (listsSplit s) Result.Uses := by
  refine (h.value _ _).bind fun input => ?_
  have hinput : ∀ {fallback : String}, IsOperand fallback → input = "" ∨ IsOperand input →
      IsOperand (if input = "" then fallback else input) := by
    intro fallback hf hi
    split
    · exact hf
    · next hne => exact hi.resolve_left hne
  refine (h.valueOr _ _ isOperand_noText).bind fun delimiter => ?_
  split
  · refine .pure fun hd hi => .value ?_
    exact (Woven.code (hinput isOperand_noText hi) |>.addLit _ |>.addCode hd |>.addLit _).isOperand (by decide)
  · refine .pure fun hd hi => .value ?_
    exact (Woven.code (hinput isOperand_noItems hi) |>.addLit _ |>.addCode hd |>.addLit _).isOperand (by decide)
  · exact .unhandled "MODE"

theorem uses_listsReverse (h : s.Fits settings) : Assures settings (listsReverse s) Result.Uses :=
  (h.valueOr _ _ isOperand_noItems).bind fun _ => .pure fun hl => .value ((Woven.code hl |>.addLit _).isOperand (by decide))

/-! ## Texts -/

theorem isOperand_asText {code : String} (h : IsOperand code) : IsOperand (asText code) :=
  isOperand_ite h ((Woven.lit _ _ |>.addCode h |>.addLit _).isOperand (by decide))

theorem uses_textMultiline (s : Site) : Assures settings (textMultiline s) Result.Uses := by
  have hcode := isOperand_quoteLines (s.head.field "TEXT")
  exact .pure (.value (isOperand_ite ((Woven.lit _ _ |>.addCode hcode |>.addLit _).isOperand (by decide)) hcode))

theorem uses_textJoin (h : s.Fits settings) : Assures settings (textJoin s) Result.Uses := by
  unfold textJoin
  split
  · exact .pure (.value isOperand_noText)
  · exact (h.valueOr _ _ isOperand_noText).bind fun a => .pure fun ha => .value (isOperand_asText ha)
  · refine (h.valueOr _ _ isOperand_noText).bind fun a => ?_
    refine (h.valueOr _ _ isOperand_noText).bind fun b => .pure fun hb ha => .value ?_
    exact (Woven.code (isOperand_asText ha) |>.addLit _ |>.addCode (isOperand_asText hb)).isOperand (by decide)
  · refine (h.numbered _ _ _ isOperand_noText).bind fun items => .pure fun hi => .value ?_
    exact isOperand_enclosed (Woven.lit _ _) (by decide) (by decide) (by decide) hi

theorem uses_textLength (h : s.Fits settings) : Assures settings (textLength s) Result.Uses :=
  (h.valueOr _ _ isOperand_noText).bind fun _ => .pure fun hc => .value ((Woven.code hc |>.addLit _).isOperand (by decide))

theorem uses_textIsEmpty (h : s.Fits settings) : Assures settings (textIsEmpty s) Result.Uses := by
  refine (h.valueOr _ _ isOperand_noText).bind fun code => .pure fun hc => .value ?_
  exact (Woven.lit _ _ |>.addCode hc |>.addLit _).isOperand (by decide)

theorem uses_textCharAt (h : s.Fits settings) : Assures settings (textCharAt s) Result.Uses := by
  refine (h.valueOr _ _ isOperand_noText).bind fun code => ?_
  split
  · exact .pure fun hc => .value ((Woven.code hc |>.addLit _).isOperand (by decide))
  · exact .pure fun hc => .value ((Woven.code hc |>.addLit _).isOperand (by decide))
  · refine (assures_index h _ _ _ _).bind fun i => .pure fun hi hc => .value ?_
    exact (Woven.code hc |>.addLit _ |>.addCode hi |>.addLit _).isOperand (by decide)
  · refine (assures_index h _ _ _ _).bind fun i => .pure fun hi hc => .value ?_
    exact (Woven.code hc |>.addLit _ |>.addCode hi |>.addLit _).isOperand (by decide)
  · refine (Assures.provide _ _).bind fun fn => .pure fun hfn hc => .value ?_
    exact (Woven.code hfn |>.addLit _ |>.addCode hc |>.addLit _).isOperand (by decide)
  · exact .unhandled "WHERE"

theorem uses_textGetSubstring (h : s.Fits settings) : Assures settings (textGetSubstring s) Result.Uses := by
  refine (h.valueOr _ _ isOperand_noText).bind fun code => ?_
  dsimp only
  split
  · have hsame : Assures settings (pure code) fun part => IsOperand code → IsOperand part := .pure id
    exact hsame.bind fun _ => .pure fun hp hc => .value (hp hc)
  · split
    · exact (assures_directSlice h).bind fun _ => .pure fun hp hc => .value (hp hc)
    · exact (assures_helperSlice h).bind fun _ => .pure fun hp hc => .value (hp hc)

theorem uses_textChangeCase (h : s.Fits settings) : Assures settings (textChangeCase s) Result.Uses := by
  unfold textChangeCase
  split
  · refine (h.valueOr _ _ isOperand_noText).bind fun code => .pure fun hc => .value ?_
    exact (Woven.code hc |>.addLit _).isOperand (by decide)
  · refine (h.valueOr _ _ isOperand_noText).bind fun code => .pure fun hc => .value ?_
    exact (Woven.code hc |>.addLit _).isOperand (by decide)
  · refine (h.valueOr _ _ isOperand_noText).bind fun code => ?_
    refine (Assures.provide _ _).bind fun fn => .pure fun hfn hc => .value ?_
    exact (Woven.code hfn |>.addLit _ |>.addCode hc |>.addLit _).isOperand (by decide)
  · exact .unhandled "CASE"

theorem isOperand_trimCall {code : String} (h : IsOperand code) : ∀ e ∈ trimCalls, IsOperand (code ++ e.2) := by
  simp only [trimCalls, List.forall_mem_cons]
  refine ⟨?_, ?_, ?_, by simp⟩
  all_goals exact (Woven.code h |>.addLit _).isOperand (by decide)

theorem uses_textTrim (h : s.Fits settings) : Assures settings (textTrim s) Result.Uses := by
  unfold textTrim
  split
  · next call hcall =>
    refine (h.valueOr _ _ isOperand_noText).bind fun code => ?_
    exact .pure fun hc => .value (isOperand_trimCall hc _ (mem_of_lookup hcall))
  · exact .unhandled "MODE"

theorem uses_textPrompt (h : s.Fits settings) : Assures settings (textPrompt s) Result.Uses := by
  unfold textPrompt
  extract_lets answer
  have hanswer : ∀ question, Assures settings (answer question) fun r => IsOperand question → r.Uses := by
    intro question
    have hcode : IsOperand question → IsOperand ("window.prompt(" ++ question ++ ")") :=
      fun hq => (Woven.lit _ _ |>.addCode hq |>.addLit _).isOperand (by decide)
    unfold answer
    dsimp only
    split
    · exact .pure fun hq => .value ((Woven.lit _ _ |>.addCode (hcode hq) |>.addLit _).isOperand (by decide))
    · exact .pure fun hq => .value (hcode hq)
    · exact .pure fun hq => .value (hcode hq)
    · exact .unhandled "TYPE"
  split
  · exact (Assures.pure (isOperand_quote _)).bind hanswer
  · exact (h.valueOr _ _ isOperand_noText).bind hanswer

theorem uses_textCount (h : s.Fits settings) : Assures settings (textCount s) Result.Uses := by
  refine (h.valueOr _ _ isOperand_noText).bind fun code => ?_
  refine (h.valueOr _ _ isOperand_noText).bind fun part => ?_
  refine (Assures.provide _ _).bind fun fn => .pure fun hfn hp hc => .value ?_
  exact (Woven.code hfn |>.addLit _ |>.addCode hc |>.addLit _ |>.addCode hp |>.addLit _).isOperand (by decide)

theorem uses_textReplace (h : s.Fits settings) : Assures settings (textReplace s) Result.Uses := by
  refine (h.valueOr _ _ isOperand_noText).bind fun code => ?_
  refine (h.valueOr _ _ isOperand_noText).bind fun part => ?_
  refine (h.valueOr _ _ isOperand_noText).bind fun other => ?_
  refine (Assures.provide _ _).bind fun fn => .pure fun hfn ho hp hc => .value ?_
  exact (Woven.code hfn |>.addLit _ |>.addCode hc |>.addLit _ |>.addCode hp |>.addLit _ |>.addCode ho
    |>.addLit _).isOperand (by decide)

theorem uses_textReverse (h : s.Fits settings) : Assures settings (textReverse s) Result.Uses :=
  (h.valueOr _ _ isOperand_noText).bind fun _ => .pure fun hc => .value ((Woven.code hc |>.addLit _).isOperand (by decide))

/-! ## Calls, variables and colours -/

theorem assures_procedureCall (h : s.Fits settings) : Assures settings (procedureCall s) IsOperand := by
  refine (Assures.name _ _).bind fun fn => ?_
  refine (h.numbered _ _ _ isOperand_null).bind fun arguments => .pure fun ha hfn => ?_
  exact isOperand_enclosed (Woven.code hfn |>.addLit _) (by decide) (by decide) (by decide) ha

theorem uses_variablesGet (s : Site) : Assures settings (variablesGet s) Result.Uses :=
  (Assures.variableName s "VAR").bind fun _ => .pure .value

theorem uses_colourRandom (s : Site) : Assures settings (colourRandom s) Result.Uses :=
  (Assures.provide _ _).bind fun _ => .pure fun hfn => .value ((Woven.code hfn |>.addLit _).isOperand (by decide))

theorem uses_colourRgb (h : s.Fits settings) : Assures settings (colourRgb s) Result.Uses := by
  refine (h.valueOr _ _ isOperand_zero).bind fun red => ?_
  refine (h.valueOr _ _ isOperand_zero).bind fun green => ?_
  refine (h.valueOr _ _ isOperand_zero).bind fun blue => ?_
  refine (Assures.provide _ _).bind fun fn => .pure fun hfn hb hg hr => .value ?_
  exact (Woven.code hfn |>.addLit _ |>.addCode hr |>.addLit _ |>.addCode hg |>.addLit _ |>.addCode hb
    |>.addLit _).isOperand (by decide)

theorem uses_colourBlend (h : s.Fits settings) : Assures settings (colourBlend s) Result.Uses := by
  have hblack : IsOperand "'#000000'" := isOperand_lit _ _ (by decide)
  refine (h.valueOr _ _ hblack).bind fun first => ?_
  refine (h.valueOr _ _ hblack).bind fun second => ?_
  refine (h.valueOr _ _ (isOperand_lit _ _ (by decide) : IsOperand "0.5")).bind fun ratio => ?_
  refine (Assures.provide _ _).bind fun fn => .pure fun hfn hr h2 h1 => .value ?_
  exact (Woven.code hfn |>.addLit _ |>.addCode h1 |>.addLit _ |>.addCode h2 |>.addLit _ |>.addCode hr
    |>.addLit _).isOperand (by decide)

theorem uses_stringLength (h : s.Fits settings) : Assures settings (stringLength s) Result.Uses :=
  (h.valueOr _ _ isOperand_noText).bind fun _ => .pure fun hc => .value ((Woven.code hc |>.addLit _).isOperand (by decide))

end Emit
end Blockwright
