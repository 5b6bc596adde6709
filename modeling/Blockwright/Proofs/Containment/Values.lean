import Blockwright.Emit.Math
import Blockwright.Emit.Texts
import Blockwright.Proofs.Containment.Control
/-!
# Numbers, lists and texts are sealed

The emitters of values give back sealed code wherever what is plugged in does.
-/

namespace Blockwright.Emit

open Scan

variable {settings : PassSettings} {s : Site}

/-! ## Positions -/

theorem sealed_shiftCode {code : String} (h : Sealed code) (delta : Int) (negate : Bool) (outer : Order) :
    Sealed (shiftCode code delta negate outer) := by
  unfold shiftCode
  extract_lets moved
  have hmoved : Sealed moved := by
    refine sealed_ite ?_ (sealed_ite ?_ h)
    · exact (Woven.code h |>.addLit _ |>.addCode (sealed_ofInt _)).sealed (by decide)
    · exact (Woven.code h |>.addLit _ |>.addCode (sealed_ofInt _)).sealed (by decide)
  refine sealed_ite (sealed_wrap (sealed_ite ?_ ?_) _ _) ?_
  · exact (Woven.lit _ |>.addCode hmoved).sealed (by decide)
  · exact (Woven.lit _ |>.addCode hmoved |>.addLit _).sealed (by decide)
  · exact sealed_ite (sealed_wrap hmoved _ _) (sealed_ite (sealed_wrap hmoved _ _) hmoved)

theorem safe_index (h : s.Safe settings) (socket : String) (delta : Int) (negate : Bool) (outer : Order) :
    SafeCode settings (s.index socket delta negate outer) := by
  have hone : Sealed "1" := sealed_lit _ (by decide)
  refine (safe_oneBased s).bind fun oneBased _ => ?_
  refine (h.valueOr _ _ (sealed_ite hone sealed_zero)).bind fun code hc => ?_
  split
  · split
    · exact .pure (sealed_format _)
    · exact .fail
  · exact .pure (sealed_shiftCode hc _ _ _)

/-! ## Numbers -/

theorem safe_mathNumber (s : Site) : SafeResult settings (mathNumber s) := by
  unfold mathNumber
  extract_lets text
  split
  · exact safe_value sealed_zero
  · split
    · exact safe_value (sealed_format _)
    · exact safe_unhandled s "NUM"

theorem sealed_arithmeticOperator : ∀ e ∈ arithmeticOperators, Sealed e.2.1 := by
  simp only [arithmeticOperators, List.forall_mem_cons]
  refine ⟨?_, ?_, ?_, ?_, sealed_empty, by simp⟩
  all_goals exact sealed_lit _ (by decide)

theorem safe_mathArithmetic (h : s.Safe settings) : SafeResult settings (mathArithmetic s) := by
  unfold mathArithmetic
  split
  · next op order hop =>
    have hsymbol : Sealed op := sealed_arithmeticOperator _ (mem_of_lookup hop)
    refine (h.valueOr _ _ sealed_zero).bind fun a ha => ?_
    refine (h.valueOr _ _ sealed_zero).bind fun b hb => ?_
    split
    · exact safe_value <| (Woven.lit _ |>.addCode ha |>.addLit _ |>.addCode hb |>.addLit _).sealed (by decide)
    · exact safe_value ((ha.append hsymbol).append hb)
  · exact safe_unhandled s "OP"

theorem sealed_singleCall : ∀ e ∈ singleCalls, ∀ code, Sealed code → Sealed (e.2.1 ++ code ++ e.2.2) := by
  simp only [singleCalls, List.forall_mem_cons]
  refine ⟨?_, ?_, ?_, ?_, ?_, ?_, ?_, ?_, ?_, ?_, ?_, by simp⟩
  all_goals exact fun code h => (Woven.lit _ |>.addCode h |>.addLit _).sealed (by decide)

theorem sealed_singleDivision : ∀ e ∈ singleDivisions, ∀ code, Sealed code → Sealed (e.2.1 ++ code ++ e.2.2) := by
  simp only [singleDivisions, List.forall_mem_cons]
  refine ⟨?_, ?_, ?_, ?_, by simp⟩
  all_goals exact fun code h => (Woven.lit _ |>.addCode h |>.addLit _).sealed (by decide)

theorem safe_mathSingle (h : s.Safe settings) : SafeResult settings (mathSingle s) := by
  unfold mathSingle
  extract_lets op
  split
  · refine (h.valueOr _ _ sealed_zero).bind fun code hc => ?_
    have hgap : Sealed (if code.toList.head? = some '-' then " " else "") :=
      sealed_ite (sealed_lit _ (by decide)) sealed_empty
    exact safe_value <| (Woven.lit _ |>.addCode hgap |>.addCode hc).sealed (by decide)
  · cases hcall : singleCalls.lookup op with
    | some e =>
      refine (h.valueOr _ _ sealed_zero).bind fun code hc => ?_
      exact safe_value (sealed_singleCall _ (mem_of_lookup hcall) code hc)
    | none =>
      cases hdivision : singleDivisions.lookup op with
      | some e =>
        refine (h.valueOr _ _ sealed_zero).bind fun code hc => ?_
        exact safe_value (sealed_singleDivision _ (mem_of_lookup hdivision) code hc)
      | none => exact safe_unhandled s "OP"

theorem sealed_constant : ∀ e ∈ constants, Sealed e.2.1 := by
  simp only [constants, List.forall_mem_cons]
  refine ⟨?_, ?_, ?_, ?_, ?_, ?_, by simp⟩
  all_goals exact sealed_lit _ (by decide)

theorem safe_mathConstant (s : Site) : SafeResult settings (mathConstant s) := by
  unfold mathConstant
  split
  · next code order hop => exact safe_value (sealed_constant _ (mem_of_lookup hop))
  · exact safe_unhandled s "CONSTANT"

theorem sealed_property : ∀ e ∈ properties, Sealed e.2 := by
  simp only [properties, List.forall_mem_cons]
  refine ⟨?_, ?_, ?_, ?_, ?_, by simp⟩
  all_goals exact sealed_lit _ (by decide)

theorem safe_mathNumberProperty (hs : settings.Blank) (h : s.Safe settings) :
    SafeResult settings (mathNumberProperty s) := by
  refine (h.valueOr _ _ sealed_zero).bind fun code hc => ?_
  split
  · refine (safe_fixed hs _ (by simp [Helpers.fixed])).bind fun fn hfn => ?_
    exact safe_value <| (Woven.code hfn |>.addLit _ |>.addCode hc |>.addLit _).sealed (by decide)
  · refine (h.valueOr _ _ sealed_zero).bind fun divisor hd => ?_
    exact safe_value <| (Woven.code hc |>.addLit _ |>.addCode hd |>.addLit _).sealed (by decide)
  · split
    · next test htest => exact safe_value (hc.append (sealed_property _ (mem_of_lookup htest)))
    · exact safe_unhandled s "PROPERTY"

theorem safe_mathChange (h : s.Safe settings) : SafeResult settings (mathChange s) := by
  refine (h.valueOr _ _ sealed_zero).bind fun delta hd => ?_
  refine (safe_variableName s "VAR").bind fun v hv => ?_
  exact safe_statement <| (Woven.code hv |>.addLit _ |>.addCode hv |>.addLit _ |>.addCode hv |>.addLit _ |>.addCode hd
    |>.addLit _).sealed (by decide)

theorem fixed_listReducer : ∀ e ∈ listReducers, e.2.2 ∈ Helpers.fixed := by
  simp [listReducers, Helpers.fixed]

theorem safe_mathOnList (hs : settings.Blank) (h : s.Safe settings) : SafeResult settings (mathOnList s) := by
  unfold mathOnList
  split
  · next name body hop =>
    refine (safe_fixed hs _ (fixed_listReducer _ (mem_of_lookup hop))).bind fun fn hfn => ?_
    refine (h.valueOr _ _ sealed_noItems).bind fun list hl => ?_
    exact safe_value <| (Woven.code hfn |>.addLit _ |>.addCode hl |>.addLit _).sealed (by decide)
  · exact safe_unhandled s "OP"

theorem safe_mathModulo (h : s.Safe settings) : SafeResult settings (mathModulo s) := by
  refine (h.valueOr _ _ sealed_zero).bind fun dividend ha => ?_
  refine (h.valueOr _ _ sealed_zero).bind fun divisor hb => ?_
  exact safe_value <| (Woven.code ha |>.addLit _ |>.addCode hb).sealed (by decide)

theorem safe_mathConstrain (h : s.Safe settings) : SafeResult settings (mathConstrain s) := by
  have hinfinity : Sealed "Infinity" := sealed_lit _ (by decide)
  refine (h.valueOr _ _ sealed_zero).bind fun v hv => ?_
  refine (h.valueOr _ _ sealed_zero).bind fun low hl => ?_
  refine (h.valueOr _ _ hinfinity).bind fun high hh => ?_
  exact safe_value <| (Woven.lit _ |>.addCode hv |>.addLit _ |>.addCode hl |>.addLit _
    |>.addCode hh |>.addLit _).sealed (by decide)

theorem safe_mathRandomInt (hs : settings.Blank) (h : s.Safe settings) : SafeResult settings (mathRandomInt s) := by
  refine (h.valueOr _ _ sealed_zero).bind fun low hl => ?_
  refine (h.valueOr _ _ sealed_zero).bind fun high hh => ?_
  refine (safe_fixed hs _ (by simp [Helpers.fixed])).bind fun fn hfn => ?_
  exact safe_value <| (Woven.code hfn |>.addLit _ |>.addCode hl |>.addLit _
    |>.addCode hh |>.addLit _).sealed (by decide)

theorem safe_mathAtan2 (h : s.Safe settings) : SafeResult settings (mathAtan2 s) := by
  refine (h.valueOr _ _ sealed_zero).bind fun x hx => ?_
  refine (h.valueOr _ _ sealed_zero).bind fun y hy => ?_
  exact safe_value <| (Woven.lit _ |>.addCode hy |>.addLit _ |>.addCode hx |>.addLit _).sealed (by decide)

theorem safe_math (hs : settings.Blank) (h : s.Safe settings) : ∀ e ∈ math, SafeResult settings (e.2 s) := by
  have hnumber : SafeResult settings (mathNumber s) := safe_mathNumber s
  simp only [math, List.forall_mem_cons]
  exact ⟨hnumber, safe_mathArithmetic h, safe_mathSingle h, safe_mathSingle h, safe_mathSingle h,
    safe_mathConstant s, safe_mathNumberProperty hs h, safe_mathChange h, safe_mathOnList hs h, safe_mathModulo h,
    safe_mathConstrain h, safe_mathRandomInt hs h, safe_value (sealed_lit _ (by decide)), safe_mathAtan2 h, by simp⟩

/-! ## Lists -/

theorem safe_listsCreateWith (h : s.Safe settings) : SafeResult settings (listsCreateWith s) := by
  refine (safe_numbered h _ _ _ sealed_null).bind fun items hi => ?_
  exact safe_value <| (Woven.lit _ |>.addCode (sealed_joinWith sealed_comma hi) |>.addLit _).sealed (by decide)

theorem safe_listsRepeat (hs : settings.Blank) (h : s.Safe settings) : SafeResult settings (listsRepeat s) := by
  refine (safe_fixed hs _ (by simp [Helpers.fixed])).bind fun fn hfn => ?_
  refine (h.valueOr _ _ sealed_null).bind fun item hi => ?_
  refine (h.valueOr _ _ sealed_zero).bind fun count hc => ?_
  exact safe_value <| (Woven.code hfn |>.addLit _ |>.addCode hi |>.addLit _
    |>.addCode hc |>.addLit _).sealed (by decide)

theorem safe_listsLength (h : s.Safe settings) : SafeResult settings (listsLength s) := by
  refine (h.valueOr _ _ sealed_noItems).bind fun list hl => ?_
  exact safe_value <| (Woven.code hl |>.addLit _).sealed (by decide)

theorem safe_listsIsEmpty (h : s.Safe settings) : SafeResult settings (listsIsEmpty s) := by
  refine (h.valueOr _ _ sealed_noItems).bind fun list hl => ?_
  exact safe_value <| (Woven.lit _ |>.addCode hl |>.addLit _).sealed (by decide)

theorem safe_indexOf (h : s.Safe settings) {fallback : String} (hf : Sealed fallback) :
    SafeResult settings (indexOf fallback s) := by
  unfold indexOf
  split
  · next method hmethod =>
    have hname : ∀ e ∈ [("FIRST", "indexOf"), ("LAST", "lastIndexOf")], Sealed e.2 := by
      simp only [List.forall_mem_cons]
      exact ⟨sealed_lit _ (by decide), sealed_lit _ (by decide), by simp⟩
    refine (h.valueOr _ _ sealed_noText).bind fun item hi => ?_
    refine (h.valueOr _ _ hf).bind fun sequence hq => ?_
    have hcode : Sealed (sequence ++ "." ++ method ++ "(" ++ item ++ ")") :=
      (Woven.code hq |>.addLit _ |>.addCode (hname _ (mem_of_lookup hmethod)) |>.addLit _ |>.addCode hi
        |>.addLit _).sealed (by decide)
    refine (safe_oneBased s).bind fun oneBased _ => ?_
    split
    · exact safe_value <| (Woven.code hcode |>.addLit _).sealed (by decide)
    · exact safe_value hcode
  · exact safe_unhandled s "END"

theorem safe_taken {get remove : String} (mode : String) (getOrder removeOrder : Order) (hg : Sealed get)
    (hr : Sealed remove) : SafeResult settings (taken s mode get getOrder remove removeOrder) := by
  unfold taken
  split
  · exact safe_value hg
  · exact safe_value hr
  · exact safe_statement <| (Woven.code hr |>.addLit _).sealed (by decide)
  · exact safe_unhandled s "MODE"

theorem safe_listsGetIndex (hs : settings.Blank) (h : s.Safe settings) : SafeResult settings (listsGetIndex s) := by
  refine (h.valueOr _ _ sealed_noItems).bind fun list hl => ?_
  dsimp only
  split
  · refine safe_taken _ _ _ ?_ ?_
    · exact (Woven.code hl |>.addLit _).sealed (by decide)
    · exact (Woven.code hl |>.addLit _).sealed (by decide)
  · refine safe_taken _ _ _ ?_ ?_
    · exact (Woven.code hl |>.addLit _).sealed (by decide)
    · exact (Woven.code hl |>.addLit _).sealed (by decide)
  · refine (safe_index h _ _ _ _).bind fun i hi => ?_
    split
    · exact safe_value <| (Woven.code hl |>.addLit _ |>.addCode hi |>.addLit _).sealed (by decide)
    · exact safe_value <| (Woven.code hl |>.addLit _ |>.addCode hi |>.addLit _).sealed (by decide)
    · exact safe_statement <| (Woven.code hl |>.addLit _ |>.addCode hi |>.addLit _).sealed (by decide)
    · exact safe_unhandled s "MODE"
  · refine (safe_index h _ _ _ _).bind fun i hi => ?_
    split
    · exact safe_value <| (Woven.code hl |>.addLit _ |>.addCode hi |>.addLit _).sealed (by decide)
    · exact safe_value <| (Woven.code hl |>.addLit _ |>.addCode hi |>.addLit _).sealed (by decide)
    · exact safe_statement <| (Woven.code hl |>.addLit _ |>.addCode hi |>.addLit _).sealed (by decide)
    · exact safe_unhandled s "MODE"
  · refine (safe_fixed hs _ (by simp [Helpers.fixed])).bind fun fn hfn => ?_
    have hcode : Sealed (fn ++ "(" ++ list ++ ", " ++ Text.ofBool (s.head.fieldOr "MODE" "GET" != "GET") ++ ")") :=
      (Woven.code hfn |>.addLit _ |>.addCode hl |>.addLit _
        |>.addCode (sealed_ofBool _) |>.addLit _).sealed (by decide)
    exact safe_taken _ _ _ hcode hcode
  · exact safe_unhandled s "WHERE"

theorem safe_cachedList {list : String} (h : Sealed list) :
    Safe settings (cachedList list) fun r => Sealed r.1 ∧ Sealed r.2 := by
  unfold cachedList
  split
  · exact .pure ⟨sealed_empty, h⟩
  · refine (safe_distinctVariable _).bind fun name hname => ?_
    exact .pure ⟨(Woven.lit _ |>.addCode hname |>.addLit _ |>.addCode h |>.addLit _).sealed (by decide), hname⟩

theorem sealed_placed {before list i item : String} (mode : String) (hb : Sealed before) (hl : Sealed list)
    (hi : Sealed i) (hitem : Sealed item) : Sealed (placed before list mode i item).code := by
  unfold placed
  split
  · exact (Woven.code hb |>.addCode hl |>.addLit _ |>.addCode hi |>.addLit _
      |>.addCode hitem |>.addLit _).sealed (by decide)
  · exact (Woven.code hb |>.addCode hl |>.addLit _ |>.addCode hi |>.addLit _
      |>.addCode hitem |>.addLit _).sealed (by decide)

theorem safe_listsSetIndex (h : s.Safe settings) : SafeResult settings (listsSetIndex s) := by
  refine (h.valueOr _ _ sealed_noItems).bind fun list hl => ?_
  refine (h.valueOr _ _ sealed_null).bind fun item hitem => ?_
  dsimp only
  split
  · split
    · exact safe_statement <| (Woven.code hl |>.addLit _ |>.addCode hitem |>.addLit _).sealed (by decide)
    · exact safe_statement <| (Woven.code hl |>.addLit _ |>.addCode hitem |>.addLit _).sealed (by decide)
    · exact safe_unhandled s "MODE"
  · split
    · refine (safe_cachedList hl).bind fun ⟨before, listVar⟩ hr => ?_
      exact .pure (sealed_placed _ hr.1 hr.2 ((Woven.code hr.2 |>.addLit _).sealed (by decide)) hitem)
    · exact safe_statement <| (Woven.code hl |>.addLit _ |>.addCode hitem |>.addLit _).sealed (by decide)
    · exact safe_unhandled s "MODE"
  · refine (safe_index h _ _ _ _).bind fun i hi => ?_
    split
    · exact .pure (sealed_placed _ sealed_empty hl hi hitem)
    · exact safe_unhandled s "MODE"
  · refine (safe_index h _ _ _ _).bind fun i hi => ?_
    split
    · refine (safe_cachedList hl).bind fun ⟨before, listVar⟩ hr => ?_
      have hplace : Sealed (listVar ++ ".length - " ++ i) :=
        (Woven.code hr.2 |>.addLit _ |>.addCode hi).sealed (by decide)
      exact .pure (sealed_placed _ hr.1 hr.2 hplace hitem)
    · exact safe_unhandled s "MODE"
  · split
    · refine (safe_cachedList hl).bind fun ⟨before, listVar⟩ hr => ?_
      refine (safe_distinctVariable _).bind fun x hx => ?_
      have hpick : Sealed ("var " ++ x ++ " = Math.floor(Math.random() * " ++ listVar ++ ".length);\n") :=
        (Woven.lit _ |>.addCode hx |>.addLit _ |>.addCode hr.2 |>.addLit _).sealed (by decide)
      exact .pure (sealed_placed _ (hr.1.append hpick) hr.2 hx hitem)
    · exact safe_unhandled s "MODE"
  · exact safe_unhandled s "WHERE"

/-! ## Slices -/

theorem safe_sliceStart (h : s.Safe settings) {sequence : String} (hq : Sealed sequence) :
    SafeCode settings (sliceStart s sequence) := by
  unfold sliceStart
  split
  · exact safe_index h _ _ _ _
  · refine (safe_index h _ _ _ _).bind fun i hi => ?_
    exact .pure <| (Woven.code hq |>.addLit _ |>.addCode hi).sealed (by decide)
  · exact .pure sealed_zero
  · exact safe_unhandled s "WHERE1"

theorem safe_sliceEnd (h : s.Safe settings) {sequence : String} (hq : Sealed sequence) :
    SafeCode settings (sliceEnd s sequence) := by
  unfold sliceEnd
  split
  · exact safe_index h _ _ _ _
  · refine (safe_index h _ _ _ _).bind fun i hi => ?_
    exact .pure <| (Woven.code hq |>.addLit _ |>.addCode hi).sealed (by decide)
  · exact .pure <| (Woven.code hq |>.addLit _).sealed (by decide)
  · exact safe_unhandled s "WHERE2"

theorem safe_directSlice (h : s.Safe settings) {sequence : String} (hq : Sealed sequence) :
    SafeCode settings (directSlice s sequence) := by
  refine (safe_sliceStart h hq).bind fun start hstart => ?_
  refine (safe_sliceEnd h hq).bind fun stop hstop => ?_
  exact .pure <| (Woven.code hq |>.addLit _ |>.addCode hstart |>.addLit _
    |>.addCode hstop |>.addLit _).sealed (by decide)

theorem safe_helperSlice (hs : settings.Blank) (h : s.Safe settings) {sequence : String} (hq : Sealed sequence) :
    SafeCode settings (helperSlice s sequence) := by
  have hargument : ∀ (place : String) {i : String}, Sealed i →
      Sealed (if Helpers.takesIndex place then ", " ++ i else "") :=
    fun _ _ hi => sealed_ite ((Woven.lit _ |>.addCode hi).sealed (by decide)) sealed_empty
  unfold helperSlice
  dsimp only
  split
  · exact safe_unhandled s "WHERE1"
  · split
    · exact safe_unhandled s "WHERE2"
    · refine (safe_index h _ _ _ _).bind fun i hi => ?_
      refine (safe_index h _ _ _ _).bind fun j hj => ?_
      refine (safe_provide hs _ (Helpers.sealed_subsequence _ _) (Helpers.starts_subsequence _ _)).bind fun fn hfn => ?_
      exact .pure <| (Woven.code hfn |>.addLit _ |>.addCode hq |>.addCode (hargument _ hi) |>.addCode (hargument _ hj)
        |>.addLit _).sealed (by decide)

theorem safe_listsGetSublist (hs : settings.Blank) (h : s.Safe settings) :
    SafeResult settings (listsGetSublist s) := by
  refine (h.valueOr _ _ sealed_noItems).bind fun list hl => ?_
  dsimp only
  split
  · have hcopy : Sealed (list ++ ".slice(0)") := (Woven.code hl |>.addLit _).sealed (by decide)
    exact (Keeps.pure hcopy).bind fun _ hc => safe_value hc
  · split
    · exact (safe_directSlice h hl).bind fun _ hc => safe_value hc
    · exact (safe_helperSlice hs h hl).bind fun _ hc => safe_value hc

/-! ## Other lists -/

theorem safe_listsSort (hs : settings.Blank) (h : s.Safe settings) : SafeResult settings (listsSort s) := by
  have hdirection : Sealed (if s.head.field "DIRECTION" = "1" then "1" else "-1") :=
    sealed_ite (sealed_lit _ (by decide)) (sealed_lit _ (by decide))
  refine (h.valueOr _ _ sealed_noItems).bind fun list hl => ?_
  dsimp only
  split
  · next htype =>
    refine (safe_fixed hs _ (by simp [Helpers.fixed])).bind fun fn hfn => ?_
    -- the type is one of three words, so nothing of the user stands between the quotes
    have hcompare : Sealed (list ++ ".slice().sort(" ++ fn ++ "(\"" ++ s.head.field "TYPE" ++ "\", "
        ++ (if s.head.field "DIRECTION" = "1" then "1" else "-1") ++ "))") := by
      simp only [Bool.or_eq_true, decide_eq_true_eq] at htype
      rcases htype with (htype | htype) | htype <;> rw [htype]
      all_goals exact (Woven.code hl |>.addLit _ |>.addCode hfn |>.addLit _ |>.addLit _ |>.addLit _
        |>.addCode hdirection |>.addLit _).sealed (by decide)
    exact safe_value hcompare
  · exact safe_unhandled s "TYPE"

theorem safe_listsSplit (h : s.Safe settings) : SafeResult settings (listsSplit s) := by
  refine (h.value _ _).bind fun input hi => ?_
  refine (h.valueOr _ _ sealed_noText).bind fun delimiter hd => ?_
  split
  · have htext := sealed_ite (c := input = "") sealed_noText hi
    exact safe_value <| (Woven.code htext |>.addLit _ |>.addCode hd |>.addLit _).sealed (by decide)
  · have hlist := sealed_ite (c := input = "") sealed_noItems hi
    exact safe_value <| (Woven.code hlist |>.addLit _ |>.addCode hd |>.addLit _).sealed (by decide)
  · exact safe_unhandled s "MODE"

theorem safe_listsReverse (h : s.Safe settings) : SafeResult settings (listsReverse s) := by
  refine (h.valueOr _ _ sealed_noItems).bind fun list hl => ?_
  exact safe_value <| (Woven.code hl |>.addLit _).sealed (by decide)

theorem safe_lists (hs : settings.Blank) (h : s.Safe settings) : ∀ e ∈ lists, SafeResult settings (e.2 s) := by
  simp only [lists, List.forall_mem_cons]
  exact ⟨safe_value sealed_noItems, safe_listsCreateWith h, safe_listsRepeat hs h, safe_listsLength h,
    safe_listsIsEmpty h, safe_indexOf h sealed_noItems, safe_listsGetIndex hs h, safe_listsSetIndex h,
    safe_listsGetSublist hs h, safe_listsSort hs h, safe_listsSplit h, safe_listsReverse h, by simp⟩

/-! ## Texts -/

theorem sealed_asText {code : String} (h : Sealed code) : Sealed (asText code) :=
  sealed_ite h ((Woven.lit _ |>.addCode h |>.addLit _).sealed (by decide))

theorem safe_textMultiline (s : Site) : SafeResult settings (textMultiline s) := by
  have hcode := sealed_quoteLines (s.head.field "TEXT")
  exact safe_value (sealed_ite ((Woven.lit _ |>.addCode hcode |>.addLit _).sealed (by decide)) hcode)

theorem safe_textJoin (h : s.Safe settings) : SafeResult settings (textJoin s) := by
  have hcomma : Sealed "," := sealed_lit _ (by decide)
  unfold textJoin
  split
  · exact safe_value sealed_noText
  · refine (h.valueOr _ _ sealed_noText).bind fun a ha => ?_
    exact safe_value (sealed_asText ha)
  · refine (h.valueOr _ _ sealed_noText).bind fun a ha => ?_
    refine (h.valueOr _ _ sealed_noText).bind fun b hb => ?_
    exact safe_value <| (Woven.code (sealed_asText ha) |>.addLit _ |>.addCode (sealed_asText hb)).sealed (by decide)
  · refine (safe_numbered h _ _ _ sealed_noText).bind fun items hi => ?_
    exact safe_value <| (Woven.lit _ |>.addCode (sealed_joinWith hcomma hi) |>.addLit _).sealed (by decide)

theorem safe_textAppend (h : s.Safe settings) : SafeResult settings (textAppend s) := by
  refine (safe_variableName s "VAR").bind fun v hv => ?_
  refine (h.valueOr _ _ sealed_noText).bind fun code hc => ?_
  exact safe_statement <| (Woven.code hv |>.addLit _ |>.addCode (sealed_asText hc) |>.addLit _).sealed (by decide)

theorem safe_textLength (h : s.Safe settings) : SafeResult settings (textLength s) := by
  refine (h.valueOr _ _ sealed_noText).bind fun code hc => ?_
  exact safe_value <| (Woven.code hc |>.addLit _).sealed (by decide)

theorem safe_textIsEmpty (h : s.Safe settings) : SafeResult settings (textIsEmpty s) := by
  refine (h.valueOr _ _ sealed_noText).bind fun code hc => ?_
  exact safe_value <| (Woven.lit _ |>.addCode hc |>.addLit _).sealed (by decide)

theorem safe_textCharAt (hs : settings.Blank) (h : s.Safe settings) : SafeResult settings (textCharAt s) := by
  refine (h.valueOr _ _ sealed_noText).bind fun code hc => ?_
  split
  · exact safe_value <| (Woven.code hc |>.addLit _).sealed (by decide)
  · exact safe_value <| (Woven.code hc |>.addLit _).sealed (by decide)
  · refine (safe_index h _ _ _ _).bind fun i hi => ?_
    exact safe_value <| (Woven.code hc |>.addLit _ |>.addCode hi |>.addLit _).sealed (by decide)
  · refine (safe_index h _ _ _ _).bind fun i hi => ?_
    exact safe_value <| (Woven.code hc |>.addLit _ |>.addCode hi |>.addLit _).sealed (by decide)
  · refine (safe_fixed hs _ (by simp [Helpers.fixed])).bind fun fn hfn => ?_
    exact safe_value <| (Woven.code hfn |>.addLit _ |>.addCode hc |>.addLit _).sealed (by decide)
  · exact safe_unhandled s "WHERE"

theorem safe_textGetSubstring (hs : settings.Blank) (h : s.Safe settings) :
    SafeResult settings (textGetSubstring s) := by
  refine (h.valueOr _ _ sealed_noText).bind fun code hc => ?_
  dsimp only
  split
  · exact (Keeps.pure hc).bind fun _ hp => safe_value hp
  · split
    · exact (safe_directSlice h hc).bind fun _ hp => safe_value hp
    · exact (safe_helperSlice hs h hc).bind fun _ hp => safe_value hp

theorem safe_textChangeCase (hs : settings.Blank) (h : s.Safe settings) : SafeResult settings (textChangeCase s) := by
  unfold textChangeCase
  split
  · refine (h.valueOr _ _ sealed_noText).bind fun code hc => ?_
    exact safe_value <| (Woven.code hc |>.addLit _).sealed (by decide)
  · refine (h.valueOr _ _ sealed_noText).bind fun code hc => ?_
    exact safe_value <| (Woven.code hc |>.addLit _).sealed (by decide)
  · refine (h.valueOr _ _ sealed_noText).bind fun code hc => ?_
    refine (safe_fixed hs _ (by simp [Helpers.fixed])).bind fun fn hfn => ?_
    exact safe_value <| (Woven.code hfn |>.addLit _ |>.addCode hc |>.addLit _).sealed (by decide)
  · exact safe_unhandled s "CASE"

theorem sealed_trimCall : ∀ e ∈ trimCalls, Sealed e.2 := by
  simp only [trimCalls, List.forall_mem_cons]
  exact ⟨sealed_lit _ (by decide), sealed_lit _ (by decide), sealed_lit _ (by decide), by simp⟩

theorem safe_textTrim (h : s.Safe settings) : SafeResult settings (textTrim s) := by
  unfold textTrim
  split
  · next call hcall =>
    refine (h.valueOr _ _ sealed_noText).bind fun code hc => ?_
    exact safe_value (hc.append (sealed_trimCall _ (mem_of_lookup hcall)))
  · exact safe_unhandled s "MODE"

theorem safe_textPrint (h : s.Safe settings) : SafeResult settings (textPrint s) := by
  refine (h.valueOr _ _ sealed_noText).bind fun code hc => ?_
  exact safe_statement <| (Woven.lit _ |>.addCode hc |>.addLit _).sealed (by decide)

theorem safe_textPrompt (h : s.Safe settings) : SafeResult settings (textPrompt s) := by
  unfold textPrompt
  extract_lets answer
  have hanswer : ∀ question, Sealed question → SafeResult settings (answer question) := by
    intro question hq
    have hcode : Sealed ("window.prompt(" ++ question ++ ")") := (Woven.lit _
      |>.addCode hq |>.addLit _).sealed (by decide)
    unfold answer
    dsimp only
    split
    · exact safe_value <| (Woven.lit _ |>.addCode hcode |>.addLit _).sealed (by decide)
    · exact safe_value hcode
    · exact safe_value hcode
    · exact safe_unhandled s "TYPE"
  split
  · exact (Keeps.pure (sealed_quote _)).bind hanswer
  · exact (h.valueOr _ _ sealed_noText).bind hanswer

theorem safe_textCount (hs : settings.Blank) (h : s.Safe settings) : SafeResult settings (textCount s) := by
  refine (h.valueOr _ _ sealed_noText).bind fun code hc => ?_
  refine (h.valueOr _ _ sealed_noText).bind fun part hp => ?_
  refine (safe_fixed hs _ (by simp [Helpers.fixed])).bind fun fn hfn => ?_
  exact safe_value <| (Woven.code hfn |>.addLit _ |>.addCode hc |>.addLit _
    |>.addCode hp |>.addLit _).sealed (by decide)

theorem safe_textReplace (hs : settings.Blank) (h : s.Safe settings) : SafeResult settings (textReplace s) := by
  refine (h.valueOr _ _ sealed_noText).bind fun code hc => ?_
  refine (h.valueOr _ _ sealed_noText).bind fun part hp => ?_
  refine (h.valueOr _ _ sealed_noText).bind fun other ho => ?_
  refine (safe_fixed hs _ (by simp [Helpers.fixed])).bind fun fn hfn => ?_
  exact safe_value <| (Woven.code hfn |>.addLit _ |>.addCode hc |>.addLit _ |>.addCode hp |>.addLit _ |>.addCode ho
    |>.addLit _).sealed (by decide)

theorem safe_textReverse (h : s.Safe settings) : SafeResult settings (textReverse s) := by
  refine (h.valueOr _ _ sealed_noText).bind fun code hc => ?_
  exact safe_value <| (Woven.code hc |>.addLit _).sealed (by decide)

theorem safe_texts (hs : settings.Blank) (h : s.Safe settings) : ∀ e ∈ texts, SafeResult settings (e.2 s) := by
  simp only [texts, List.forall_mem_cons]
  exact ⟨safe_value (sealed_quote _), safe_textMultiline s, safe_textJoin h, safe_textAppend h, safe_textLength h,
    safe_textIsEmpty h, safe_indexOf h sealed_noText, safe_textCharAt hs h, safe_textGetSubstring hs h,
    safe_textChangeCase hs h, safe_textTrim h, safe_textPrint h, safe_textPrompt h, safe_textPrompt h,
    safe_textCount hs h, safe_textReplace hs h, safe_textReverse h, by simp⟩

end Blockwright.Emit
