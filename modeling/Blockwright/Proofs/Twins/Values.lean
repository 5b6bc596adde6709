import Blockwright.Proofs.Twins.Control
/-!
# Numbers, lists and texts side by side

The emitters of values run in step at sites whose plugs do: they read the same options and are given
the same operands, so they write the same code.
-/

namespace Blockwright.Emit

open Text

variable {π : Pairing} {s s' : Site}

/-! ## Positions -/

theorem agree_index (h : s.Twin π s') (socket : String) (delta : Int) (negate : Bool) (outer : Order) :
    Agree π (fun code => opens code = true) (s.index socket delta negate outer) (s'.index socket delta negate outer) := by
  refine h.oneBased.bind fun oneBased _ => ?_
  have hfirst : opens (if oneBased then "1" else "0") = true := by cases oneBased <;> decide
  refine (h.valueOr _ _ hfirst).bind fun code hc => ?_
  split
  · split
    · exact Agree.pure (opens_format _)
    · exact .fail _
  · exact Agree.pure (opens_shiftCode hc _ _ _)

/-! ## Numbers -/

theorem paired_mathNumber (h : s.Twin π s') : PairedCode π (mathNumber s) (mathNumber s') := by
  unfold mathNumber
  rw [h.head.field (by decide : "NUM" ≠ "VAR")]
  extract_lets text
  split
  · exact paired_value (by decide)
  · split
    · exact paired_value (opens_format _)
    · exact h.unhandled (by decide)

theorem paired_mathArithmetic (h : s.Twin π s') : PairedCode π (mathArithmetic s) (mathArithmetic s') := by
  unfold mathArithmetic
  rw [h.head.field (by decide : "OP" ≠ "VAR")]
  rcases arithmeticOperators.lookup (s.head.field "OP") with _ | ⟨op, order⟩
  · exact h.unhandled (by decide)
  · refine (h.valueOr _ _ (by decide)).bind fun a ha => ?_
    refine (h.valueOr _ _ (by decide)).bind fun b _ => ?_
    split
    · exact paired_value (by simp +decide)
    · exact paired_value (by simp [ha])

theorem opens_singleCall : ∀ e ∈ singleCalls, opens e.2.1 = true := by decide

theorem opens_singleDivision : ∀ e ∈ singleDivisions, opens e.2.1 = true := by decide

theorem paired_mathSingle (h : s.Twin π s') : PairedCode π (mathSingle s) (mathSingle s') := by
  unfold mathSingle
  rw [h.head.field (by decide : "OP" ≠ "VAR")]
  extract_lets op
  split
  · refine (h.valueOr _ _ (by decide)).bind fun code _ => ?_
    exact paired_value (by simp +decide)
  · cases hcall : singleCalls.lookup op with
    | some e =>
      refine (h.valueOr _ _ (by decide)).bind fun code _ => ?_
      exact paired_value (by simp [opens_singleCall _ (mem_of_lookup hcall)])
    | none =>
      cases hdivision : singleDivisions.lookup op with
      | some e =>
        refine (h.valueOr _ _ (by decide)).bind fun code _ => ?_
        exact paired_value (by simp [opens_singleDivision _ (mem_of_lookup hdivision)])
      | none => exact h.unhandled (by decide)

theorem opens_constant : ∀ e ∈ constants, opens e.2.1 = true := by decide

theorem paired_mathConstant (h : s.Twin π s') : PairedCode π (mathConstant s) (mathConstant s') := by
  unfold mathConstant
  rw [h.head.field (by decide : "CONSTANT" ≠ "VAR")]
  cases hfound : constants.lookup (s.head.field "CONSTANT") with
  | none => exact h.unhandled (by decide)
  | some e => exact paired_value (opens_constant _ (mem_of_lookup hfound))

theorem paired_mathNumberProperty (h : s.Twin π s') :
    PairedCode π (mathNumberProperty s) (mathNumberProperty s') := by
  unfold mathNumberProperty
  rw [h.head.field (by decide : "PROPERTY" ≠ "VAR")]
  refine (h.valueOr _ _ (by decide)).bind fun code hc => ?_
  split
  · refine (agree_provide _ _).bind fun fn hfn => ?_
    exact paired_value (by simp +decide [hfn])
  · refine (h.valueOr _ _ (by decide)).bind fun divisor _ => ?_
    exact paired_value (by simp [hc])
  · split
    · exact paired_value (by simp [hc])
    · exact h.unhandled (by decide)

theorem paired_mathChange (h : s.Twin π s') : PairedCode π (mathChange s) (mathChange s') := by
  refine (h.valueOr _ _ (by decide)).bind fun delta _ => ?_
  refine h.variableName.bind fun v hv => ?_
  exact paired_statement (by simp +decide [hv]) (by simp +decide)

theorem paired_mathOnList (h : s.Twin π s') : PairedCode π (mathOnList s) (mathOnList s') := by
  unfold mathOnList
  rw [h.head.field (by decide : "OP" ≠ "VAR")]
  rcases listReducers.lookup (s.head.field "OP") with _ | ⟨name, body⟩
  · exact h.unhandled (by decide)
  · refine (agree_provide _ _).bind fun fn hfn => ?_
    refine (h.valueOr _ _ (by decide)).bind fun list _ => ?_
    exact paired_value (by simp +decide [hfn])

theorem paired_mathModulo (h : s.Twin π s') : PairedCode π (mathModulo s) (mathModulo s') := by
  refine (h.valueOr _ _ (by decide)).bind fun dividend hd => ?_
  refine (h.valueOr _ _ (by decide)).bind fun divisor _ => ?_
  exact paired_value (by simp [hd])

theorem paired_mathConstrain (h : s.Twin π s') : PairedCode π (mathConstrain s) (mathConstrain s') := by
  refine (h.valueOr _ _ (by decide)).bind fun v _ => ?_
  refine (h.valueOr _ _ (by decide)).bind fun low _ => ?_
  refine (h.valueOr _ _ (by decide)).bind fun high _ => ?_
  exact paired_value (by simp +decide)

theorem paired_mathRandomInt (h : s.Twin π s') : PairedCode π (mathRandomInt s) (mathRandomInt s') := by
  refine (h.valueOr _ _ (by decide)).bind fun low _ => ?_
  refine (h.valueOr _ _ (by decide)).bind fun high _ => ?_
  refine (agree_provide _ _).bind fun fn hfn => ?_
  exact paired_value (by simp +decide [hfn])

theorem paired_mathAtan2 (h : s.Twin π s') : PairedCode π (mathAtan2 s) (mathAtan2 s') := by
  refine (h.valueOr _ _ (by decide)).bind fun x _ => ?_
  refine (h.valueOr _ _ (by decide)).bind fun y _ => ?_
  exact paired_value (by simp +decide)

theorem paired_math (h : s.Twin π s') : ∀ e ∈ math, PairedCode π (e.2 s) (e.2 s') := by
  have hnumber := paired_mathNumber h
  have hrandom : PairedCode π (mathRandomFloat s) (mathRandomFloat s') := paired_value (by decide)
  simp only [math, List.forall_mem_cons]
  exact ⟨hnumber, paired_mathArithmetic h, paired_mathSingle h, paired_mathSingle h, paired_mathSingle h,
    paired_mathConstant h, paired_mathNumberProperty h, paired_mathChange h, paired_mathOnList h, paired_mathModulo h,
    paired_mathConstrain h, paired_mathRandomInt h, hrandom, paired_mathAtan2 h, by simp⟩

/-! ## Lists -/

theorem itemCount_eq (h : s.Twin π s') : itemCount s'.block = itemCount s.block := by
  have hextra : s'.head.extra.itemCount = s.head.extra.itemCount := by rw [h.head.extra]
  rw [itemCount, itemCount, h.socketCount]
  exact congrArg (fun n => (max n (socketCount s.block "ADD")).toNat) hextra

theorem paired_listsCreateWith (h : s.Twin π s') : PairedCode π (listsCreateWith s) (listsCreateWith s') := by
  unfold listsCreateWith
  rw [itemCount_eq h]
  refine (agree_numbered h _ _ _ (by decide)).bind fun items _ => ?_
  exact paired_value (by simp +decide)

theorem paired_listsRepeat (h : s.Twin π s') : PairedCode π (listsRepeat s) (listsRepeat s') := by
  refine (agree_provide _ _).bind fun fn hfn => ?_
  refine (h.valueOr _ _ (by decide)).bind fun item _ => ?_
  refine (h.valueOr _ _ (by decide)).bind fun count _ => ?_
  exact paired_value (by simp +decide [hfn])

theorem paired_listsLength (h : s.Twin π s') : PairedCode π (listsLength s) (listsLength s') := by
  refine (h.valueOr _ _ (by decide)).bind fun list hl => ?_
  exact paired_value (by simp [hl])

theorem paired_listsIsEmpty (h : s.Twin π s') : PairedCode π (listsIsEmpty s) (listsIsEmpty s') := by
  refine (h.valueOr _ _ (by decide)).bind fun list _ => ?_
  exact paired_value (by simp +decide)

theorem paired_indexOf (h : s.Twin π s') {fallback : String} (hf : opens fallback = true) :
    PairedCode π (indexOf fallback s) (indexOf fallback s') := by
  unfold indexOf
  rw [h.head.field (by decide : "END" ≠ "VAR")]
  cases [("FIRST", "indexOf"), ("LAST", "lastIndexOf")].lookup (s.head.field "END") with
  | none => exact h.unhandled (by decide)
  | some method =>
    refine (h.valueOr _ _ (by decide)).bind fun item _ => ?_
    refine (h.valueOr _ _ hf).bind fun sequence hq => ?_
    refine h.oneBased.bind fun oneBased _ => ?_
    split
    · exact paired_value (by simp [hq])
    · exact paired_value (by simp [hq])

theorem paired_taken (h : s.Twin π s') {get remove : String} (mode : String) (getOrder removeOrder : Order)
    (hg : opens get = true) (hr : opens remove = true) :
    PairedCode π (taken s mode get getOrder remove removeOrder) (taken s' mode get getOrder remove removeOrder) := by
  unfold taken
  split
  · exact paired_value hg
  · exact paired_value hr
  · exact paired_statement (by simp [hr]) (by simp +decide)
  · exact h.unhandled (by decide)

theorem paired_listsGetIndex (h : s.Twin π s') : PairedCode π (listsGetIndex s) (listsGetIndex s') := by
  unfold listsGetIndex
  rw [h.head.fieldOr (by decide : "MODE" ≠ "VAR"), h.head.fieldOr (by decide : "WHERE" ≠ "VAR")]
  generalize s.head.fieldOr "MODE" "GET" = mode, s.head.fieldOr "WHERE" "FROM_START" = place
  refine (h.valueOr _ _ (by decide)).bind fun list hl => ?_
  split
  · exact paired_taken h _ _ _ (by simp [hl]) (by simp [hl])
  · exact paired_taken h _ _ _ (by simp [hl]) (by simp [hl])
  · refine (agree_index h _ _ _ _).bind fun i _ => ?_
    split
    · exact paired_value (by simp [hl])
    · exact paired_value (by simp [hl])
    · exact paired_statement (by simp [hl]) (by simp +decide)
    · exact h.unhandled (by decide)
  · refine (agree_index h _ _ _ _).bind fun i _ => ?_
    split
    · exact paired_value (by simp [hl])
    · exact paired_value (by simp [hl])
    · exact paired_statement (by simp [hl]) (by simp +decide)
    · exact h.unhandled (by decide)
  · refine (agree_provide _ _).bind fun fn hfn => ?_
    exact paired_taken h _ _ _ (by simp +decide [hfn]) (by simp +decide [hfn])
  · exact h.unhandled (by decide)

/-- What goes in front and what stands for a list; it is not empty. -/
theorem agree_cachedList {list : String} (h : opens list = true) :
    Agree π (fun r => (opens r.1 = true ∨ Unbroken r.1) ∧ (opens r.2 = true ∨ Unbroken r.2))
      (cachedList list) (cachedList list) := by
  unfold cachedList
  split
  · exact Agree.pure ⟨.inr (by simp [Unbroken]), .inl h⟩
  · refine (agree_distinctVariable _).bind fun name hname => ?_
    exact Agree.pure ⟨.inl (by simp +decide), .inr hname⟩

theorem paired_placed {before list : String} (mode i item : String) (hb : opens before = true ∨ Unbroken before)
    (hl : opens list = true ∨ Unbroken list) :
    PairedCode π (pure (placed before list mode i item)) (pure (placed before list mode i item)) := by
  unfold placed
  split
  · refine paired_statement ?_ (by simp +decide)
    rcases hb with hb | hb <;> rcases hl with hl | hl <;> simp +decide [hb, hl]
  · refine paired_statement ?_ (by simp +decide)
    rcases hb with hb | hb <;> rcases hl with hl | hl <;> simp +decide [hb, hl]

theorem paired_listsSetIndex (h : s.Twin π s') : PairedCode π (listsSetIndex s) (listsSetIndex s') := by
  unfold listsSetIndex
  rw [h.head.fieldOr (by decide : "MODE" ≠ "VAR"), h.head.fieldOr (by decide : "WHERE" ≠ "VAR")]
  generalize s.head.fieldOr "MODE" "GET" = mode, s.head.fieldOr "WHERE" "FROM_START" = place
  refine (h.valueOr _ _ (by decide)).bind fun list hl => ?_
  refine (h.valueOr _ _ (by decide)).bind fun item _ => ?_
  split
  · split
    · exact paired_statement (by simp [hl]) (by simp +decide)
    · exact paired_statement (by simp [hl]) (by simp +decide)
    · exact h.unhandled (by decide)
  · split
    · refine (agree_cachedList hl).bind fun ⟨before, listVar⟩ hr => ?_
      exact paired_placed _ _ _ hr.1 hr.2
    · exact paired_statement (by simp [hl]) (by simp +decide)
    · exact h.unhandled (by decide)
  · refine (agree_index h _ _ _ _).bind fun i _ => ?_
    split
    · exact paired_placed _ _ _ (.inr (by decide)) (.inl hl)
    · exact h.unhandled (by decide)
  · refine (agree_index h _ _ _ _).bind fun i _ => ?_
    split
    · refine (agree_cachedList hl).bind fun ⟨before, listVar⟩ hr => ?_
      exact paired_placed _ _ _ hr.1 hr.2
    · exact h.unhandled (by decide)
  · dsimp only
    split
    · refine (agree_cachedList hl).bind fun ⟨before, listVar⟩ hr => ?_
      refine (agree_distinctVariable _).bind fun x _ => ?_
      refine paired_placed _ _ _ (.inl ?_) hr.2
      rcases hr.1 with hb | hb <;> simp +decide [hb]
    · exact h.unhandled (by decide)
  · exact h.unhandled (by decide)

/-! ## Slices -/

theorem agree_sliceStart (h : s.Twin π s') (sequence : String) :
    Agree π (fun _ => True) (sliceStart s sequence) (sliceStart s' sequence) := by
  unfold sliceStart
  rw [h.head.field (by decide : "WHERE1" ≠ "VAR")]
  split
  · exact (agree_index h _ _ _ _).mono fun _ _ hab => ⟨hab.1, trivial⟩
  · exact (agree_index h _ _ _ _).bind fun i _ => Agree.pure trivial
  · exact Agree.pure trivial
  · exact h.unhandled (by decide)

theorem agree_sliceEnd (h : s.Twin π s') (sequence : String) :
    Agree π (fun _ => True) (sliceEnd s sequence) (sliceEnd s' sequence) := by
  unfold sliceEnd
  rw [h.head.field (by decide : "WHERE2" ≠ "VAR")]
  split
  · exact (agree_index h _ _ _ _).mono fun _ _ hab => ⟨hab.1, trivial⟩
  · exact (agree_index h _ _ _ _).bind fun i _ => Agree.pure trivial
  · exact Agree.pure trivial
  · exact h.unhandled (by decide)

theorem agree_directSlice (h : s.Twin π s') {sequence : String} (hq : opens sequence = true) :
    Agree π (fun code => opens code = true) (directSlice s sequence) (directSlice s' sequence) := by
  refine (agree_sliceStart h sequence).bind fun start _ => ?_
  refine (agree_sliceEnd h sequence).bind fun stop _ => ?_
  exact Agree.pure (by simp [hq])

theorem agree_helperSlice (h : s.Twin π s') (sequence : String) :
    Agree π (fun code => opens code = true) (helperSlice s sequence) (helperSlice s' sequence) := by
  unfold helperSlice
  rw [h.head.field (by decide : "WHERE1" ≠ "VAR"), h.head.field (by decide : "WHERE2" ≠ "VAR")]
  extract_lets place1 place2
  split
  · exact h.unhandled (by decide)
  · split
    · exact h.unhandled (by decide)
    · refine (agree_index h _ _ _ _).bind fun i _ => ?_
      refine (agree_index h _ _ _ _).bind fun j _ => ?_
      refine (agree_provide _ _).bind fun fn hfn => ?_
      exact Agree.pure (by simp +decide [hfn])

theorem paired_listsGetSublist (h : s.Twin π s') : PairedCode π (listsGetSublist s) (listsGetSublist s') := by
  unfold listsGetSublist
  rw [h.head.field (by decide : "WHERE1" ≠ "VAR"), h.head.field (by decide : "WHERE2" ≠ "VAR")]
  refine (h.valueOr _ _ (by decide)).bind fun list hl => ?_
  extract_lets place1 place2 result
  have hresult : ∀ code, opens code = true → PairedCode π (result code) (result code) := fun code hc => paired_value hc
  split
  · exact Agree.bind (Agree.pure (by simp [hl])) hresult
  · split
    · exact (agree_directSlice h hl).bind hresult
    · exact (agree_helperSlice h list).bind hresult

/-! ## Other lists -/

theorem paired_listsSort (h : s.Twin π s') : PairedCode π (listsSort s) (listsSort s') := by
  unfold listsSort
  rw [h.head.field (by decide : "DIRECTION" ≠ "VAR"), h.head.field (by decide : "TYPE" ≠ "VAR")]
  refine (h.valueOr _ _ (by decide)).bind fun list hl => ?_
  extract_lets direction type
  split
  · refine (agree_provide _ _).bind fun fn _ => ?_
    exact paired_value (by simp [hl])
  · exact h.unhandled (by decide)

theorem paired_listsSplit (h : s.Twin π s') : PairedCode π (listsSplit s) (listsSplit s') := by
  unfold listsSplit
  rw [h.head.field (by decide : "MODE" ≠ "VAR")]
  refine (h.value _ _).bind fun input hi => ?_
  have hinput : ∀ fallback, opens fallback = true → opens (if input = "" then fallback else input) = true := by
    intro fallback hf
    split_ifs with hempty
    · exact hf
    · exact hi.resolve_left hempty
  refine (h.valueOr _ _ (by decide)).bind fun delimiter _ => ?_
  split
  · exact paired_value (by simp [hinput "''" (by decide)])
  · exact paired_value (by simp [hinput "[]" (by decide)])
  · exact h.unhandled (by decide)

theorem paired_listsReverse (h : s.Twin π s') : PairedCode π (listsReverse s) (listsReverse s') := by
  refine (h.valueOr _ _ (by decide)).bind fun list hl => ?_
  exact paired_value (by simp [hl])

theorem paired_lists (h : s.Twin π s') : ∀ e ∈ lists, PairedCode π (e.2 s) (e.2 s') := by
  have hempty : PairedCode π (listsCreateEmpty s) (listsCreateEmpty s') := paired_value (by decide)
  simp only [lists, List.forall_mem_cons]
  exact ⟨hempty, paired_listsCreateWith h, paired_listsRepeat h, paired_listsLength h, paired_listsIsEmpty h,
    paired_indexOf h (by decide), paired_listsGetIndex h, paired_listsSetIndex h, paired_listsGetSublist h,
    paired_listsSort h, paired_listsSplit h, paired_listsReverse h, by simp⟩

/-! ## Texts -/

theorem opens_asText {code : String} (h : opens code = true) : opens (asText code) = true := by
  unfold asText
  split
  · exact h
  · simp +decide

theorem paired_text (h : s.Twin π s') : PairedCode π (text s) (text s') := by
  unfold text
  rw [h.head.field (by decide : "TEXT" ≠ "VAR")]
  exact paired_value (opens_quote _)

theorem paired_textMultiline (h : s.Twin π s') : PairedCode π (textMultiline s) (textMultiline s') := by
  unfold textMultiline
  rw [h.head.field (by decide : "TEXT" ≠ "VAR")]
  refine paired_value ?_
  split_ifs
  · simp +decide
  · exact opens_quoteLines _

theorem paired_textJoin (h : s.Twin π s') : PairedCode π (textJoin s) (textJoin s') := by
  unfold textJoin
  rw [itemCount_eq h]
  split
  · exact paired_value (by decide)
  · refine (h.valueOr _ _ (by decide)).bind fun a ha => ?_
    exact paired_value (opens_asText ha)
  · refine (h.valueOr _ _ (by decide)).bind fun a ha => ?_
    refine (h.valueOr _ _ (by decide)).bind fun b _ => ?_
    exact paired_value (by simp [opens_asText ha])
  · refine (agree_numbered h _ _ _ (by decide)).bind fun items _ => ?_
    exact paired_value (by simp +decide)

theorem paired_textAppend (h : s.Twin π s') : PairedCode π (textAppend s) (textAppend s') := by
  refine h.variableName.bind fun v hv => ?_
  refine (h.valueOr _ _ (by decide)).bind fun code _ => ?_
  exact paired_statement (by simp +decide [hv]) (by simp +decide)

theorem paired_textLength (h : s.Twin π s') : PairedCode π (textLength s) (textLength s') := by
  refine (h.valueOr _ _ (by decide)).bind fun code hc => ?_
  exact paired_value (by simp [hc])

theorem paired_textIsEmpty (h : s.Twin π s') : PairedCode π (textIsEmpty s) (textIsEmpty s') := by
  refine (h.valueOr _ _ (by decide)).bind fun code _ => ?_
  exact paired_value (by simp +decide)

theorem paired_textCharAt (h : s.Twin π s') : PairedCode π (textCharAt s) (textCharAt s') := by
  unfold textCharAt
  rw [h.head.fieldOr (by decide : "WHERE" ≠ "VAR")]
  generalize s.head.fieldOr "WHERE" "FROM_START" = place
  refine (h.valueOr _ _ (by decide)).bind fun code hc => ?_
  split
  · exact paired_value (by simp [hc])
  · exact paired_value (by simp [hc])
  · refine (agree_index h _ _ _ _).bind fun i _ => ?_
    exact paired_value (by simp [hc])
  · refine (agree_index h _ _ _ _).bind fun i _ => ?_
    exact paired_value (by simp [hc])
  · refine (agree_provide _ _).bind fun fn hfn => ?_
    exact paired_value (by simp +decide [hfn])
  · exact h.unhandled (by decide)

theorem paired_textGetSubstring (h : s.Twin π s') : PairedCode π (textGetSubstring s) (textGetSubstring s') := by
  unfold textGetSubstring
  rw [h.head.field (by decide : "WHERE1" ≠ "VAR"), h.head.field (by decide : "WHERE2" ≠ "VAR")]
  refine (h.valueOr _ _ (by decide)).bind fun code hc => ?_
  extract_lets place1 place2 result
  have hresult : ∀ part, opens part = true → PairedCode π (result part) (result part) := fun part hp => paired_value hp
  split
  · exact Agree.bind (Agree.pure hc) hresult
  · split
    · exact (agree_directSlice h hc).bind hresult
    · exact (agree_helperSlice h code).bind hresult

theorem paired_textChangeCase (h : s.Twin π s') : PairedCode π (textChangeCase s) (textChangeCase s') := by
  unfold textChangeCase
  rw [h.head.field (by decide : "CASE" ≠ "VAR")]
  split
  · refine (h.valueOr _ _ (by decide)).bind fun code hc => ?_
    exact paired_value (by simp [hc])
  · refine (h.valueOr _ _ (by decide)).bind fun code hc => ?_
    exact paired_value (by simp [hc])
  · refine (h.valueOr _ _ (by decide)).bind fun code _ => ?_
    refine (agree_provide _ _).bind fun fn hfn => ?_
    exact paired_value (by simp +decide [hfn])
  · exact h.unhandled (by decide)

theorem paired_textTrim (h : s.Twin π s') : PairedCode π (textTrim s) (textTrim s') := by
  unfold textTrim
  rw [h.head.field (by decide : "MODE" ≠ "VAR")]
  cases trimCalls.lookup (s.head.field "MODE") with
  | none => exact h.unhandled (by decide)
  | some call =>
    refine (h.valueOr _ _ (by decide)).bind fun code hc => ?_
    exact paired_value (by simp [hc])

theorem paired_textPrint (h : s.Twin π s') : PairedCode π (textPrint s) (textPrint s') := by
  refine (h.valueOr _ _ (by decide)).bind fun code _ => ?_
  exact paired_statement (by simp +decide) (by simp +decide)

theorem paired_textPrompt (h : s.Twin π s') : PairedCode π (textPrompt s) (textPrompt s') := by
  unfold textPrompt
  rw [h.head.field? (by decide : "TEXT" ≠ "VAR"), h.head.field (by decide : "TYPE" ≠ "VAR")]
  extract_lets answer answer'
  have hanswer : ∀ question, PairedCode π (answer question) (answer' question) := by
    intro question
    dsimp only [answer, answer']
    split
    · exact paired_value (by simp +decide)
    · exact paired_value (by simp +decide)
    · exact paired_value (by simp +decide)
    · exact h.unhandled (by decide)
  split
  · exact Agree.bind (Agree.pure trivial) fun question (_ : True) => hanswer question
  · exact (h.valueOr _ _ (by decide)).bind fun question _ => hanswer question

theorem paired_textCount (h : s.Twin π s') : PairedCode π (textCount s) (textCount s') := by
  refine (h.valueOr _ _ (by decide)).bind fun code _ => ?_
  refine (h.valueOr _ _ (by decide)).bind fun part _ => ?_
  refine (agree_provide _ _).bind fun fn hfn => ?_
  exact paired_value (by simp +decide [hfn])

theorem paired_textReplace (h : s.Twin π s') : PairedCode π (textReplace s) (textReplace s') := by
  refine (h.valueOr _ _ (by decide)).bind fun code _ => ?_
  refine (h.valueOr _ _ (by decide)).bind fun part _ => ?_
  refine (h.valueOr _ _ (by decide)).bind fun other _ => ?_
  refine (agree_provide _ _).bind fun fn hfn => ?_
  exact paired_value (by simp +decide [hfn])

theorem paired_textReverse (h : s.Twin π s') : PairedCode π (textReverse s) (textReverse s') := by
  refine (h.valueOr _ _ (by decide)).bind fun code hc => ?_
  exact paired_value (by simp [hc])

theorem paired_texts (h : s.Twin π s') : ∀ e ∈ texts, PairedCode π (e.2 s) (e.2 s') := by
  simp only [texts, List.forall_mem_cons]
  exact ⟨paired_text h, paired_textMultiline h, paired_textJoin h, paired_textAppend h, paired_textLength h,
    paired_textIsEmpty h, paired_indexOf h (by decide), paired_textCharAt h, paired_textGetSubstring h,
    paired_textChangeCase h, paired_textTrim h, paired_textPrint h, paired_textPrompt h, paired_textPrompt h,
    paired_textCount h, paired_textReplace h, paired_textReverse h, by simp⟩

/-! ## All kinds -/

/-- An emission behind which a failure on record is raised. -/
def checked (x : Emit Result) : Emit Result := do
  let result ← x
  Emit.check
  return result

theorem PairedCode.checked {x y : Emit Result} (h : PairedCode π x y) : PairedCode π (checked x) (checked y) :=
  Paired.bind h fun _ _ hr => Paired.bind paired_check fun _ _ _ => .pure hr

/-- What is left to do once a variable has its name. -/
theorem run_variablesGet (settings : PassSettings) (s : Site) (p : Pass) :
    (checked (variablesGet s)).run settings p =
      (do check
          return .value (p.names.get (s.head.written "VAR") .variable).1 Order.atomic : Emit Result).run settings
        { p with names := (p.names.get (s.head.written "VAR") .variable).2 } := rfl

/-- A variable without a name leaves a failure on record. -/
theorem paired_variablesGet (h : s.Twin π s') :
    PairedCode π (checked (variablesGet s)) (checked (variablesGet s')) := by
  intro p q hpq
  obtain ⟨htwin, hsame, -⟩ : Pass.Twin π { p with names := (p.names.get (s.head.written "VAR") .variable).2 }
      { q with names := (q.names.get (s'.head.written "VAR") .variable).2 } ∧
      (p.names.get (s.head.written "VAR") .variable).1 = (q.names.get (s'.head.written "VAR") .variable).1 ∧ _ :=
    (endAlike_modifyGet _ _).1 (agree_variable h.head.key p q hpq)
  have hanswer := hpq.sound.answered_get (s.head.written "VAR") .variable
  rw [run_variablesGet, run_variablesGet, ← hsame, run_bind, run_bind, run_check, run_check, htwin.failure?_eq]
  rcases hanswer with hlegal | ⟨-, hfailed⟩
  · cases Pass.failure? { p with names := (p.names.get (s.head.written "VAR") .variable).2 } with
    | none => exact endAlike_ok.2 ⟨htwin, rfl, rfl, opens_of_isLegal hlegal⟩
    | some cause => exact endAlike_error.2 ⟨rfl, rfl⟩
  · cases hfailure : Pass.failure? { p with names := (p.names.get (s.head.written "VAR") .variable).2 } with
    | none => exact absurd (Pass.failure?_eq_none.1 hfailure).2 hfailed
    | some cause => exact endAlike_error.2 ⟨rfl, rfl⟩

theorem paired_vars (hfit : π.Fit) (h : s.Twin π s') :
    ∀ e ∈ vars, PairedCode π (checked (e.2 s)) (checked (e.2 s')) := by
  simp only [vars, List.forall_mem_cons]
  exact ⟨paired_variablesGet h, paired_variablesGet h, (paired_variablesSet h).checked,
    (paired_variablesSet h).checked, (paired_colourPicker h).checked, (paired_colourRandom π s s').checked,
    (paired_colourRgb h).checked, (paired_colourBlend h).checked, (paired_stringLength h).checked,
    (paired_repeatWhile hfit h).checked, by simp⟩

/-- Every emitter writes code in step, and what goes wrong is found behind it. -/
theorem paired_standard (hfit : π.Fit) (h : s.Twin π s') :
    ∀ e ∈ standard, e.1 = s.head.kind → PairedCode π (checked (e.2 s)) (checked (e.2 s')) := by
  intro e he hkind
  simp only [standard, List.mem_append, or_assoc] at he
  rcases he with he | he | he | he | he | he | he
  · exact (paired_logic hfit h e he).checked
  · exact (paired_loops hfit h e he).checked
  · exact (paired_math h e he).checked
  · exact (paired_lists h e he).checked
  · exact (paired_texts h e he).checked
  · exact (paired_procedures hfit h e he hkind).checked
  · exact paired_vars hfit h e he

end Blockwright.Emit
