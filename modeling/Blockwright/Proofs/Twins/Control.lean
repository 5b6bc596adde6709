import Blockwright.Proofs.Twins.Site
/-!
# Statements and conditions side by side

The emitters of conditions, loops, procedures, variables and colours run in step at sites whose plugs
do.
-/

namespace Blockwright.Emit

open Text

variable {π : Pairing} {s s' : Site}

/-- Both actions give bare code. -/
abbrev PairedCode (π : Pairing) (x y : Emit Result) : Prop := Paired π (Result.Bare π) x y

theorem paired_value {code : String} {order : Order} (h : opens code = true) :
    PairedCode π (pure (.value code order)) (pure (.value code order)) := .pure ⟨rfl, rfl, h⟩

theorem paired_statement {code : String} (h : opens code = true) (hends : endsLine code = true) :
    PairedCode π (pure (.statement code)) (pure (.statement code)) := .pure ⟨.same _, ⟨h, h⟩, hends, hends⟩

theorem paired_statements {code code' : String} (hcode : Inline π.remark code code')
    (hopens : opens code = true ∧ opens code' = true) (hends : endsLine code = true ∧ endsLine code' = true) :
    PairedCode π (pure (.statement code)) (pure (.statement code')) := .pure ⟨hcode, hopens, hends⟩

/-- Lines inside a block of code. -/
theorem inline_body {head body body' : String} (hhead : endsLine head = true)
    (hbody : Annotated π.remark body.toList body'.toList) (tail : String) :
    Inline π.remark (head ++ body ++ tail) (head ++ body' ++ tail) :=
  ((Inline.same head).lines hhead hbody).append (.same tail)

/-- A statement with lines inside. -/
theorem paired_body {head body body' tail : String} (hopens : opens head = true) (hhead : endsLine head = true)
    (htail : endsLine tail = true) (hbody : Annotated π.remark body.toList body'.toList) :
    PairedCode π (pure (.statement (head ++ body ++ tail))) (pure (.statement (head ++ body' ++ tail))) :=
  paired_statements (inline_body hhead hbody tail) (by simp [hopens]) (by simp [htail])

/-! ## Conditions -/

theorem branchCount_eq (h : s.Twin π s') : branchCount s' = branchCount s := by
  have hlength : s'.block.sockets.length = s.block.sockets.length := by
    simpa using congrArg List.length h.sockets
  have hextra : s'.head.extra.elseIfCount = s.head.extra.elseIfCount := by rw [h.head.extra]
  simp only [branchCount, hlength, hextra, h.hasSocket]

theorem hasElse_eq (h : s.Twin π s') : hasElse s' = hasElse s := by
  have hextra : s'.head.extra.hasElse = s.head.extra.hasElse := by rw [h.head.extra]
  rw [hasElse, hasElse, h.head.kind, hextra, h.hasSocket]

/-- Two branches that can follow other code on its line. -/
def Branches (π : Pairing) (a b : String) : Prop := Inline π.remark a b ∧ opens a = true ∧ opens b = true

theorem paired_ifBranch (hfit : π.Fit) (h : s.Twin π s') (n : Nat) :
    Paired π (Branches π) (ifBranch s n) (ifBranch s' n) := by
  refine (h.valueOr _ _ (by decide)).bind fun condition _ => ?_
  refine (h.statements hfit _).bind fun body body' hbody => ?_
  refine .pure ⟨inline_body ?_ hbody _, ?_, ?_⟩
  · simp +decide
  · simp +decide
  · simp +decide

theorem opens_branches {R : String → String → Prop} (hR : ∀ a b, R a b → opens a = true ∧ opens b = true)
    {as bs : List String} (h : List.Forall₂ R as bs) (hne : as ≠ []) (sep : String) :
    opens (joinWith sep as) = true ∧ opens (joinWith sep bs) = true := by
  cases h with
  | nil => exact absurd rfl hne
  | cons hab htail =>
    obtain ⟨ha, hb⟩ := hR _ _ hab
    cases htail with
    | nil => exact ⟨ha, hb⟩
    | cons _ _ => exact ⟨opens_append (opens_append ha _) _, opens_append (opens_append hb _) _⟩

theorem paired_controlsIf (hfit : π.Fit) (h : s.Twin π s') : PairedCode π (controlsIf s) (controlsIf s') := by
  unfold controlsIf
  rw [branchCount_eq h, hasElse_eq h]
  refine (Paired.mapM (T := (· = ·)) (R := Branches π) (List.forall₂_same.2 fun n _ => rfl) ?each).bind ?rest
  case each =>
    rintro n _ rfl
    exact paired_ifBranch hfit h n
  case rest =>
    rintro branches branches' ⟨hbranches, hlength⟩
    have hne : branches ≠ [] := by
      rintro rfl
      rw [List.length_nil, List.length_range, branchCount] at hlength
      omega
    have hcode := Inline.joinWith " else " (hbranches.imp fun _ _ hab => hab.1)
    have hopens := opens_branches (fun _ _ hab => hab.2) hbranches hne " else "
    dsimp only
    split
    · refine (h.statements hfit _).bind fun body body' hbody => ?_
      refine paired_statements ?_ ?_ ?_
      · exact ((hcode.append (.same _)).lines (by simp +decide) hbody).append (.same _)
      · simp [hopens]
      · simp +decide
    · exact paired_statements (hcode.append (.same _)) (by simp [hopens]) (by simp +decide)

theorem paired_logicCompare (h : s.Twin π s') : PairedCode π (logicCompare s) (logicCompare s') := by
  unfold logicCompare
  rw [h.head.field (by decide : "OP" ≠ "VAR")]
  cases comparisons.lookup (s.head.field "OP") with
  | none => exact h.unhandled (by decide)
  | some op =>
    refine (h.valueOr _ _ (by decide)).bind fun a ha => ?_
    refine (h.valueOr _ _ (by decide)).bind fun b _ => ?_
    exact paired_value (by simp [ha])

theorem opens_logicalOperator : ∀ e ∈ logicalOperators, opens e.2.identity = true := by decide

theorem paired_logicOperation (h : s.Twin π s') : PairedCode π (logicOperation s) (logicOperation s') := by
  unfold logicOperation
  rw [h.head.field (by decide : "OP" ≠ "VAR")]
  cases hop : logicalOperators.lookup (s.head.field "OP") with
  | none => exact h.unhandled (by decide)
  | some op =>
    have hidentity : opens op.identity = true := opens_logicalOperator _ (mem_of_lookup hop)
    refine (h.value _ _).bind fun a ha => ?_
    refine (h.value _ _).bind fun b _ => ?_
    dsimp only
    split
    · exact paired_value (by decide)
    · have ha' : opens (if a = "" then op.identity else a) = true := by
        split_ifs with hempty
        · exact hidentity
        · exact ha.resolve_left hempty
      exact paired_value (by simp [ha'])

theorem paired_logicNegate (h : s.Twin π s') : PairedCode π (logicNegate s) (logicNegate s') := by
  refine (h.valueOr _ _ (by decide)).bind fun code _ => ?_
  exact paired_value (by simp +decide)

theorem paired_logicBoolean (h : s.Twin π s') : PairedCode π (logicBoolean s) (logicBoolean s') := by
  unfold logicBoolean
  rw [h.head.field (by decide : "BOOL" ≠ "VAR")]
  exact paired_value (by split_ifs <;> decide)

theorem paired_logicTernary (h : s.Twin π s') : PairedCode π (logicTernary s) (logicTernary s') := by
  refine (h.valueOr _ _ (by decide)).bind fun condition hc => ?_
  refine (h.valueOr _ _ (by decide)).bind fun yes _ => ?_
  refine (h.valueOr _ _ (by decide)).bind fun no _ => ?_
  exact paired_value (by simp [hc])

theorem paired_logic (hfit : π.Fit) (h : s.Twin π s') : ∀ e ∈ logic, PairedCode π (e.2 s) (e.2 s') := by
  have hnull : PairedCode π (logicNull s) (logicNull s') := paired_value (by decide)
  simp only [logic, List.forall_mem_cons]
  exact ⟨paired_controlsIf hfit h, paired_controlsIf hfit h, paired_logicCompare h, paired_logicOperation h,
    paired_logicNegate h, paired_logicBoolean h, hnull, paired_logicTernary h, by simp⟩

/-! ## Loops -/

theorem paired_loopBody (hfit : π.Fit) (h : s.Twin π s') (socket : String) :
    Paired π (fun a b => Annotated π.remark a.toList b.toList) (loopBody s socket) (loopBody s' socket) := by
  refine (h.statements hfit socket).bind fun body body' hbody => ?_
  refine Agree.bind .read fun settings hs => ?_
  subst hs
  split
  · exact .pure hbody
  · next htrap =>
    -- the trap shows the id, which only differs where there is none
    have hid : s'.head.id = s.head.id := h.head.id.resolve_left htrap
    have hends : endsLine π.settings.loopTrap = true := hfit.loopTrap.resolve_left htrap
    dsimp only
    rw [hid]
    refine .pure ((Inline.same _).lines ?_ hbody).annotated
    exact endsLine_prefixLines (endsLine_replaceAll (by decide) (by decide) _ hends) _

/-- What goes in front of a loop and what stands for an operand. -/
theorem agree_cached {code : String} (seed : String) (h : opens code = true) :
    Agree π (fun r => (opens r.1 = true ∨ Unbroken r.1) ∧ (opens r.2 = true ∨ Unbroken r.2))
      (cached code seed) (cached code seed) := by
  unfold cached
  split
  · exact Agree.pure ⟨.inr (by simp [Unbroken]), .inl h⟩
  · refine (agree_distinctVariable _).bind fun name hname => ?_
    exact Agree.pure ⟨.inl (by simp +decide), .inr hname⟩

theorem agree_repeats (h : s.Twin π s') : Agree π (fun code => opens code = true) (repeats s) (repeats s') := by
  unfold repeats
  rw [h.head.field? (by decide : "TIMES" ≠ "VAR")]
  split
  · split
    · exact Agree.pure (opens_format _)
    · exact h.unhandled (by decide)
  · exact h.valueOr _ _ (by decide)

theorem paired_controlsRepeat (hfit : π.Fit) (h : s.Twin π s') :
    PairedCode π (controlsRepeat s) (controlsRepeat s') := by
  refine (agree_repeats h).bind fun times ht => ?_
  refine (paired_loopBody hfit h "DO").bind fun body body' hbody => ?_
  refine (agree_distinctVariable _).bind fun loopVar _ => ?_
  refine (agree_cached _ ht).bind fun ⟨before, endVar⟩ hr => ?_
  exact paired_body (by simp +decide [hr.1]) (by simp +decide) (by decide) hbody

theorem paired_controlsWhileUntil (hfit : π.Fit) (h : s.Twin π s') :
    PairedCode π (controlsWhileUntil s) (controlsWhileUntil s') := by
  unfold controlsWhileUntil
  rw [h.head.field (by decide : "MODE" ≠ "VAR")]
  dsimp only
  split
  · exact h.unhandled (by decide)
  · refine (h.valueOr _ _ (by decide)).bind fun condition _ => ?_
    refine (paired_loopBody hfit h "DO").bind fun body body' hbody => ?_
    exact paired_body (by simp +decide) (by simp +decide) (by decide) hbody

theorem endsLine_foldedHeader (v start stop step : String) : endsLine (foldedHeader v start stop step) = true := by
  unfold foldedHeader
  exact endsLine_append _ (by decide)

theorem opens_foldedHeader (v start stop step : String) : opens (foldedHeader v start stop step) = true := by
  have hfor : opens "for (" = true := by decide
  unfold foldedHeader
  simp only [opens_append_iff, hfor, true_or]

theorem endsLine_generalHeader (v start stop inc : String) : endsLine (generalHeader v start stop inc) = true := by
  unfold generalHeader
  exact endsLine_append _ (by decide)

theorem paired_controlsFor (hfit : π.Fit) (h : s.Twin π s') : PairedCode π (controlsFor s) (controlsFor s') := by
  refine h.variableName.bind fun v _ => ?_
  refine (h.valueOr _ _ (by decide)).bind fun start hstart => ?_
  refine (h.valueOr _ _ (by decide)).bind fun stop hstop => ?_
  refine (h.valueOr _ _ (by decide)).bind fun step _ => ?_
  refine (paired_loopBody hfit h "DO").bind fun body body' hbody => ?_
  split
  · exact paired_body (opens_foldedHeader _ _ _ _) (endsLine_foldedHeader _ _ _ _) (by decide) hbody
  · refine (agree_cached _ hstart).bind fun ⟨beforeStart, startVar⟩ hfrom => ?_
    refine (agree_cached _ hstop).bind fun ⟨beforeStop, stopVar⟩ hto => ?_
    refine (agree_distinctVariable _).bind fun inc _ => ?_
    refine Agree.indent.bind fun indent _ => ?_
    refine paired_body ?_ ?_ (by decide) hbody
    · have hvar : opens "var " = true := by decide
      rcases hfrom.1 with h₁ | h₁ <;> rcases hto.1 with h₂ | h₂ <;> simp [h₁, h₂, hvar]
    · exact endsLine_append _ (endsLine_generalHeader _ _ _ _)

theorem paired_controlsForEach (hfit : π.Fit) (h : s.Twin π s') :
    PairedCode π (controlsForEach s) (controlsForEach s') := by
  refine h.variableName.bind fun v hv => ?_
  refine (h.valueOr _ _ (by decide)).bind fun list hlist => ?_
  refine (paired_loopBody hfit h "DO").bind fun body body' hbody => ?_
  -- the list stays where it is or goes into a variable; the loop behind is the same
  extract_lets loop loop'
  have hloop : ∀ r : String × String, opens r.1 = true ∨ Unbroken r.1 → PairedCode π (loop r) (loop' r) := by
    intro r hr
    refine (agree_distinctVariable _).bind fun indexVar _ => ?_
    refine Agree.indent.bind fun indent _ => ?_
    exact paired_body (by simp +decide [hr]) (by simp +decide) (by decide) hbody
  split
  · exact Agree.bind (Agree.pure (.inr (by simp [Unbroken]))) hloop
  · refine (agree_distinctVariable _).bind fun name _ => ?_
    exact Agree.bind (Agree.pure (.inl (by simp +decide))) hloop

theorem paired_controlsFlow (h : s.Twin π s') : PairedCode π (controlsFlow s) (controlsFlow s') := by
  unfold controlsFlow
  rw [h.head.field (by decide : "FLOW" ≠ "VAR")]
  split
  · exact paired_statement (by decide) (by decide)
  · exact paired_statement (by decide) (by decide)
  · exact h.unhandled (by decide)

theorem paired_repeatWhile (hfit : π.Fit) (h : s.Twin π s') : PairedCode π (repeatWhile s) (repeatWhile s') := by
  refine (h.valueOr _ _ (by decide)).bind fun condition _ => ?_
  refine (paired_loopBody hfit h "BODY").bind fun body body' hbody => ?_
  refine paired_statements ?_ (by simp +decide) (by simp +decide)
  exact ((inline_body (by decide) hbody _).append (.same _)).append (.same _)

theorem paired_loops (hfit : π.Fit) (h : s.Twin π s') : ∀ e ∈ loops, PairedCode π (e.2 s) (e.2 s') := by
  simp only [loops, List.forall_mem_cons]
  exact ⟨paired_controlsRepeat hfit h, paired_controlsRepeat hfit h, paired_controlsWhileUntil hfit h,
    paired_controlsFor hfit h, paired_controlsForEach hfit h, paired_controlsFlow h, by simp⟩

/-! ## Procedures -/

theorem agree_numbered (h : s.Twin π s') (start : String) (n : Nat) (order : Order) {fallback : String}
    (hf : opens fallback = true) :
    Agree π (fun _ => True) (numbered s start n order fallback) (numbered s' start n order fallback) := by
  have heach : ∀ i j : Nat, i = j → Agree π (fun code => opens code = true)
      (s.valueOr (start ++ Text.ofNat i) order fallback) (s'.valueOr (start ++ Text.ofNat j) order fallback) := by
    rintro i _ rfl
    exact h.valueOr _ _ hf
  exact Agree.mapM (List.forall₂_same.2 fun _ _ => rfl) heach

theorem agree_params (h : s.Twin π s') :
    Agree π (fun _ => True) (s.head.extra.params.mapM fun p => name (paramKey p) .variable)
      (s'.head.extra.params.mapM fun p => name (paramKey p) .variable) :=
  Agree.mapM h.head.params fun _ _ hkey => agree_variable hkey

theorem paired_proceduresDef (hfit : π.Fit) (h : s.Twin π s') (hdefinition : s.head.isDefinition = true) :
    PairedCode π (proceduresDef s) (proceduresDef s') := by
  unfold proceduresDef
  rw [h.head.written (by decide : "NAME" ≠ "VAR")]
  refine (agree_procedureName _).bind fun fn _ => ?_
  refine (paired_loopBody hfit h "STACK").bind fun body body' hbody => ?_
  refine (h.value _ _).bind fun result _ => ?_
  extract_lets definition definition'
  have hcode : ∀ last, PairedCode π (definition last) (definition' last) := by
    intro last
    refine (agree_params h).bind fun params _ => ?_
    refine Paired.bind (h.dress_definition ?_ ?_ hdefinition) fun code code' hdressed => ?_
    · exact (inline_body (by simp +decide) hbody _).append (.same _)
    · simp +decide
    · exact (paired_define _ hdressed).bind fun _ _ _ => .pure trivial
  split
  · exact Agree.bind (Agree.pure trivial) fun last (_ : True) => hcode last
  · refine Agree.indent.bind fun indent _ => ?_
    exact Agree.bind (Agree.pure trivial) fun last (_ : True) => hcode last

theorem agree_procedureCall (h : s.Twin π s') :
    Agree π (fun code => opens code = true) (procedureCall s) (procedureCall s') := by
  have hname : s'.head.extra.name = s.head.extra.name := by rw [h.head.extra]
  unfold procedureCall
  rw [h.head.written? _ (by decide : "NAME" ≠ "VAR"), hname, h.socketCount, ← h.head.params.length_eq]
  refine (agree_procedureName _).bind fun fn hfn => ?_
  refine (agree_numbered h _ _ _ (by decide)).bind fun arguments _ => ?_
  exact Agree.pure (by simp +decide [hfn])

theorem paired_proceduresIfReturn (h : s.Twin π s') : PairedCode π (proceduresIfReturn s) (proceduresIfReturn s') := by
  have hextra : s'.head.extra.hasReturnValue = s.head.extra.hasReturnValue := by rw [h.head.extra]
  unfold proceduresIfReturn
  rw [hextra, h.hasSocket]
  refine (h.valueOr _ _ (by decide)).bind fun condition _ => ?_
  extract_lets statement
  have hstatement : ∀ last, PairedCode π (statement last) (statement last) := by
    intro last
    refine Agree.indent.bind fun indent _ => ?_
    exact paired_statement (by simp +decide) (by simp +decide)
  split
  · refine (h.valueOr _ _ (by decide)).bind fun code _ => ?_
    exact Agree.bind (Agree.pure trivial) fun last (_ : True) => hstatement last
  · exact Agree.bind (Agree.pure trivial) fun last (_ : True) => hstatement last

theorem paired_procedures (hfit : π.Fit) (h : s.Twin π s') :
    ∀ e ∈ procedures, e.1 = s.head.kind → PairedCode π (e.2 s) (e.2 s') := by
  simp only [procedures, List.forall_mem_cons]
  refine ⟨fun hkind => ?_, fun hkind => ?_, fun _ => ?_, fun _ => ?_, fun _ => paired_proceduresIfReturn h, by simp⟩
  · exact paired_proceduresDef hfit h (by simp [Head.isDefinition, ← hkind])
  · exact paired_proceduresDef hfit h (by simp [Head.isDefinition, ← hkind])
  · exact (agree_procedureCall h).bind fun code hc => paired_value hc
  · exact (agree_procedureCall h).bind fun code hc => paired_statement (by simp [hc]) (by simp +decide)

/-! ## Variables and colours -/

theorem paired_variablesSet (h : s.Twin π s') : PairedCode π (variablesSet s) (variablesSet s') := by
  refine (h.valueOr _ _ (by decide)).bind fun code _ => ?_
  refine h.variableName.bind fun v hv => ?_
  exact paired_statement (by simp +decide [hv]) (by simp +decide)

theorem paired_colourPicker (h : s.Twin π s') : PairedCode π (colourPicker s) (colourPicker s') := by
  unfold colourPicker
  rw [h.head.field (by decide : "COLOUR" ≠ "VAR")]
  exact paired_value (opens_quote _)

theorem paired_colourRandom (π : Pairing) (s s' : Site) : PairedCode π (colourRandom s) (colourRandom s') := by
  refine (agree_provide _ _).bind fun fn hfn => ?_
  exact paired_value (by simp +decide [hfn])

theorem paired_colourRgb (h : s.Twin π s') : PairedCode π (colourRgb s) (colourRgb s') := by
  refine (h.valueOr _ _ (by decide)).bind fun red _ => ?_
  refine (h.valueOr _ _ (by decide)).bind fun green _ => ?_
  refine (h.valueOr _ _ (by decide)).bind fun blue _ => ?_
  refine (agree_provide _ _).bind fun fn hfn => ?_
  exact paired_value (by simp +decide [hfn])

theorem paired_colourBlend (h : s.Twin π s') : PairedCode π (colourBlend s) (colourBlend s') := by
  refine (h.valueOr _ _ (by decide)).bind fun first _ => ?_
  refine (h.valueOr _ _ (by decide)).bind fun second _ => ?_
  refine (h.valueOr _ _ (by decide)).bind fun ratio _ => ?_
  refine (agree_provide _ _).bind fun fn hfn => ?_
  exact paired_value (by simp +decide [hfn])

theorem paired_stringLength (h : s.Twin π s') : PairedCode π (stringLength s) (stringLength s') := by
  refine (h.valueOr _ _ (by decide)).bind fun code hc => ?_
  exact paired_value (by simp [hc])

end Blockwright.Emit
