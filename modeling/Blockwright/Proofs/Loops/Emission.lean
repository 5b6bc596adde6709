import Blockwright.Proofs.Loops.Counting
import Blockwright.Proofs.Loops.Sources
import Blockwright.Proofs.Workspace.Mapped
/-!
# The code of a counting loop

A counting loop names its control variable, emits its operands and its body, and then writes its header: a
folded one over three numbers, and otherwise one behind lines that make the operands ready. Either header
is read back from the code of the block, and under it the control variable takes the values of counting from
the first operand to the second one by the third one.
-/

namespace Blockwright

open Operators Emit Loops

variable {settings : PassSettings} {p q : Pass} {b : Block} {socket : String} {key : RawText}

namespace Loops

/-- The name of a variable is the same from then on. -/
theorem run_name {v : String} (hsound : p.names.Sound) (hrun : (Emit.name key .variable).run settings p = (.ok v, q))
    (hclean : q.names.failure = none) {p' : Pass} (hlater : q.Later p') :
    (p'.names.get key .variable).1 = v ∧ Identifier.isLegal v = true ∧ v ∈ p'.names.used := by
  have hname : (p.names.get key .variable).1 = v := Except.ok.inj (congrArg Prod.fst hrun)
  have hnames : (p.names.get key .variable).2 = q.names := congrArg (·.2.names) hrun
  obtain ⟨hknown, htext⟩ := Leaf.known_serve hsound (hnames ▸ hclean)
  rw [hnames] at hknown htext
  obtain ⟨hknown', htext'⟩ := hknown.mono hlater.1.grows hlater.1.idNames
  have hsame : (p'.names.get key .variable).1 = v := (htext'.trans htext).trans hname
  have hused := used_of_known hlater.2 hknown'
  rw [hsame] at hused
  exact ⟨hsame, hused⟩

/-! ## What is emitted behind the operands -/

/-- How a loop counts from one operand to another by a third one: three literals are known to be so. -/
def countOf (a b c : Atom) (env : Env) : Nat → Option Double :=
  if Text.isNumber a.code && Text.isNumber b.code && Text.isNumber c.code then
    foldedCount (a.value env) (b.value env) (c.value env)
  else generalCount (a.value env) (b.value env) (c.value env)

theorem countOf_ofDouble {x y z : Double} (hx : x.HasLiteral) (hy : y.HasLiteral) (hz : z.HasLiteral) (env : Env) :
    countOf (.ofDouble x) (.ofDouble y) (.ofDouble z) env =
      if Text.isNumber x.format && Text.isNumber y.format && Text.isNumber z.format then foldedCount x y z
      else generalCount x y z := by
  unfold countOf
  rw [Atom.code_ofDouble hx, Atom.code_ofDouble hy, Atom.code_ofDouble hz, Atom.value_ofDouble hx, Atom.value_ofDouble hy,
    Atom.value_ofDouble hz]

theorem countOf_ofName {x y z : String} (hx : Identifier.isLegal x = true) (hy : Identifier.isLegal y = true)
    (hz : Identifier.isLegal z = true) (env : Env) :
    countOf (.ofName x) (.ofName y) (.ofName z) env = generalCount (env x) (env y) (env z) := by
  unfold countOf
  rw [Atom.code_ofName, Script.isNumber_of_isLegal hx, Bool.false_and, Bool.false_and, if_neg Bool.false_ne_true,
    Atom.value_ofName hx, Atom.value_ofName hy, Atom.value_ofName hz]

/-- What a counting loop is emitted as when its variable, its operands and its body have been. -/
def counting (v start stop step body : String) : Emit Result :=
  if Text.isNumber start && Text.isNumber stop && Text.isNumber step then
    return .statement (foldedHeader v start stop step ++ body ++ "\x7d\n")
  else do
    let (beforeStart, startVar) ← cached start (v ++ "_start")
    let (beforeStop, stopVar) ← cached stop (v ++ "_end")
    let inc ← distinctVariable (v ++ "_inc")
    return .statement (beforeStart ++ beforeStop ++ "var " ++ inc ++ " = " ++ stepSize step ++ ";\n"
      ++ "if (" ++ startVar ++ " > " ++ stopVar ++ ") \x7b\n"
      ++ (← Emit.indent) ++ inc ++ " = -" ++ inc ++ ";\n" ++ "\x7d\n"
      ++ generalHeader v startVar stopVar inc ++ body ++ "\x7d\n")

theorem controlsFor_eq (s : Site) : controlsFor s = (do
    let v ← s.variableName "VAR"
    let start ← s.valueOr "FROM" Order.assignment "0"
    let stop ← s.valueOr "TO" Order.assignment "0"
    let step ← s.valueOr "BY" Order.assignment "1"
    let body ← loopBody s "DO"
    counting v start stop step body) := rfl

section
variable {n : Names} {a e c : Atom} {v body : String} {r : Result}

theorem exists_double (h : Operand n a) (hnumber : Text.isNumber a.code = true) :
    ∃ x : Double, x.HasLiteral ∧ a = .ofDouble x := by
  cases h with
  | literal h => exact ⟨_, h, rfl⟩
  | name legal used => exact Bool.noConfusion (hnumber.symm.trans (Script.isNumber_of_isLegal legal))

/-- The increment is set to the size of the step. -/
theorem exists_size (h : Operand n c) : ∃ size : Change, size.Proper ∧ size.code = " = " ++ stepSize c.code ∧
    ∀ env t, size.value env t = (c.value env).abs := by
  by_cases hnumber : Text.isNumber c.code = true
  · obtain ⟨z, hz, rfl⟩ := exists_double h hnumber
    refine ⟨.set (.ofDouble z.abs), Atom.proper_ofDouble hz.abs, ?_, fun env t => ?_⟩
    · rw [stepSize, if_pos hnumber, Change.code, Atom.code_ofDouble hz, Atom.code_ofDouble hz.abs, hz.literalValue_format]
    · rw [Change.value, Atom.value_ofDouble hz, Atom.value_ofDouble hz.abs]
  · refine ⟨.size c, h.proper, ?_, fun env t => rfl⟩
    rw [stepSize, if_neg hnumber, Change.code]
    simp only [String.append_assoc]
    rfl

theorem journaled_cached (code seed : String) : Journaled settings Demand.Modest (cached code seed) := by
  unfold cached
  split
  · exact .pure _
  · exact (Journaled.demand (d := .call (.distinct seed .variable)) ⟨_, rfl, by simp [Call.key?]⟩).bind fun name => .pure _

theorem journaled_distinctVariable (seed : RawText) : Journaled settings Demand.Modest (distinctVariable seed) :=
  .demand (d := .call (.distinct seed .variable)) ⟨_, rfl, by simp [Call.key?]⟩

theorem journaled_counting (v start stop step body : String) :
    Journaled settings Demand.Modest (counting v start stop step body) := by
  unfold counting
  split
  · exact .pure _
  · refine (journaled_cached _ _).bind fun _ => (journaled_cached _ _).bind fun _ =>
      (journaled_distinctVariable _).bind fun _ => ?_
    exact (Journaled.compositional settings Demand.Modest).indent.bind fun _ => .pure _

/-- What is emitted over operands behind the name of the control variable. -/
structure Counts (n : Names) (v : String) (a e c : Atom) : Prop where
  control : Identifier.isLegal v = true
  used : v ∈ n.used
  start : Operand n a
  stop : Operand n e
  step : Operand n c
  apart : e ≠ .ofName v

/-- Over three literals the header is folded. -/
theorem exists_foldedLoop (h : Counts n v a e c)
    (hnumbers : (Text.isNumber a.code && Text.isNumber e.code && Text.isNumber c.code) = true)
    (indent : String) : ∃ l : Loop, foldedHeader v a.code e.code c.code = l.code indent ∧ l.Proper ∧ l.start.name = v ∧
      ∀ env, l.values env = countOf a e c env := by
  obtain ⟨hpair, hc⟩ := Bool.and_eq_true_iff.1 hnumbers
  obtain ⟨ha, he⟩ := Bool.and_eq_true_iff.1 hpair
  obtain ⟨x, hx, rfl⟩ := exists_double h.start ha
  obtain ⟨y, hy, rfl⟩ := exists_double h.stop he
  obtain ⟨z, hz, rfl⟩ := exists_double h.step hc
  refine ⟨foldedLoop v x y z, ?_, proper_foldedLoop h.control hx hy hz, rfl, fun env => ?_⟩
  · rw [Atom.code_ofDouble hx, Atom.code_ofDouble hy, Atom.code_ofDouble hz]
    exact foldedHeader_eq hx hy hz indent
  · rw [countOf, if_pos hnumbers, Atom.value_ofDouble hx, Atom.value_ofDouble hy, Atom.value_ofDouble hz]
    exact values_foldedLoop h.control hx hy hz env

/-- Over other operands the lines in front of the header make them ready. -/
theorem exists_generalLoop {p₁ p₂ : Pass} {lines lines' : List Line} {a' e' : Atom} {inc : String} (h : Counts p.names v a e c)
    (hstart : Cached p.names p₁.names a lines a') (hstop : Cached p₁.names p₂.names e lines' e')
    (hinc : Identifier.isLegal inc = true) (hfresh : inc ∉ p₂.names.used)
    (hnumbers : (Text.isNumber a.code && Text.isNumber e.code && Text.isNumber c.code) = false) (indent : String) :
    ∃ l : Loop, linesCode indent (lines ++ lines') ++ ("var " ++ inc ++ (" = " ++ stepSize c.code) ++ ";\n" ++
        "if (" ++ a'.code ++ " > " ++ e'.code ++ ") \x7b\n" ++ indent ++ inc ++ " = -" ++ inc ++ ";\n" ++ "\x7d\n" ++
        generalHeader v a'.code e'.code inc) = l.code indent ∧ l.Proper ∧ l.start.name = v ∧ ∀ env, l.values env = countOf a e c env := by
  obtain ⟨size, hsize, hcode, hvalue⟩ := exists_size h.step
  have hready : Ready p₂.names v inc a' e' := {
    control := h.control
    used := hstop.grows.used _ (hstart.grows.used _ h.used)
    increment := hinc
    fresh := hfresh
    start := hstart.operand.mono hstop.grows
    stop := hstop.operand
    apart := hstop.apart v (hstart.grows.used _ h.used) h.apart }
  refine ⟨generalLoop (lines ++ lines') v inc a' e' size, ?_, ?_, rfl, fun env => ?_⟩
  · rw [← hcode]
    exact generalHeader_eq indent
  · exact proper_generalLoop hready (List.forall_mem_append.2 ⟨hstart.proper, hstop.proper⟩) hsize
  · have henv : (lines ++ lines').foldl Line.run env = lines'.foldl Line.run (lines.foldl Line.run env) := List.foldl_append
    have hc : c.value (lines'.foldl Line.run (lines.foldl Line.run env)) = c.value env :=
      (hstop.keeps _ c (h.step.mono hstart.grows)).trans (hstart.keeps env c h.step)
    have ha : a'.value (lines'.foldl Line.run (lines.foldl Line.run env)) = a.value env :=
      (hstop.keeps _ a' hstart.operand).trans (hstart.value env)
    have he : e'.value (lines'.foldl Line.run (lines.foldl Line.run env)) = e.value env :=
      (hstop.value _).trans (hstart.keeps env e h.stop)
    rw [values_generalLoop hready henv ((hvalue _ _).trans (congrArg Double.abs hc)), ha, he, countOf, hnumbers,
      if_neg Bool.false_ne_true]

theorem exists_of_run_counting (hsound : p.names.Sound) (h : Counts p.names v a e c)
    (hrun : (counting v a.code e.code c.code body).run settings p = (.ok r, q)) (hclean : q.names.failure = none) :
    ∃ (l : Loop) (rest : String), r = .statement (l.code settings.indent ++ rest) ∧ l.Proper ∧ l.start.name = v ∧
      ∀ env, l.values env = countOf a e c env := by
  unfold counting at hrun
  split at hrun
  · rename_i hnumbers
    obtain ⟨rfl, rfl⟩ := run_pure_eq_ok_iff.1 hrun
    obtain ⟨l, hcode, hl⟩ := exists_foldedLoop h hnumbers settings.indent
    exact ⟨l, body ++ "\x7d\n", by rw [hcode, String.append_assoc], hl⟩
  · rename_i hnumbers
    obtain ⟨⟨beforeStart, startVar⟩, p₁, hstart, hrest⟩ := run_bind_eq_ok_iff.1 hrun
    obtain ⟨⟨beforeStop, stopVar⟩, p₂, hstop, hrest⟩ := run_bind_eq_ok_iff.1 hrest
    obtain ⟨inc, p₃, hinc, hrest⟩ := run_bind_eq_ok_iff.1 hrest
    obtain ⟨indent, p₄, hindent, hpure⟩ := run_bind_eq_ok_iff.1 hrest
    cases hindent
    obtain ⟨rfl, rfl⟩ := run_pure_eq_ok_iff.1 hpure
    have hlater₁ := (journaled_cached _ _).later hsound hstart
    have hlater₂ := (journaled_cached _ _).later hlater₁.2 hstop
    have hlater₃ := (journaled_distinctVariable _).later hlater₂.2 hinc
    have hclean₂ := hlater₃.1.grows.failure_none hclean
    have hclean₁ := hlater₂.1.grows.failure_none hclean₂
    obtain ⟨lines, a', rfl, rfl, hstart'⟩ := exists_cached hsound h.start hstart hclean₁ settings.indent
    obtain ⟨lines', e', rfl, rfl, hstop'⟩ := exists_cached hlater₁.2 (h.stop.mono hlater₁.1.grows) hstop hclean₂ settings.indent
    obtain ⟨hlegal, hfresh, -⟩ := fresh_of_distinctVariable hlater₂.2 hinc hclean
    obtain ⟨l, hcode, hl⟩ := exists_generalLoop h hstart' hstop' hlegal hfresh (Bool.eq_false_iff.2 hnumbers) settings.indent
    refine ⟨l, body ++ "\x7d\n", ?_, hl⟩
    rw [← hcode, linesCode_append]
    simp only [String.append_assoc]

end
end Loops

/-! ## Blocks -/

/-- A result with more code in front of its own and behind it. -/
def Result.between (front behind : String) : Result → Result
  | .handled => .handled
  | .statement code => .statement (front ++ code ++ behind)
  | .value code order => .value (front ++ code ++ behind) order

namespace Block

/-- An enabled counting loop. -/
structure Counting (b : Block) : Prop where
  kind : b.head.kind = "controls_for"
  enabled : b.head.disabled = false

/-- The name of the control variable in a registry. -/
def control (b : Block) (n : Names) : String := (n.get (b.head.written "VAR") .variable).1

theorem journaled_plug (b : Block) {socket : String} {plug : Plug} (h : (b.site standard).plug? socket = some plug) :
    Journaled settings Demand.Modest plug.emit := by
  obtain ⟨s, -, -, -, hemit⟩ := plug?_site h
  exact hemit ▸ Generator.licensed_standard.journaled_block _ _

theorem journaled_valueOr (b : Block) (socket : String) (outer : Order) (fallback : String) :
    Journaled settings Demand.Modest ((b.site standard).valueOr socket outer fallback) :=
  ((Journaled.compositional settings Demand.Modest).value outer fun _ => b.journaled_plug).bind fun _ => .pure _

theorem journaled_loopBody (b : Block) (socket : String) :
    Journaled settings Demand.Modest (loopBody (b.site standard) socket) := by
  refine ((Journaled.compositional settings Demand.Modest).statements fun _ => b.journaled_plug).bind fun body =>
    Journaled.read.bind fun settings => ?_
  split <;> exact .pure _

theorem journaled_variableName (b : Block) (field : String) :
    Journaled settings Demand.Modest ((b.site standard).variableName field) :=
  .demand (d := .call (.name _ .variable)) ⟨_, rfl, by simp [Call.key?]⟩

/-- What is emitted for a counting loop itself, with the names that its variables have from then on. -/
theorem exists_of_run_controlsFor {start stop step : Source} (hfrom : b.Feeds "FROM" start) (hto : b.Feeds "TO" stop)
    (hby : b.Feeds "BY" step) (hsound : p.names.Sound) (hclean : p.failure? = none) {r : Result}
    (hrun : (controlsFor (b.site standard)).run settings p = (.ok r, q)) (hclean' : q.names.failure = none) {p' : Pass}
    (hlater : q.Later p')
    (hapart : isDecimal (stop.atom p'.names).leaf = true ∨ stop.atom p'.names ≠ .ofName (b.control p'.names)) :
    (start.Known p'.names ∧ stop.Known p'.names ∧ step.Known p'.names) ∧ ∃ (l : Loop) (rest : String),
      r = .statement (l.code settings.indent ++ rest) ∧ l.Proper ∧ l.start.name = b.control p'.names ∧
      ∀ env, l.values env = countOf (start.atom p'.names) (stop.atom p'.names) (step.atom p'.names) env := by
  rw [controlsFor_eq] at hrun
  obtain ⟨v, p₁, hv, hrest⟩ := run_bind_eq_ok_iff.1 hrun
  obtain ⟨startCode, p₂, hstart, hrest⟩ := run_bind_eq_ok_iff.1 hrest
  obtain ⟨stopCode, p₃, hstop, hrest⟩ := run_bind_eq_ok_iff.1 hrest
  obtain ⟨stepCode, p₄, hstep, hrest⟩ := run_bind_eq_ok_iff.1 hrest
  obtain ⟨body, p₅, hbody, hcounting⟩ := run_bind_eq_ok_iff.1 hrest
  have hlater₁ := (b.journaled_variableName _).later hsound hv
  have hlater₂ := (b.journaled_valueOr _ _ _).later hlater₁.2 hstart
  have hlater₃ := (b.journaled_valueOr _ _ _).later hlater₂.2 hstop
  have hlater₄ := (b.journaled_valueOr _ _ _).later hlater₃.2 hstep
  have hlater₅ := (b.journaled_loopBody _).later hlater₄.2 hbody
  have hlater₆ := (journaled_counting _ _ _ _ _).later hlater₅.2 hcounting
  -- from each moment on to the moment where the header is written
  have h₄ := hlater₅
  have h₃ := hlater₄.trans h₄
  have h₂ := hlater₃.trans h₃
  have h₁ := hlater₂.trans h₂
  have hend := hlater₆.trans hlater
  have hnames₁ : p₁.names.failure = none := (h₁.trans hlater₆).1.grows.failure_none hclean'
  have hclean₁ : p₁.failure? = none := by
    have hfailure : p.failure = p₁.failure := congrArg (·.2.failure) hv
    exact Pass.failure?_eq_none.2 ⟨hfailure ▸ (Pass.failure?_eq_none.1 hclean).1, hnames₁⟩
  obtain ⟨hclean₂, a, rfl, ha⟩ := hfrom.run hlater₁.2 hclean₁ hstart
  obtain ⟨hclean₃, e, rfl, he⟩ := hto.run hlater₂.2 hclean₂ hstop
  obtain ⟨-, c, rfl, hc⟩ := hby.run hlater₃.2 hclean₃ hstep
  obtain ⟨-, hlegal, hused⟩ := run_name hsound hv hnames₁ h₁
  have hcontrol : b.control p'.names = v := (run_name hsound hv hnames₁ (h₁.trans hend)).1
  have hoperand : ∀ {s : Source} {a : Atom}, s.atom p₅.names = a ∧ s.Known p₅.names → Loops.Operand p₅.names a :=
    fun h => h.1 ▸ h.2.operand
  rw [(ha p' (h₂.trans hend)).1, (he p' (h₃.trans hend)).1, (hc p' (h₄.trans hend)).1, hcontrol]
  rw [(he p' (h₃.trans hend)).1, hcontrol] at hapart
  have hcounts : Counts p₅.names v a e c := {
    control := hlegal
    used := hused
    start := hoperand (ha p₅ h₂)
    stop := hoperand (he p₅ h₃)
    step := hoperand (hc p₅ h₄)
    apart := by
      rintro rfl
      rcases hapart with hdecimal | hne
      · exact Bool.noConfusion (hdecimal.symm.trans (Atom.isDecimal_of_isLegal hlegal))
      · exact hne rfl }
  exact ⟨⟨(ha p' (h₂.trans hend)).2, (he p' (h₃.trans hend)).2, (hc p' (h₄.trans hend)).2⟩,
    exists_of_run_counting hlater₅.2 hcounts hcounting hclean'⟩

theorem journaled_nextCode (b : Block) : Journaled settings Demand.Modest (b.site standard).nextCode := by
  refine (Journaled.compositional settings Demand.Modest).nextCode fun plug hplug => ?_
  exact (next_site hplug).2 ▸ Generator.licensed_standard.journaled_block _ _

/-- The code of a block begins with its comments and its own code. -/
theorem exists_rest {thisOnly : Bool} {r : Result} (henabled : b.head.disabled = false)
    (hsound : p.names.Sound) (hrun : (b.emit standard thisOnly).run settings p = (.ok r, q)) :
    ∃ emitter own p', standard.lookup b.head.kind = some emitter ∧ (emitter (b.site standard)).run settings p = (.ok own, p') ∧
      p'.failure? = none ∧ p'.Later q ∧ ∃ rest, r = own.between (commentLines b) rest := by
  have hjournaled : Journaled settings Demand.Modest ((b.site standard).emit standard true) := by
    rw [← emit_of_enabled henabled true]
    exact Generator.licensed_standard.journaled_block b true
  rw [emit_of_enabled henabled] at hrun
  cases thisOnly with
  | true =>
    obtain ⟨emitter, own, hfound, hemitter, rfl, -⟩ := Site.exists_of_run_emit hrun
    refine ⟨emitter, own, q, hfound, hemitter, Site.failure?_of_run_emit hrun,
      ⟨.refl q, (hjournaled.later hsound hrun).2⟩, "", ?_⟩
    cases own <;> simp only [Site.commented, Result.between, String.append_empty] <;> rfl
  | false =>
    rw [Site.emit_false_eq] at hrun
    obtain ⟨r', p', hr', hfollowed⟩ := run_bind_eq_ok_iff.1 hrun
    obtain ⟨emitter, own, hfound, hemitter, rfl, -⟩ := Site.exists_of_run_emit hr'
    have hsound' := (hjournaled.later hsound hr').2
    refine ⟨emitter, own, p', hfound, hemitter, Site.failure?_of_run_emit hr', ?_⟩
    cases own with
    | handled =>
      obtain ⟨rfl, rfl⟩ := run_pure_eq_ok_iff.1 hfollowed
      exact ⟨⟨.refl _, hsound'⟩, "", rfl⟩
    | statement code =>
      obtain ⟨next, p'', hnext, hpure⟩ := run_bind_eq_ok_iff.1 hfollowed
      obtain ⟨rfl, rfl⟩ := run_pure_eq_ok_iff.1 hpure
      exact ⟨b.journaled_nextCode.later hsound' hnext, next, rfl⟩
    | value code order =>
      obtain ⟨next, p'', hnext, hpure⟩ := run_bind_eq_ok_iff.1 hfollowed
      obtain ⟨rfl, rfl⟩ := run_pure_eq_ok_iff.1 hpure
      exact ⟨b.journaled_nextCode.later hsound' hnext, next, rfl⟩

/-- Behind its comments the code of a counting loop begins with a header under which the control variable takes
the values of counting from one operand to another by a third one. -/
theorem exists_header (hindent : ∀ c ∈ settings.indent.toList, Text.isCodeBlank c = true) (hb : b.Counting)
    {start stop step : Source} (hfrom : b.Feeds "FROM" start) (hto : b.Feeds "TO" stop) (hby : b.Feeds "BY" step)
    (hsound : p.names.Sound) (hclean : p.failure? = none) {thisOnly : Bool} {r : Result}
    (hrun : (b.emit standard thisOnly).run settings p = (.ok r, q))
    (hapart : isDecimal (stop.atom q.names).leaf = true ∨ stop.atom q.names ≠ .ofName (b.control q.names)) :
    (start.Known q.names ∧ stop.Known q.names ∧ step.Known q.names) ∧
      ∃ l : Loop, Loop.ofCode? r.code = some l ∧ l.start.name = b.control q.names ∧
      ∀ env, l.values env = countOf (start.atom q.names) (stop.atom q.names) (step.atom q.names) env := by
  obtain ⟨emitter, own, p', hfound, hemitter, hclean', hlater, hcode⟩ := exists_rest hb.enabled hsound hrun
  have hfor : emitter = controlsFor := by
    rw [hb.kind] at hfound
    exact (Option.some.inj hfound).symm
  subst hfor
  obtain ⟨hknown, l, rest, rfl, hproper, hname, hvalues⟩ :=
    exists_of_run_controlsFor hfrom hto hby hsound hclean hemitter (Pass.failure?_eq_none.1 hclean').2 hlater hapart
  obtain ⟨next, rfl⟩ := hcode
  refine ⟨hknown, l, ?_, hname, hvalues⟩
  have hcode : commentLines b ++ (l.code settings.indent ++ rest) ++ next =
      commentLines b ++ l.code settings.indent ++ (rest ++ next) := by simp only [String.append_assoc]
  rw [Result.between, Result.code, hcode]
  exact Loop.ofCode?_code (commentary_commentLines b) hproper hindent (rest ++ next)

/-! ## Loops over three blocks -/

/-- A counting loop over three blocks, with nothing in its body. -/
def countingOver (start stop step : Block) : Block :=
  ⟨{ kind := "controls_for", fields := [⟨"VAR", .ofString "i", true⟩] },
    [⟨"FROM", .value, some start⟩, ⟨"TO", .value, some stop⟩, ⟨"BY", .value, some step⟩], none⟩

/-- The literal of a whole number. -/
def literalOf (k : Int) : Block :=
  ⟨{ kind := "math_number", fields := [⟨"NUM", .ofString (Text.ofInt k), false⟩], link := .value }, [], none⟩

theorem holdsWhole_literalOf {k : Int} (hplugged : b.plugged? socket = some (literalOf k))
    (hfinite : ∃ s m e, Double.ofInt k = .finite s m e) : b.HoldsWhole socket k := by
  obtain ⟨s, m, e, hk⟩ := hfinite
  refine ⟨⟨literalOf k, hplugged, ?_, rfl, rfl, rfl, ?_⟩, s, m, e, hk⟩
  · simp [Silent, literalOf, blocks, socketBlocks, nextBlocks, commentLines, Head.outputConnected]
  · have htext : (literalOf k).head.field "NUM" = Text.ofInt k := by
      simp [literalOf, Head.field, Head.field?, Head.written?]
    rw [htext]
    exact Double.read_ofInt hk

section
variable {first second third : Block} {start stop step : Source}

/-- Where there are names for its variables, the loop is emitted as its operands are. -/
theorem run_countingOver (settings : PassSettings) (hfrom : (countingOver first second third).Feeds "FROM" start)
    (hto : (countingOver first second third).Feeds "TO" stop) (hby : (countingOver first second third).Feeds "BY" step)
    (htrap : settings.loopTrap = "") (hsound : p.names.Sound) (hclean : p.failure? = none) {v : String} {n₁ n₂ n₃ n₄ : Names}
    (hv : p.names.get (.ofString "i") .variable = (v, n₁)) (h₂ : n₁.after start.requests = n₂) (h₃ : n₂.after stop.requests = n₃)
    (h₄ : n₃.after step.requests = n₄) (hnames : n₄.failure = none) :
    (controlsFor ((countingOver first second third).site standard)).run settings p =
      (counting v (start.atom n₂).code (stop.atom n₃).code (step.atom n₄).code "").run settings { p with names := n₄ } ∧
      start.Known n₂ ∧ stop.Known n₃ ∧ step.Known n₄ := by
  subst h₂ h₃ h₄
  have hserved : (p.names.serve (.get (.ofString "i") .variable)).2 = n₁ := congrArg Prod.snd hv
  have hsound₁ : n₁.Sound := hserved ▸ hsound.serve _
  have hnames₃ := (step.grows _).failure_none hnames
  have hnames₂ := (stop.grows _).failure_none hnames₃
  have hnames₁ := (start.grows _).failure_none hnames₂
  have hfailure := (Pass.failure?_eq_none.1 hclean).1
  have hclean' : ∀ n : Names, n.failure = none → ({ p with names := n } : Pass).failure? = none :=
    fun n hn => Pass.failure?_eq_none.2 ⟨hfailure, hn⟩
  obtain ⟨hstart, hstart'⟩ := hfrom.run_eq (p := { p with names := n₁ }) hsound₁ (hclean' _ hnames₁) hnames₂ settings "0"
  obtain ⟨hstop, hstop'⟩ := hto.run_eq (p := { p with names := n₁.after start.requests }) (hsound₁.after _) (hclean' _ hnames₂)
    hnames₃ settings "0"
  obtain ⟨hstep, hstep'⟩ := hby.run_eq (p := { p with names := (n₁.after start.requests).after stop.requests })
    ((hsound₁.after _).after _) (hclean' _ hnames₃) hnames settings "1"
  have hname : (((countingOver first second third).site standard).variableName "VAR").run settings p =
      (.ok v, { p with names := n₁ }) := by
    have hkey : (countingOver first second third).head.written "VAR" = .ofString "i" := rfl
    show (Except.ok (p.names.get ((countingOver first second third).head.written "VAR") .variable).1,
      { p with names := (p.names.get ((countingOver first second third).head.written "VAR") .variable).2 }) = _
    rw [hkey, hv]
  have hbody : ∀ q, (loopBody ((countingOver first second third).site standard) "DO").run settings q = (.ok "", q) := by
    intro q
    have hread : (trapped ((countingOver first second third).site standard) "").run settings q = (.ok "", q) := by
      rw [trapped, run_bind_of_ok (a := settings) (q := q) rfl, if_pos htrap]
      rfl
    exact (run_bind_of_ok (a := "") (q := q) rfl).trans hread
  refine ⟨?_, hstart', hstop', hstep'⟩
  rw [controlsFor_eq, run_bind_of_ok hname, run_bind_of_ok hstart, run_bind_of_ok hstop, run_bind_of_ok hstep,
    run_bind_of_ok (hbody _)]

theorem run_counting_numbers {v startCode stopCode stepCode body : String}
    (hnumbers : (Text.isNumber startCode && Text.isNumber stopCode && Text.isNumber stepCode) = true) :
    (counting v startCode stopCode stepCode body).run settings p =
      (.ok (.statement (foldedHeader v startCode stopCode stepCode ++ body ++ "\x7d\n")), p) := by
  rw [counting, if_pos hnumbers]
  rfl

theorem exists_run_counting_words (v : String) {startCode stopCode : String} (stepCode body : String)
    (hstart : Text.isWord startCode = true) (hnumber : Text.isNumber startCode = false) (hstop : Text.isWord stopCode = true) :
    ∃ code, (counting v startCode stopCode stepCode body).run settings p = (.ok (.statement code),
      { p with names := (p.names.distinct (RawText.ofString v ++ RawText.ofString "_inc") .variable).2 }) := by
  have hword : ∀ {code : String} (seed : String) (q : Pass), Text.isWord code = true →
      (cached code seed).run settings q = (.ok ("", code), q) := by
    intro code seed q hcode
    rw [cached, hcode, Bool.true_or, if_pos rfl]
    rfl
  have hdistinct : (distinctVariable (RawText.ofString v ++ RawText.ofString "_inc")).run settings p =
      (.ok (p.names.distinct (RawText.ofString v ++ RawText.ofString "_inc") .variable).1,
        { p with names := (p.names.distinct (RawText.ofString v ++ RawText.ofString "_inc") .variable).2 }) := rfl
  rw [counting, hnumber, Bool.false_and, Bool.false_and, if_neg Bool.false_ne_true, run_bind_of_ok (hword _ p hstart)]
  dsimp only
  rw [run_bind_of_ok (hword _ p hstop)]
  dsimp only
  rw [run_bind_of_ok hdistinct]
  exact ⟨_, rfl⟩

end

theorem run_emit_countingOver {first second third : Block} {code : String}
    (hrun : (controlsFor ((countingOver first second third).site standard)).run settings p = (.ok (.statement code), q))
    (hclean : q.failure? = none) :
    ∃ r, ((countingOver first second third).emit standard true).run settings p = (.ok r, q) := by
  rw [emit_of_enabled rfl]
  have hfound : standard.lookup "controls_for" = some controlsFor := rfl
  exact ⟨_, Site.run_emit_of_statement hfound hrun hclean⟩

end Block
end Blockwright
