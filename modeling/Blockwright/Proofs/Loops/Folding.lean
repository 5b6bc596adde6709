import Blockwright.Proofs.Loops.Emission
/-!
# Counting loops with literals and with variables

The header over three literals is folded: whether to count up or down is seen from the numbers, and the step
is written with its sign. The header over variables finds the sign of its step when it runs, and its test
looks at that sign. Both loops count alike, but for a step of zero when they count down: the folded test
still holds for the start, while the sign of such a step says up, and the other test fails at once.
-/

namespace Blockwright.Block

open Operators Emit Loops

variable {settings : PassSettings}

/-! ## Loops from an empty registry -/

/-- The registry with a name for the control variable. -/
def controlNames : Names := ((Names.new []).get (.ofString "i") .variable).2

/-- The registry with names for three more variables. -/
def variableNames : Names :=
  ((controlNames.after [.get (.ofString "x") .variable]).after [.get (.ofString "y") .variable]).after
    [.get (.ofString "z") .variable]

/-- The registry with a name for the increment as well. -/
def incrementNames : Names := (variableNames.distinct (RawText.ofString "i" ++ RawText.ofString "_inc") .variable).2

theorem names_countingOver : (Names.new []).get (.ofString "i") .variable = ("i", controlNames) ∧
    controlNames.failure = none ∧ variableNames.failure = none ∧ incrementNames.failure = none ∧
    ∀ name ∈ ["i", "x", "y", "z"], (incrementNames.get (.ofString name) .variable).1 = name := by
  have hname : ∀ name ∈ ["i", "x", "y", "z", "i_inc"], Identifier.ofText (.ofString name) = name := by
    simp only [Identifier.ofText, RawText.bytes_ofString, Text.bytesOf_eq]
    decide
  have hslot : ∀ a b : String, Names.slot (.ofString a) .variable = Names.slot (.ofString b) .variable ↔ a = b :=
    fun a b => ⟨fun h => RawText.ofString_inj.1 (Names.slot_injective h), fun h => h ▸ rfl⟩
  have hseed : RawText.ofString "i" ++ RawText.ofString "_inc" = .ofString "i_inc" :=
    (RawText.ofString_append "i" "_inc").symm
  simp only [List.forall_mem_cons, List.not_mem_nil, false_imp_iff, forall_const, and_true] at hname ⊢
  obtain ⟨hi, hx, hy, hz, hinc⟩ := hname
  simp [incrementNames, variableNames, controlNames, hseed, Names.after, Names.serve, Names.get, Names.resolve, Names.new,
    Names.reserve, Names.distinct, Names.distinctFrom, Names.free?, Names.taken, Names.isReserved, hi, hx, hy, hz, hinc,
    Std.HashMap.getElem_insert, hslot]

/-- A loop over three literals from an empty registry. -/
theorem exists_run_literals {i j k : Int} (hi : ∃ s m e, Double.ofInt i = .finite s m e)
    (hj : ∃ s m e, Double.ofInt j = .finite s m e) (hk : ∃ s m e, Double.ofInt k = .finite s m e)
    (hnumbers : (Text.isNumber (Double.ofInt i).format && Text.isNumber (Double.ofInt j).format &&
      Text.isNumber (Double.ofInt k).format) = true) :
    ∃ r, ((countingOver (literalOf i) (literalOf j) (literalOf k)).emit standard true).run {} { names := Names.new [] } =
      (.ok r, { names := controlNames }) := by
  obtain ⟨hv, hcontrol, -⟩ := names_countingOver
  have hliteral : ∀ {k : Int}, (∃ s m e, Double.ofInt k = .finite s m e) → (Double.ofInt k).HasLiteral :=
    fun ⟨_, _, _, hk⟩ => Double.hasLiteral_ofInt hk
  obtain ⟨hrun, -⟩ := run_countingOver {} (p := { names := Names.new [] }) (.literal (holdsWhole_literalOf rfl hi))
    (.literal (holdsWhole_literalOf rfl hj)) (.literal (holdsWhole_literalOf rfl hk)) rfl (Names.sound_new []) rfl hv
    rfl rfl rfl hcontrol
  dsimp only [Source.atom] at hrun
  rw [Atom.code_ofDouble (hliteral hi), Atom.code_ofDouble (hliteral hj), Atom.code_ofDouble (hliteral hk),
    run_counting_numbers hnumbers] at hrun
  exact run_emit_countingOver hrun (Pass.failure?_eq_none.2 ⟨rfl, hcontrol⟩)

/-- A loop over three variables from an empty registry. -/
theorem exists_run_variables :
    ∃ r, ((countingOver (use "x") (use "y") (use "z")).emit standard true).run {} { names := Names.new [] } =
      (.ok r, { names := incrementNames }) := by
  obtain ⟨hv, -, hvariables, hincrement, -⟩ := names_countingOver
  have hfirst : (countingOver (use "x") (use "y") (use "z")).HoldsVariable "FROM" (.ofString "x") := holdsVariable_use rfl
  have hsecond : (countingOver (use "x") (use "y") (use "z")).HoldsVariable "TO" (.ofString "y") := holdsVariable_use rfl
  have hthird : (countingOver (use "x") (use "y") (use "z")).HoldsVariable "BY" (.ofString "z") := holdsVariable_use rfl
  obtain ⟨hrun, hstart, hstop, -⟩ := run_countingOver {} (p := { names := Names.new [] }) (.named hfirst) (.named hsecond)
    (.named hthird) rfl (Names.sound_new []) rfl hv rfl rfl rfl hvariables
  obtain ⟨code, hcode⟩ := exists_run_counting_words "i" _ "" (Script.isWord_of_isLegal hstart.1)
    (Script.isNumber_of_isLegal hstart.1) (Script.isWord_of_isLegal hstop.1)
  exact run_emit_countingOver (hrun.trans hcode) (Pass.failure?_eq_none.2 ⟨rfl, hincrement⟩)

theorem get_incrementNames {name : String} (h : name ∈ ["i", "x", "y", "z"]) :
    (incrementNames.get (.ofString name) .variable).1 = name := names_countingOver.2.2.2.2 name h

theorem control_countingOver (first second third : Block) :
    (countingOver first second third).control incrementNames = "i" := get_incrementNames (by simp)

/-- Three variables that hold the numbers of a loop. -/
def holding (i j k : Int) : Env := fun name => if name = "x" then .ofInt i else if name = "y" then .ofInt j else .ofInt k

theorem finite_small : ∀ k ∈ [0, 1, 3, 5], ∃ s m e, Double.ofInt k = .finite s m e := by
  simp only [List.forall_mem_cons, List.not_mem_nil, false_imp_iff, forall_const, and_true]
  exact ⟨⟨_, _, _, rfl⟩, ⟨_, _, _, rfl⟩, ⟨_, _, _, rfl⟩, ⟨_, _, _, rfl⟩⟩

/-! ## Counting alike -/

/-- A counting loop over three whole numbers as literals and one over three variables that hold these numbers give
their control variables the same sequence of values, finite or infinite, unless the literals are folded into a
header that counts down by zero. -/
theorem counts_alike_iff (hindent : ∀ c ∈ settings.indent.toList, Text.isCodeBlank c = true) {b b' : Block} (hb : b.Counting)
    (hb' : b'.Counting) {i j k : Int} (hi : b.HoldsWhole "FROM" i) (hj : b.HoldsWhole "TO" j) (hk : b.HoldsWhole "BY" k)
    {x y z : RawText} (hx : b'.HoldsVariable "FROM" x) (hy : b'.HoldsVariable "TO" y) (hz : b'.HoldsVariable "BY" z)
    {p q p' q' : Pass} (hp : p.names.Sound) (hclean : p.failure? = none) (hp' : p'.names.Sound) (hclean' : p'.failure? = none)
    {thisOnly thisOnly' : Bool} {r r' : Result} (hrun : (b.emit standard thisOnly).run settings p = (.ok r, q))
    (hrun' : (b'.emit standard thisOnly').run settings p' = (.ok r', q'))
    (hapart : (q'.names.get y .variable).1 ≠ b'.control q'.names) :
    ∃ l l' : Loop, Loop.ofCode? r.code = some l ∧ l.start.name = b.control q.names ∧
      Loop.ofCode? r'.code = some l' ∧ l'.start.name = b'.control q'.names ∧
      ∀ env env' : Env, env' (q'.names.get x .variable).1 = .ofInt i → env' (q'.names.get y .variable).1 = .ofInt j →
        env' (q'.names.get z .variable).1 = .ofInt k →
        (l.values env = l'.values env' ↔ ¬(k = 0 ∧ (Double.ofInt i).le (.ofInt j) = false ∧
          Text.isNumber (Double.ofInt i).format = true ∧ Text.isNumber (Double.ofInt j).format = true)) := by
  obtain ⟨-, l, hl, hname, hvalues⟩ := exists_header hindent hb (.literal hi) (.literal hj) (.literal hk) hp hclean hrun
    (.inl (Atom.isDecimal_ofDouble hj.hasLiteral))
  obtain ⟨⟨hx', hy', hz'⟩, l', hl', hname', hvalues'⟩ := exists_header hindent hb' (.named hx) (.named hy) (.named hz) hp'
    hclean' hrun' (.inr fun h => hapart (congrArg Atom.leaf h))
  refine ⟨l, l', hl, hname, hl', hname', fun env env' hx hy hz => ?_⟩
  rw [hvalues, hvalues']
  dsimp only [Source.atom]
  rw [countOf_ofName hx'.1 hy'.1 hz'.1, countOf_ofDouble hi.hasLiteral hj.hasLiteral hk.hasLiteral, hx, hy, hz]
  obtain ⟨s, m, e, hi⟩ := hi.finite
  obtain ⟨t, n, f, hj⟩ := hj.finite
  obtain ⟨u, o, g, hk⟩ := hk.finite
  split
  · rename_i hnumbers
    simp only [Bool.and_eq_true] at hnumbers
    rw [foldedCount_ofInt_iff hi hj hk]
    simp [hnumbers.1.1, hnumbers.1.2]
  · rename_i hnumbers
    refine iff_of_true rfl ?_
    rintro ⟨rfl, -, hnumber, hnumber'⟩
    have hzero : Text.isNumber (Double.ofInt 0).format = true := by decide
    exact hnumbers (by rw [hnumber, hnumber', hzero]; rfl)

theorem standard_indent : ∀ c ∈ ({} : PassSettings).indent.toList, Text.isCodeBlank c = true :=
  List.all_eq_true.1 (by decide)

/-- Counting from one to three by one. -/
theorem upward_counts_alike : ∃ r q r' q' l l',
    ((countingOver (literalOf 1) (literalOf 3) (literalOf 1)).emit standard true).run {} { names := Names.new [] } = (.ok r, q) ∧
      ((countingOver (use "x") (use "y") (use "z")).emit standard true).run {} { names := Names.new [] } = (.ok r', q') ∧
      Loop.ofCode? r.code = some l ∧ Loop.ofCode? r'.code = some l' ∧ l.values (holding 1 3 1) = l'.values (holding 1 3 1) := by
  have hone := finite_small 1 (by simp)
  have hthree := finite_small 3 (by simp)
  obtain ⟨r, hrun⟩ := exists_run_literals hone hthree hone (by decide)
  obtain ⟨r', hrun'⟩ := exists_run_variables
  have hx : (incrementNames.get (.ofString "x") .variable).1 = "x" := get_incrementNames (by simp)
  have hy : (incrementNames.get (.ofString "y") .variable).1 = "y" := get_incrementNames (by simp)
  have hz : (incrementNames.get (.ofString "z") .variable).1 = "z" := get_incrementNames (by simp)
  obtain ⟨l, l', hl, -, hl', -, hiff⟩ := counts_alike_iff (i := 1) (j := 3) (k := 1) standard_indent ⟨rfl, rfl⟩ ⟨rfl, rfl⟩
    (holdsWhole_literalOf rfl hone) (holdsWhole_literalOf rfl hthree) (holdsWhole_literalOf rfl hone)
    (holdsVariable_use rfl) (holdsVariable_use rfl) (holdsVariable_use rfl)
    (Names.sound_new []) rfl (Names.sound_new []) rfl hrun hrun' (by rw [hy, control_countingOver]; decide)
  refine ⟨r, _, r', _, l, l', hrun, hrun', hl, hl', (hiff _ _ ?_ ?_ ?_).2 (by decide)⟩
  · rw [hx]; rfl
  · rw [hy]; rfl
  · rw [hz]; rfl

/-- Counting from five to one by zero: over literals the control variable is five forever, and over variables the loop
ends at once. -/
theorem downward_by_zero_differs : ∃ r q r' q' l l',
    ((countingOver (literalOf 5) (literalOf 1) (literalOf 0)).emit standard true).run {} { names := Names.new [] } = (.ok r, q) ∧
      ((countingOver (use "x") (use "y") (use "z")).emit standard true).run {} { names := Names.new [] } = (.ok r', q') ∧
      Loop.ofCode? r.code = some l ∧ Loop.ofCode? r'.code = some l' ∧
      (∀ n, l.values (holding 5 1 0) n = some (.ofInt 5)) ∧ l'.values (holding 5 1 0) 1 = none := by
  have hfive := finite_small 5 (by simp)
  have hone := finite_small 1 (by simp)
  have hzero := finite_small 0 (by simp)
  obtain ⟨r, hrun⟩ := exists_run_literals hfive hone hzero (by decide)
  obtain ⟨r', hrun'⟩ := exists_run_variables
  have hx : (incrementNames.get (.ofString "x") .variable).1 = "x" := get_incrementNames (by simp)
  have hy : (incrementNames.get (.ofString "y") .variable).1 = "y" := get_incrementNames (by simp)
  have hz : (incrementNames.get (.ofString "z") .variable).1 = "z" := get_incrementNames (by simp)
  obtain ⟨⟨hstart, hstop, hstep⟩, l, hl, -, hvalues⟩ := exists_header standard_indent ⟨rfl, rfl⟩
    (.literal (holdsWhole_literalOf rfl hfive)) (.literal (holdsWhole_literalOf rfl hone))
    (.literal (holdsWhole_literalOf rfl hzero)) (Names.sound_new []) rfl hrun (.inl (by decide))
  have hapart : Source.atom incrementNames (.named (.ofString "y")) ≠
      .ofName ((countingOver (use "x") (use "y") (use "z")).control incrementNames) := by
    rw [control_countingOver, Source.atom, hy]
    decide
  obtain ⟨⟨hstart', hstop', hstep'⟩, l', hl', -, hvalues'⟩ := exists_header standard_indent ⟨rfl, rfl⟩
    (.named (holdsVariable_use rfl)) (.named (holdsVariable_use rfl)) (.named (holdsVariable_use rfl))
    (Names.sound_new []) rfl hrun' (.inr hapart)
  have hdown : (Double.ofInt 5).le (.ofInt 1) = false := by decide
  refine ⟨r, _, r', _, l, l', hrun, hrun', hl, hl', fun n => ?_, ?_⟩
  · rw [hvalues]
    dsimp only [Source.atom]
    rw [countOf_ofDouble hstart hstop hstep, if_pos (by decide)]
    exact foldedCount_of_zero (Double.normal_of_ofInt (k := 5) rfl) (Double.normal_of_ofInt (k := 0) rfl) hdown n
  · rw [hvalues']
    dsimp only [Source.atom]
    rw [countOf_ofName hstart'.1 hstop'.1 hstep'.1, hx, hy, hz]
    exact generalCount_of_zero hdown 0

end Blockwright.Block
