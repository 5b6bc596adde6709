import Blockwright.Proofs.Emit.Steps
import Blockwright.Proofs.Loops.Runs
import Blockwright.Proofs.Number.Numerals
import Blockwright.Proofs.Script.Accesses
/-!
# Operands and headers of counting loops

The operands of a counting loop are made ready in front of it. Behind them stands one of two headers, and each
of these counts: the one over literals in a known direction, the other one in the direction of the sign of its step.
-/

/-!
## Operands

An operand of a counting loop is the literal of a number or a name that has been handed out. It is written
as it is, or put into a temporary variable first; either way it stands for the same number, and what else
may be written stands for the same number as before, since the name of the temporary variable is fresh.
-/

namespace Blockwright

namespace Names

/-- A fresh name that was handed out, and not just asked for. -/
theorem fresh_of_distinct {n : Names} {seed : RawText} {category : Category} (h : (n.distinct seed category).2.failure = none) :
    Identifier.isLegal (n.distinct seed category).1 = true ∧ (n.distinct seed category).1 ∉ n.used ∧
      (n.distinct seed category).1 ∈ (n.distinct seed category).2.used := by
  rcases distinct_cases n seed category with ⟨name, hfree, hdistinct⟩ | ⟨hfree, -⟩
  · rw [hdistinct]
    exact ⟨isLegal_of_free? hfree, (free_of_free? hfree).1, Std.HashSet.mem_insert_self⟩
  · rw [failure_distinct hfree] at h
    cases h

end Names

namespace Loops

open Operators Emit
open Names (Grows Sound)

variable {n n' : Names} {x : Double} {name v : String} {env : Env}

/-! ### Numbers and names -/

namespace Atom

/-- The literal of a number. -/
def ofDouble : Double → Atom
  | .finite s m e => ⟨s, (Double.finite false m e).format⟩
  | x => ⟨false, x.format⟩

/-- A variable. -/
def ofName (name : String) : Atom := ⟨false, name⟩

theorem isDecimal_ofDouble (h : x.HasLiteral) : isDecimal (ofDouble x).leaf = true := by
  obtain ⟨s, m, e, rfl, hnormal, -⟩ := h
  obtain ⟨n, hproper, hformat⟩ := Double.exists_decimal hnormal
  have hbody : (ofDouble (.finite s m e)).leaf = String.ofList n.chars :=
    (hformat false fun _ => rfl).trans (String.empty_append)
  rw [hbody]
  exact Double.isDecimal_chars hproper

theorem proper_ofDouble (h : x.HasLiteral) : (ofDouble x).Proper := isLeaf_of_isDecimal (isDecimal_ofDouble h)

theorem code_ofDouble (h : x.HasLiteral) : (ofDouble x).code = x.format := by
  obtain ⟨s, m, e, rfl, hnormal, hsign⟩ := h
  obtain ⟨n, -, hformat⟩ := Double.exists_decimal hnormal
  have hbody : (Double.finite false m e).format = String.ofList n.chars :=
    (hformat false fun _ => rfl).trans (String.empty_append)
  rw [code_eq, hformat s hsign, ofDouble, hbody]

theorem value_ofDouble (h : x.HasLiteral) (env : Env) : (ofDouble x).value env = x := by
  have hdecimal := isDecimal_ofDouble h
  have hliteral := h.abs.literalValue_format
  obtain ⟨s, m, e, rfl, -, -⟩ := h
  have hvalue : literalValue (ofDouble (.finite s m e)).leaf = .finite false m e := hliteral
  unfold value
  dsimp only
  rw [hdecimal, hvalue]
  cases s <;> rfl

theorem code_ofName (name : String) : (ofName name).code = name := rfl

theorem isDecimal_of_isLegal (h : Identifier.isLegal name = true) : isDecimal name = false := by
  obtain ⟨c, cs, hname, hdigit⟩ := Script.head_of_isLegal h
  simp [isDecimal, hname, hdigit]

theorem value_ofName (h : Identifier.isLegal name = true) (env : Env) : (ofName name).value env = env name := by
  simp [value, ofName, isDecimal_of_isLegal h]

end Atom

/-- The literal of a number, or a name that has been handed out. -/
inductive Operand (n : Names) : Atom → Prop
  | literal {x : Double} (h : x.HasLiteral) : Operand n (.ofDouble x)
  | name {name : String} (legal : Identifier.isLegal name = true) (used : name ∈ n.used) : Operand n (.ofName name)

namespace Operand

variable {a : Atom}

theorem proper (h : Operand n a) : a.Proper := by
  cases h with
  | literal h => exact Atom.proper_ofDouble h
  | name legal used => exact isLeaf_of_isLegal legal

theorem mono (h : Operand n a) (hgrows : n.Grows n') : Operand n' a := by
  cases h with
  | literal h => exact .literal h
  | name legal used => exact .name legal (hgrows.used _ used)

/-- Another variable may change. -/
theorem value_set (h : Operand n a) (hne : a ≠ .ofName v) (x : Double) : a.value (env.set v x) = a.value env := by
  cases h with
  | literal h => rw [Atom.value_ofDouble h, Atom.value_ofDouble h]
  | name legal used =>
    rw [Atom.value_ofName legal, Atom.value_ofName legal]
    exact Env.set_of_ne (fun heq => hne (congrArg Atom.ofName heq)) x

theorem ne_of_isLegal (h : Operand n a) (hlegal : Identifier.isLegal v = true) (hfresh : v ∉ n.used) : a ≠ .ofName v := by
  rintro rfl
  generalize hatom : Atom.ofName v = a at h
  cases h with
  | literal h =>
    have hdecimal := Atom.isDecimal_ofDouble h
    rw [← hatom] at hdecimal
    exact Bool.noConfusion (hdecimal.symm.trans (Atom.isDecimal_of_isLegal hlegal))
  | name legal used =>
    cases hatom
    exact hfresh used

/-- A name that is handed out next is no operand so far. -/
theorem value_set_fresh (h : Operand n a) (hlegal : Identifier.isLegal v = true) (hfresh : v ∉ n.used) (x : Double) :
    a.value (env.set v x) = a.value env := h.value_set (h.ne_of_isLegal hlegal hfresh) x

end Operand

/-! ### Temporary variables -/

variable {settings : PassSettings} {p q : Pass} {a : Atom}

/-- A name that is handed out for a temporary variable is fresh. -/
theorem fresh_of_distinctVariable (hsound : p.names.Sound) {seed : RawText}
    (hrun : (distinctVariable seed).run settings p = (.ok name, q)) (hclean : q.names.failure = none) :
    Identifier.isLegal name = true ∧ name ∉ p.names.used ∧ name ∈ q.names.used ∧ p.names.Grows q.names ∧ q.names.Sound := by
  have hname : (p.names.distinct seed .variable).1 = name := Except.ok.inj (congrArg Prod.fst hrun)
  have hnames : (p.names.distinct seed .variable).2 = q.names := congrArg (·.2.names) hrun
  obtain ⟨hlegal, hfresh, hused⟩ := Names.fresh_of_distinct (hnames ▸ hclean)
  rw [← hname, ← hnames]
  exact ⟨hlegal, hfresh, hused, Names.grows_distinct p.names seed .variable, hsound.serve (.distinct seed .variable)⟩

/-- An operand is written as `b` behind lines that are emitted for it, while the registry goes from `n` to `n'`. -/
structure Cached (n n' : Names) (a : Atom) (lines : List Line) (b : Atom) : Prop where
  grows : n.Grows n'
  sound : n'.Sound
  proper : ∀ line ∈ lines, line.Proper
  operand : Operand n' b
  /-- The operand stands for the same number. -/
  value : ∀ env, b.value (lines.foldl Line.run env) = a.value env
  /-- So does everything that could be written before. -/
  keeps : ∀ env c, Operand n c → c.value (lines.foldl Line.run env) = c.value env
  apart : ∀ v ∈ n.used, a ≠ .ofName v → b ≠ .ofName v

theorem exists_cached (hsound : p.names.Sound) (ha : Operand p.names a) {seed before code : String}
    (hrun : (cached a.code seed).run settings p = (.ok (before, code), q)) (hclean : q.names.failure = none) (indent : String) :
    ∃ lines b, before = linesCode indent lines ∧ code = b.code ∧ Cached p.names q.names a lines b := by
  unfold cached at hrun
  split at hrun
  · obtain ⟨hresult, rfl⟩ := run_pure_eq_ok_iff.1 hrun
    cases hresult
    exact ⟨[], a, rfl, rfl, .refl _, hsound, by simp, ha, fun _ => rfl, fun _ _ _ => rfl, fun _ _ h => h⟩
  · obtain ⟨name, p', hname, hpure⟩ := run_bind_eq_ok_iff.1 hrun
    obtain ⟨hresult, rfl⟩ := run_pure_eq_ok_iff.1 hpure
    cases hresult
    obtain ⟨hlegal, hfresh, hused, hgrows, hsound'⟩ := fresh_of_distinctVariable hsound hname hclean
    have hline : Line.Proper (.always ⟨code, .set a⟩) := ⟨hlegal, ha.proper⟩
    refine ⟨[.always ⟨code, .set a⟩], .ofName code, ?_, rfl, hgrows, hsound', List.forall_mem_singleton.2 hline,
      .name hlegal hused, fun env => ?_, fun env c hc => hc.value_set_fresh hlegal hfresh _, fun v hv _ hname => ?_⟩
    · simp only [linesCode, Line.code, Assignment.code, Change.code, String.append_empty, String.append_assoc]
    · rw [Atom.value_ofName hlegal]
      exact Env.set_self _
    · cases hname
      exact hfresh hv

end Loops
end Blockwright

/-! ## The two headers -/

namespace Blockwright.Loops

open Operators Emit

variable {n : Names} {x y z : Double} {v inc : String} {env : Env}

/-! ### The header over literals -/

/-- The header over three literals. -/
def foldedLoop (v : String) (start stop step : Double) : Loop where
  before := []
  start := ⟨v, .set (.ofDouble start)⟩
  test := if start.le stop then .atMost (.ofName v) (.ofDouble stop) else .atLeast (.ofName v) (.ofDouble stop)
  update := ⟨v,
    if step.abs.same .one then (if start.le stop then .increment else .decrement)
    else if start.le stop then .add (.ofDouble step.abs) else .subtract (.ofDouble step.abs)⟩

theorem foldedHeader_eq (hx : x.HasLiteral) (hy : y.HasLiteral) (hz : z.HasLiteral) (indent : String) :
    foldedHeader v x.format y.format z.format = (foldedLoop v x y z).code indent := by
  have hstep : countStep (x.le y) z.abs = (foldedLoop v x y z).update.change.code := by
    dsimp only [foldedLoop]
    unfold countStep
    cases x.le y <;> cases z.abs.same .one <;> simp [Change.code, Atom.code_ofDouble hz.abs]
  have htest : v ++ (if x.le y then " <= " else " >= ") ++ y.format = (foldedLoop v x y z).test.code := by
    dsimp only [foldedLoop]
    cases x.le y <;> simp [Test.code_atMost, Test.code_atLeast, Atom.code_ofDouble hy, Atom.code_ofName]
  have hstart : " = " ++ x.format = (foldedLoop v x y z).start.change.code := congrArg (" = " ++ ·) (Atom.code_ofDouble hx).symm
  unfold foldedHeader Loop.code Assignment.code
  dsimp only
  rw [hx.literalValue_format, hy.literalValue_format, hz.literalValue_format, hstep, ← htest, ← hstart]
  simp only [foldedLoop, linesCode, String.append_assoc, String.empty_append]

theorem proper_foldedLoop (hv : Identifier.isLegal v = true) (hx : x.HasLiteral) (hy : y.HasLiteral) (hz : z.HasLiteral) :
    (foldedLoop v x y z).Proper := by
  have hname : (Atom.ofName v).Proper := isLeaf_of_isLegal hv
  refine ⟨by simp [foldedLoop], ⟨hv, Atom.proper_ofDouble hx⟩, ?_, hv, ?_⟩
  · dsimp only [foldedLoop]
    split <;> exact ⟨hname, Atom.proper_ofDouble hy⟩
  · dsimp only [foldedLoop]
    split_ifs
    · trivial
    · trivial
    · exact Atom.proper_ofDouble hz.abs
    · exact Atom.proper_ofDouble hz.abs

theorem holds_foldedLoop (hv : Identifier.isLegal v = true) (hy : y.HasLiteral) (env : Env) :
    (foldedLoop v x y z).test.holds env = if x.le y then (env v).le y else y.le (env v) := by
  dsimp only [foldedLoop]
  split <;> rw [Test.holds, Atom.value_ofName hv, Atom.value_ofDouble hy]

theorem value_foldedLoop (hz : z.HasLiteral) (env : Env) (t : Double) :
    (foldedLoop v x y z).update.change.value env t = t.add (foldedStep x y z) := by
  have hone : z.abs.same .one = true → z.abs = .one := by
    obtain ⟨s, m, e, rfl, hnormal, -⟩ := hz
    exact Double.eq_one_of_same hnormal
  dsimp only [foldedLoop, foldedStep]
  split_ifs with hsame hup hup
  · rw [Change.value, hone hsame]
  · rw [Change.value, hone hsame]
  · rw [Change.value, Atom.value_ofDouble hz.abs]
  · rw [Change.value, Atom.value_ofDouble hz.abs]

/-- Over literals a loop counts in a known direction. -/
theorem values_foldedLoop (hv : Identifier.isLegal v = true) (hx : x.HasLiteral) (hy : y.HasLiteral) (hz : z.HasLiteral)
    (env : Env) : (foldedLoop v x y z).values env = foldedCount x y z := by
  have hentry : (foldedLoop v x y z).entry env v = x := (Env.set_self _).trans (Atom.value_ofDouble hx env)
  have htest : ∀ t, (foldedLoop v x y z).test.holds (((foldedLoop v x y z).entry env).set v t) =
      if x.le y then t.le y else y.le t := fun t => by rw [holds_foldedLoop hv hy, Env.set_self]
  exact (Loop.values_eq_counted htest rfl fun t => value_foldedLoop hz _ t).trans (congrArg (counted _ _) hentry)

/-! ### The header whose direction is found when it runs -/

/-- The header over operands that lines in front of it have made ready. -/
def generalLoop (lines : List Line) (v inc : String) (start stop : Atom) (size : Change) : Loop where
  before := lines ++ [.always ⟨inc, size⟩, .when (.above start stop) ⟨inc, .set ⟨true, inc⟩⟩]
  start := ⟨v, .set start⟩
  test := .choice (.atLeast (.ofName inc) (.ofDouble .zero)) (.atMost (.ofName v) stop) (.atLeast (.ofName v) stop)
  update := ⟨v, .add (.ofName inc)⟩

theorem linesCode_append (indent : String) (lines lines' : List Line) :
    linesCode indent (lines ++ lines') = linesCode indent lines ++ linesCode indent lines' := by
  induction lines with
  | nil => exact String.empty_append.symm
  | cons line lines ih => rw [List.cons_append, linesCode, linesCode, ih, String.append_assoc]

theorem generalHeader_eq {lines : List Line} {start stop : Atom} {size : Change} (indent : String) :
    linesCode indent lines ++ ("var " ++ inc ++ size.code ++ ";\n" ++ "if (" ++ start.code ++ " > " ++ stop.code ++ ") \x7b\n"
      ++ indent ++ inc ++ " = -" ++ inc ++ ";\n" ++ "\x7d\n" ++ generalHeader v start.code stop.code inc) =
      (generalLoop lines v inc start stop size).code indent := by
  have hzero : (Atom.ofDouble .zero).code = "0" := rfl
  have hnegated : (⟨true, inc⟩ : Atom).code = "-" ++ inc := Atom.code_eq _
  have htest : (generalLoop lines v inc start stop size).test.code =
      inc ++ " >= 0 ? " ++ v ++ " <= " ++ stop.code ++ " : " ++ v ++ " >= " ++ stop.code := by
    dsimp only [generalLoop]
    rw [Test.code_choice rfl rfl rfl, Test.code_atLeast, Test.code_atMost, Test.code_atLeast, hzero]
    simp only [Atom.code_ofName, String.append_assoc]
    rfl
  have hhalf : inc ++ " = -" ++ inc = (⟨inc, .set ⟨true, inc⟩⟩ : Assignment).code := by
    rw [Assignment.code, Change.code, hnegated]
    simp only [String.append_assoc]
    rfl
  unfold Loop.code
  rw [htest]
  dsimp only [generalLoop, generalHeader]
  rw [linesCode_append]
  dsimp only [linesCode, Line.code]
  have hclosing : ";\n\x7d\n" = ";\n" ++ "\x7d\n" := rfl
  rw [Test.code_above, ← hhalf, hclosing]
  simp only [Assignment.code, Change.code, Atom.code_ofName, String.append_assoc, String.append_empty]

/-- What a loop needs of its operands: they are ready, the names of its variables are legal, that of the
increment is fresh, and the end is not in the control variable. -/
structure Ready (n : Names) (v inc : String) (a b : Atom) : Prop where
  control : Identifier.isLegal v = true
  used : v ∈ n.used
  increment : Identifier.isLegal inc = true
  fresh : inc ∉ n.used
  start : Operand n a
  stop : Operand n b
  apart : b ≠ .ofName v

section
variable {lines : List Line} {start stop : Atom} {size : Change}

theorem proper_generalLoop (h : Ready n v inc start stop) (hlines : ∀ line ∈ lines, line.Proper) (hsize : size.Proper) :
    (generalLoop lines v inc start stop size).Proper := by
  have hv : (Atom.ofName v).Proper := isLeaf_of_isLegal h.control
  have hinc : (Atom.ofName inc).Proper := isLeaf_of_isLegal h.increment
  have hzero : (Atom.ofDouble .zero).Proper := by
    unfold Atom.Proper
    decide
  refine ⟨List.forall_mem_append.2 ⟨hlines, ?_⟩, ⟨h.control, h.start.proper⟩,
    ⟨⟨hinc, hzero⟩, ⟨hv, h.stop.proper⟩, hv, h.stop.proper⟩, h.control, hinc⟩
  rw [List.forall_mem_cons, List.forall_mem_singleton]
  exact ⟨⟨h.increment, hsize⟩, ⟨h.start.proper, h.stop.proper⟩, h.increment, hinc⟩

/-- Where the loop is entered, the increment is the step with its direction. -/
theorem entry_generalLoop (h : Ready n v inc start stop) {env' : Env} (henv : lines.foldl Line.run env = env')
    (hsize : size.value env' (env' inc) = z.abs) : (generalLoop lines v inc start stop size).entry env =
      (env'.set inc (generalStep (start.value env') (stop.value env') z)).set v (start.value env') := by
  have hstart : ∀ t, start.value (env'.set inc t) = start.value env' := h.start.value_set_fresh h.increment h.fresh
  have hstop : ∀ t, stop.value (env'.set inc t) = stop.value env' := h.stop.value_set_fresh h.increment h.fresh
  have hnegated : (⟨true, inc⟩ : Atom).value (env'.set inc z.abs) = z.abs.neg := by
    have hplain : (Atom.ofName inc).value (env'.set inc z.abs) = z.abs :=
      (Atom.value_ofName h.increment _).trans (Env.set_self _)
    exact congrArg Double.neg hplain
  have hturned : Line.run (env'.set inc z.abs) (.when (.above start stop) ⟨inc, .set ⟨true, inc⟩⟩) =
      env'.set inc (generalStep (start.value env') (stop.value env') z) := by
    rw [Line.run, Test.holds, hstart, hstop, generalStep]
    split
    · rw [Assignment.run, Change.value, hnegated, Env.set_set]
    · rfl
  have hbefore : (generalLoop lines v inc start stop size).before.foldl Line.run env =
      env'.set inc (generalStep (start.value env') (stop.value env') z) := by
    rw [← hturned, ← hsize, ← henv]
    exact List.foldl_append
  rw [Loop.entry, hbefore]
  exact congrArg (Env.set _ v) (hstart _)

theorem holds_generalLoop (h : Ready n v inc start stop) (env : Env) :
    (generalLoop lines v inc start stop size).test.holds env =
      if Double.zero.le (env inc) then (env v).le (stop.value env) else (stop.value env).le (env v) := by
  have hzero : (Atom.ofDouble .zero).value env = .zero :=
    Atom.value_ofDouble ⟨false, 0, Double.minExponent, rfl, Double.normal_zero, fun _ => rfl⟩ env
  dsimp only [generalLoop]
  rw [Test.holds, Test.holds, Test.holds, Test.holds, hzero, Atom.value_ofName h.increment, Atom.value_ofName h.control]

/-- Behind its lines a loop over operands that are ready counts in the direction of the sign of its step. -/
theorem values_generalLoop (h : Ready n v inc start stop) {env' : Env} (henv : lines.foldl Line.run env = env')
    (hsize : size.value env' (env' inc) = z.abs) : (generalLoop lines v inc start stop size).values env =
      generalCount (start.value env') (stop.value env') z := by
  have hne : inc ≠ v := fun heq => h.fresh (heq ▸ h.used)
  have hentry := entry_generalLoop h henv hsize
  -- whatever the control variable holds, the increment and the end are as they were
  have hround : ∀ t, ((generalLoop lines v inc start stop size).entry env).set v t =
      (env'.set inc (generalStep (start.value env') (stop.value env') z)).set v t := fun t => by rw [hentry, Env.set_set]
  have hinc : ∀ t, ((generalLoop lines v inc start stop size).entry env).set v t inc =
      generalStep (start.value env') (stop.value env') z := fun t => by rw [hround, Env.set_of_ne hne, Env.set_self]
  have hstop : ∀ t, stop.value (((generalLoop lines v inc start stop size).entry env).set v t) = stop.value env' :=
    fun t => by rw [hround, h.stop.value_set h.apart, h.stop.value_set_fresh h.increment h.fresh]
  have htest : ∀ t, (generalLoop lines v inc start stop size).test.holds
      (((generalLoop lines v inc start stop size).entry env).set v t) =
        if Double.zero.le (generalStep (start.value env') (stop.value env') z) then t.le (stop.value env')
        else (stop.value env').le t := fun t => by rw [holds_generalLoop h, hinc, hstop, Env.set_self]
  have hstep : ∀ t, (Atom.ofName inc).value (((generalLoop lines v inc start stop size).entry env).set v t) =
      generalStep (start.value env') (stop.value env') z := fun t => by rw [Atom.value_ofName h.increment, hinc]
  have hcontrol : (generalLoop lines v inc start stop size).entry env v = start.value env' := by rw [hentry, Env.set_self]
  exact (Loop.values_eq_counted htest rfl fun t => congrArg t.add (hstep t)).trans (congrArg (counted _ _) hcontrol)

end
end Blockwright.Loops
