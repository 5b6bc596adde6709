import Mathlib.Logic.Function.Basic
import Blockwright.Proofs.Loops.ReadBack
import Blockwright.Proofs.Number.Arithmetic
/-!
# Runs of counting loops

A loop is run in an environment that holds the numbers of variables: its lines in front, its start, and
then as often as its test holds its update. The control variable takes one value after the other, finitely
or infinitely many. When test and update look at nothing else that changes, these values are those of
counting from the start by a test and a step on numbers alone.
-/

namespace Blockwright.Loops

open Operators

/-- The numbers that variables hold. -/
abbrev Env := String → Double

namespace Env

/-- Another number in a variable. -/
def set (env : Env) (name : String) (x : Double) : Env := Function.update env name x

variable {env : Env} {name other : String}

@[simp] theorem set_self (x : Double) : env.set name x name = x := Function.update_self ..

theorem set_of_ne (h : other ≠ name) (x : Double) : env.set name x other = env other := Function.update_of_ne h ..

theorem set_set (x y : Double) : (env.set name x).set name y = env.set name y := Function.update_idem ..

theorem set_eq_self : env.set name (env name) = env := Function.update_eq_self ..

end Env

/-- The number that an atom stands for. -/
def Atom.value (env : Env) (a : Atom) : Double :=
  let x := if isDecimal a.leaf then Emit.literalValue a.leaf else env a.leaf
  if a.negative then x.neg else x

/-- Whether a condition holds. -/
def Test.holds (env : Env) : Test → Bool
  | .atMost a b => (a.value env).le (b.value env)
  | .atLeast a b => (b.value env).le (a.value env)
  | .above a b => (b.value env).le (a.value env) && !(a.value env).le (b.value env)
  | .choice c y n => if c.holds env then y.holds env else n.holds env

/-- What is put into a variable that holds `x`. -/
def Change.value (env : Env) (x : Double) : Change → Double
  | .set a => a.value env
  | .size a => (a.value env).abs
  | .increment => x.add .one
  | .decrement => x.add Double.one.neg
  | .add a => x.add (a.value env)
  | .subtract a => x.add (a.value env).neg

/-- The environment behind an assignment. -/
def Assignment.run (env : Env) (s : Assignment) : Env := env.set s.name (s.change.value env (env s.name))

/-- The environment behind a line. -/
def Line.run (env : Env) : Line → Env
  | .always s => s.run env
  | .when test s => if test.holds env then s.run env else env

namespace Loop

/-- The environment in which the loop is entered. -/
def entry (l : Loop) (env : Env) : Env := l.start.run (l.before.foldl Line.run env)

/-- The environment in which the test is reached again after so many rounds, unless the loop has ended. -/
def visit? (l : Loop) (env : Env) : Nat → Option Env
  | 0 => some (l.entry env)
  | n + 1 => (l.visit? env n).bind fun env => if l.test.holds env then some (l.update.run env) else none

/-- The values that the control variable takes one after the other, unless the loop has ended. -/
def values (l : Loop) (env : Env) (n : Nat) : Option Double := (l.visit? env n).map (· l.start.name)

end Loop

/-! ## Counting -/

/-- Counting from a number by a step while a test holds. -/
def counted (test : Double → Bool) (step : Double → Double) (x : Double) : Nat → Option Double
  | 0 => some x
  | n + 1 => (counted test step x n).bind fun x => if test x then some (step x) else none

namespace Loop

variable {l : Loop} {env : Env} {test : Double → Bool} {step : Double → Double}

/-- A loop whose test and update depend on the control variable alone counts. -/
theorem values_eq_counted (htest : ∀ x, l.test.holds ((l.entry env).set l.start.name x) = test x)
    (hname : l.update.name = l.start.name)
    (hupdate : ∀ x, l.update.change.value ((l.entry env).set l.start.name x) x = step x) :
    l.values env = counted test step (l.entry env l.start.name) := by
  have hrun : ∀ x, l.update.run ((l.entry env).set l.start.name x) = (l.entry env).set l.start.name (step x) := by
    intro x
    rw [Assignment.run, hname, Env.set_self, hupdate, Env.set_set]
  have hvisit : ∀ n, l.visit? env n =
      (counted test step (l.entry env l.start.name) n).map ((l.entry env).set l.start.name) := by
    intro n
    induction n with
    | zero => rw [visit?, counted, Option.map_some, Env.set_eq_self]
    | succ n ih =>
      rw [visit?, counted, ih]
      cases counted test step (l.entry env l.start.name) n with
      | none => rfl
      | some x =>
        simp only [Option.map_some, Option.bind_some, htest, hrun]
        split <;> rfl
  funext n
  rw [values, hvisit]
  cases counted test step (l.entry env l.start.name) n with
  | none => rfl
  | some x => rw [Option.map_some, Option.map_some, Env.set_self]

end Loop

/-! ## The two ways to count -/

/-- The step of a loop whose direction is known: up if the start is not above the end. -/
def foldedStep (start stop step : Double) : Double := if start.le stop then step.abs else step.abs.neg

/-- Counting in a known direction. -/
def foldedCount (start stop step : Double) : Nat → Option Double :=
  counted (fun x => if start.le stop then x.le stop else stop.le x) (·.add (foldedStep start stop step)) start

/-- The step of a loop whose direction is found when it runs. -/
def generalStep (start stop step : Double) : Double :=
  if stop.le start && !start.le stop then step.abs.neg else step.abs

/-- Counting in the direction of the sign of the step. -/
def generalCount (start stop step : Double) : Nat → Option Double :=
  counted (fun x => if Double.zero.le (generalStep start stop step) then x.le stop else stop.le x)
    (·.add (generalStep start stop step)) start

section
variable {s t u : Bool} {m n k : Nat} {e f g : Int}

theorem generalStep_eq : generalStep (.finite s m e) (.finite t n f) (.finite u k g) =
    foldedStep (.finite s m e) (.finite t n f) (.finite u k g) := by
  unfold generalStep foldedStep
  cases h : Double.le (.finite s m e) (.finite t n f) with
  | true => simp
  | false => simp [Double.le_of_not_le h]

theorem foldedCount_of_zero (hnormal : Double.Normal m e) (hstep : Double.Normal 0 g)
    (h : Double.le (.finite s m e) (.finite t n f) = false) (i : Nat) :
    foldedCount (.finite s m e) (.finite t n f) (.finite u 0 g) i = some (.finite s m e) := by
  have hleast : g = Double.minExponent := hstep.leading.resolve_left (by norm_num)
  have hfolded : foldedStep (.finite s m e) (.finite t n f) (.finite u 0 g) = Double.zero.neg := by
    rw [foldedStep, h, hleast]
    rfl
  unfold foldedCount
  induction i with
  | zero => rfl
  | succ i ih =>
    rw [counted, ih, Option.bind_some, h, if_neg Bool.false_ne_true, if_pos (Double.le_of_not_le h), hfolded,
      Double.add_neg_zero hnormal]

theorem generalCount_of_zero (h : Double.le (.finite s m e) (.finite t n f) = false) (i : Nat) :
    generalCount (.finite s m e) (.finite t n f) (.finite u 0 g) (i + 1) = none := by
  have hdown : Double.zero.le (generalStep (.finite s m e) (.finite t n f) (.finite u 0 g)) = true := by
    rw [generalStep_eq, foldedStep, h]
    exact (Double.zero_le_neg_abs u).trans (decide_eq_true rfl)
  unfold generalCount
  induction i with
  | zero => simp [counted, hdown, h]
  | succ i ih =>
    rw [counted, ih]
    rfl

/-- Both ways to count take the same values unless they count down by zero: then the one whose direction is
known goes on forever, and the other one ends at once. -/
theorem foldedCount_eq_iff (hnormal : Double.Normal m e) (hstep : Double.Normal k g) :
    foldedCount (.finite s m e) (.finite t n f) (.finite u k g) = generalCount (.finite s m e) (.finite t n f) (.finite u k g)
      ↔ ¬ (k = 0 ∧ Double.le (.finite s m e) (.finite t n f) = false) := by
  constructor
  · rintro heq ⟨rfl, hdown⟩
    have hone := congrFun heq 1
    rw [foldedCount_of_zero hnormal hstep hdown, generalCount_of_zero hdown] at hone
    cases hone
  · intro h
    unfold foldedCount generalCount
    rw [generalStep_eq]
    cases hup : Double.le (.finite s m e) (.finite t n f) with
    | true =>
      have hpositive : Double.zero.le (foldedStep (.finite s m e) (.finite t n f) (.finite u k g)) = true := by
        rw [foldedStep, hup]
        exact Double.zero_le_abs u
      rw [hpositive]
    | false =>
      have hnegative : Double.zero.le (foldedStep (.finite s m e) (.finite t n f) (.finite u k g)) = false := by
        rw [foldedStep, hup]
        exact (Double.zero_le_neg_abs u).trans (decide_eq_false fun hk => h ⟨hk, hup⟩)
      rw [hnegative]

/-- For whole numbers the two ways differ only when they count down by zero. -/
theorem foldedCount_ofInt_iff {i j k : Int} (hi : Double.ofInt i = .finite s m e) (hj : Double.ofInt j = .finite t n f)
    {o : Nat} (hk : Double.ofInt k = .finite u o g) :
    foldedCount (.ofInt i) (.ofInt j) (.ofInt k) = generalCount (.ofInt i) (.ofInt j) (.ofInt k) ↔
      ¬(k = 0 ∧ (Double.ofInt i).le (.ofInt j) = false) := by
  rw [← (Double.ofInt_eq_zero hk).1, hi, hj, hk]
  exact foldedCount_eq_iff (Double.normal_of_ofInt hi) (Double.normal_of_ofInt hk)

end
end Blockwright.Loops
