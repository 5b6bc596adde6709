import Blockwright.Proofs.Operators.Shifts
import Blockwright.Proofs.Script.Reading
import Blockwright.Proofs.Script.Syntax
/-!
# Running generated code

Variables hold numbers, texts and lists. A list is known by its place, so that a change to it is
seen through every variable that holds it; what makes a new list puts it at a place of its own.
Code that leaves the part of the language that is told here, such as a sum of texts, does not run.
What is emitted for a variable in a socket, and for one that holds an index, is the tree of its code and
stands for a number when the code runs.
-/

namespace Blockwright.Script

/-! ## Values -/

/-- A value. A text is made of UTF-16 code units, a list is known by its place. -/
inductive Value where
  | undefined
  | number (n : Int)
  | text (units : List UInt16)
  | list (place : Nat)
deriving DecidableEq

/-- What code runs on: the values of variables by name, and the lists by their places. -/
structure Memory where
  values : String → Option Value
  lists : List (List Value)

/-- The position in a sequence of `n` that a whole number means to methods: a negative one counts
from the end, and nothing lies outside. -/
def relative (n : Nat) (k : Int) : Nat := if k < 0 then (n + k).toNat else min k.toNat n

theorem relative_of_neg {n : Nat} {k : Int} (h : k < 0) : relative n k = (n + k).toNat := if_pos h

theorem relative_of_nonneg {n : Nat} {k : Int} (h : 0 ≤ k) : relative n k = min k.toNat n := if_neg (by omega)

namespace Memory

/-- Replaces a list. -/
def store (m : Memory) (place : Nat) (items : List Value) : Memory := { m with lists := m.lists.set place items }

/-- A new list. -/
def allocate (m : Memory) (items : List Value) : Value × Memory :=
  (.list m.lists.length, { m with lists := m.lists ++ [items] })

/-- Declares a variable. -/
def declare (m : Memory) (name : String) (value : Value) : Memory :=
  { m with values := fun x => if x = name then some value else m.values x }

/-- The property of a value. -/
def property? (m : Memory) : Value → String → Option Value
  | .list place, "length" => (m.lists[place]?).map fun items => .number items.length
  | .text units, "length" => some (.number units.length)
  | _, _ => none

/-- The item of a list, which is undefined outside of it. -/
def item? (m : Memory) : Value → Value → Option Value
  | .list place, .number k =>
    (m.lists[place]?).map fun items => if k < 0 then .undefined else items[k.toNat]?.getD .undefined
  | _, _ => none

/-- Sets an item of a list, or appends one directly behind it. -/
def setItem? (m : Memory) : Value → Value → Value → Option Memory
  | .list place, .number k, value => do
    let items ← m.lists[place]?
    if k < 0 || items.length < k.toNat then none
    else if k.toNat = items.length then return m.store place (items ++ [value])
    else return m.store place (items.set k.toNat value)
  | _, _, _ => none

/-- A method of a list. -/
def invokeList? (m : Memory) (place : Nat) (items : List Value) : String → List Value → Option (Value × Memory)
  | "slice", [.number k] => some (m.allocate (items.drop (relative items.length k)))
  | "splice", [.number k, .number count] =>
    let start := relative items.length k
    some ((m.store place (items.take start ++ items.drop (start + count.toNat))).allocate
      ((items.drop start).take count.toNat))
  | "shift", [] => some (items.head?.getD .undefined, m.store place items.tail)
  | "pop", [] => some (items.getLast?.getD .undefined, m.store place items.dropLast)
  | _, _ => none

/-- A method of a text. -/
def invokeText? (m : Memory) (units : List UInt16) : String → List Value → Option (Value × Memory)
  | "slice", [.number k] => some (.text (units.drop (relative units.length k)), m)
  | "charAt", [.number k] => some (.text (if k < 0 then [] else units[k.toNat]?.toList), m)
  | _, _ => none

/-- A method of a value. -/
def invoke? (m : Memory) : Value → String → List Value → Option (Value × Memory)
  | .list place, method, arguments => (m.lists[place]?).bind fun items => m.invokeList? place items method arguments
  | .text units, method, arguments => m.invokeText? units method arguments
  | _, _, _ => none

end Memory

/-! ## Running -/

mutual

/-- The value of an expression, and the memory behind it. -/
def Expr.eval : Expr → Memory → Option (Value × Memory)
  | .number n, m => some (.number n, m)
  | .name x, m => (m.values x).map (·, m)
  | .negative a, m => do
    let (.number n, m) ← a.eval m | none
    return (.number (-n), m)
  | .sum a b, m => do
    let (.number k, m) ← a.eval m | none
    let (.number n, m) ← b.eval m | none
    return (.number (k + n), m)
  | .difference a b, m => do
    let (.number k, m) ← a.eval m | none
    let (.number n, m) ← b.eval m | none
    return (.number (k - n), m)
  | .member a property, m => do
    let (v, m) ← a.eval m
    return (← m.property? v property, m)
  | .item a index, m => do
    let (v, m) ← a.eval m
    let (k, m) ← index.eval m
    return (← m.item? v k, m)
  | .call (.member a method) arguments, m => do
    let (v, m) ← a.eval m
    let (vs, m) ← evalAll arguments m
    m.invoke? v method vs
  | .call _ _, _ => none

/-- The values of arguments, from left to right. -/
def evalAll : List Expr → Memory → Option (List Value × Memory)
  | [], m => some ([], m)
  | a :: as, m => do
    let (v, m) ← a.eval m
    let (vs, m) ← evalAll as m
    return (v :: vs, m)

end

/-- Runs a statement. -/
def Statement.run : Statement → Memory → Option Memory
  | .expression a, m => (a.eval m).map (·.2)
  | .assignment (.item a index) value, m => do
    let (v, m) ← a.eval m
    let (k, m) ← index.eval m
    let (value, m) ← value.eval m
    m.setItem? v k value
  | _, _ => none

/-! ## Slices -/

/-- The sequence and the arguments that an expression calls `slice` with. -/
def Expr.sliced? : Expr → Memory → Option (Value × List Value)
  | .call (.member a "slice") arguments, m => do
    let (v, m) ← a.eval m
    let (vs, _) ← evalAll arguments m
    return (v, vs)
  | _, _ => none

namespace Function

/-- Enters a function with the values of its parameters, which are the only variables that it sees, and makes
its declarations. -/
def enter? (f : Function) (vs : List Value) (m : Memory) : Option Memory :=
  if f.parameters.length = vs.length then
    f.declarations.foldlM (fun m d => (d.2.eval m).map fun r => r.2.declare d.1 r.1)
      { m with values := fun x => (f.parameters.zip vs).lookup x }
  else none

/-- The sequence and the arguments that the function calls `slice` with, when an expression calls the function. -/
def sliced? (f : Function) : Expr → Memory → Option (Value × List Value)
  | .call (.name x) arguments, m =>
    if x = f.name then do
      let (vs, m) ← evalAll arguments m
      let m ← f.enter? vs m
      f.result.sliced? m
    else none
  | _, _ => none

end Function
end Blockwright.Script

/-! ## Variables as indexes -/

namespace Blockwright

open Operators Emit

variable {settings : PassSettings}

/-! ## Bases -/

/-- The number of the first position, as the user counts. -/
def base (settings : PassSettings) (head : Head) : Int := if head.owned && settings.oneBased then 1 else 0

theorem moveOf_eq (settings : PassSettings) (head : Head) (delta : Int) :
    moveOf settings head delta = delta - base settings head := by
  unfold moveOf base
  split <;> omega

namespace Script

namespace Expr

/-- An expression moved by a whole number. -/
def moved (d : Int) (a : Expr) : Expr :=
  if 0 < d then .sum a (.number d.toNat) else if d < 0 then .difference a (.number (-d).toNat) else a

theorem words_moved (d : Int) (a : Expr) : (a.moved d).words = a.words := by
  unfold moved
  split_ifs <;> simp [words]

theorem eval_moved {a : Expr} {m : Memory} {i : Int} (h : a.eval m = some (.number i, m)) (d : Int) :
    (a.moved d).eval m = some (.number (i + d), m) := by
  have hsum : ∀ n : Nat, (Expr.sum a (.number n)).eval m = some (.number (i + n), m) := by
    intro n
    rw [eval, h]
    rfl
  have hdifference : ∀ n : Nat, (Expr.difference a (.number n)).eval m = some (.number (i - n), m) := by
    intro n
    rw [eval, h]
    rfl
  unfold moved
  split_ifs with hpos hneg
  · have hd : i + (d.toNat : Int) = i + d := by omega
    rw [hsum, hd]
  · have hd : i - ((-d).toNat : Int) = i + d := by omega
    rw [hdifference, hd]
  · have hd : i + d = i := by omega
    rw [h, hd]

end Expr

/-! ## Code of moved variables -/

theorem ofInt_toNat {d : Int} (h : 0 ≤ d) : Text.ofInt d = Text.ofNat d.toNat := by
  have habs : d.natAbs = d.toNat := by omega
  rw [Text.ofInt, if_neg (by omega), habs]

theorem groupedCode_number (n : Nat) : (Expr.number n).groupedCode = Text.ofNat n :=
  (Expr.groupedCode_of_isOperand rfl).trans (Expr.code_number n)

/-- Where a sum or a difference stands in parentheses. -/
theorem place_sum {t : OpTree String} (h : t.order = Order.addition ∨ t.order = Order.subtraction) :
    t.place Order.none = t.code ∧ t.place Order.subtraction = "(" ++ t.code ++ ")" ∧
      t.place Order.unaryNegation = "(" ++ t.code ++ ")" := by
  unfold OpTree.place
  rcases h with h | h <;> rw [h] <;> exact ⟨rfl, rfl, rfl⟩

/-- A variable that is moved is written as its tree, with parentheses where the operator before it asks
for them. -/
theorem place_moved (x : String) (d : Int) :
    ((OpTree.leaf x).moved d).place Order.none = ((Expr.name x).moved d).code ∧
      ((OpTree.leaf x).moved d).place Order.subtraction = ((Expr.name x).moved d).groupedCode ∧
      ((OpTree.leaf x).moved d).place Order.unaryNegation = ((Expr.name x).moved d).groupedCode := by
  have hbare : ∀ op : Binary, (OpTree.leaf x).place op.order = x := fun op => OpTree.place_leaf (needsParens_literal op) x
  rcases Int.lt_trichotomy d 0 with hneg | rfl | hpos
  · obtain ⟨hcode, horder⟩ := OpTree.code_moved_back hneg (.leaf x)
    have htree : (Expr.name x).moved d = .difference (.name x) (.number (-d).toNat) := by
      rw [Expr.moved, if_neg (by omega), if_pos hneg]
    have hsame : ((OpTree.leaf x).moved d).code = ((Expr.name x).moved d).code := by
      rw [hcode, htree, Expr.code_difference, Expr.code_name, groupedCode_number, ofInt_toNat (by omega)]
      exact congrArg (· ++ " - " ++ _) (hbare .sub)
    have hgrouped : ((Expr.name x).moved d).groupedCode = "(" ++ ((Expr.name x).moved d).code ++ ")" := by
      rw [htree, Expr.groupedCode_of_not_isOperand rfl]
    obtain ⟨hnone, hsub, hneg'⟩ := place_sum (.inr horder)
    rw [hnone, hsub, hneg', hgrouped, hsame]
    exact ⟨rfl, rfl, rfl⟩
  · have hleaf : ∀ outer, Order.needsParens outer Order.atomic = false → (OpTree.leaf x).place outer = (Expr.name x).code :=
      fun outer h => (OpTree.place_leaf h x).trans (Expr.code_name x).symm
    have hgrouped : (Expr.name x).groupedCode = (Expr.name x).code := Expr.groupedCode_of_isOperand rfl
    exact ⟨hleaf _ (by decide), (hleaf _ (by decide)).trans hgrouped.symm, (hleaf _ (by decide)).trans hgrouped.symm⟩
  · obtain ⟨hcode, horder⟩ := OpTree.code_moved_forward hpos (.leaf x)
    have htree : (Expr.name x).moved d = .sum (.name x) (.number d.toNat) := by rw [Expr.moved, if_pos hpos]
    have hsame : ((OpTree.leaf x).moved d).code = ((Expr.name x).moved d).code := by
      rw [hcode, htree, Expr.code_sum, Expr.code_name, groupedCode_number, ofInt_toNat (by omega)]
      exact congrArg (· ++ " + " ++ _) (hbare .add)
    have hgrouped : ((Expr.name x).moved d).groupedCode = "(" ++ ((Expr.name x).moved d).code ++ ")" := by
      rw [htree, Expr.groupedCode_of_not_isOperand rfl]
    obtain ⟨hnone, hsub, hneg'⟩ := place_sum (.inl horder)
    rw [hnone, hsub, hneg', hgrouped, hsame]
    exact ⟨rfl, rfl, rfl⟩

/-- A variable that is moved and negated is written as its tree. -/
theorem place_negated (x : String) (d : Int) :
    ((OpTree.leaf x).shifted d true).place Order.none = (Expr.negative ((Expr.name x).moved d)).code := by
  have hneg := OpTree.place_neg ((OpTree.leaf x).moved d) Order.none
  rw [(place_moved x d).2.2] at hneg
  exact hneg

/-- No identifier is a decimal. -/
theorem isNumber_of_isLegal {x : String} (h : Identifier.isLegal x = true) : Text.isNumber x = false := by
  obtain ⟨c, cs, hx, hdigit⟩ := head_of_isLegal h
  have hchars : ∀ d ∈ x.toList, Text.isWordChar d = true := Identifier.isWordChar_of_mem h
  have hblank : ∀ d ∈ x.toList, Text.isCodeBlank d = false := by
    intro d hd
    cases hd' : Text.isCodeBlank d with
    | false => rfl
    | true => exact absurd (hchars d hd) (by simp [not_isWordChar_of_isCodeBlank hd'])
  have htrim : Text.trimChars Text.isCodeBlank (c :: cs) = c :: cs := hx ▸ Text.trimChars_eq_self hblank
  have hminus : c ≠ '-' := by
    rintro rfl
    have hword := hchars '-' (by simp [hx])
    exact absurd hword (by decide)
  simp [Text.isNumber, hx, htrim, hminus, hdigit]

end Script

/-! ## Variables in sockets -/

namespace Block

/-- A variable stands in a socket. -/
def HoldsVariable (b : Block) (socket : String) (key : RawText) : Prop :=
  ∃ c, b.plugged? socket = some c ∧ c.Silent ∧ c.tree? = some (.leaf (.named key))

variable {b : Block} {socket : String} {key : RawText}

theorem HoldsVariable.fits (h : b.HoldsVariable socket key) :
    Fits settings ((b.site standard).plug? socket) (some (some (.leaf (.named key)))) := by
  obtain ⟨c, hplug, hc, ht⟩ := h
  exact fits_plugged hplug hc ht

/-- The code of a variable is its name. -/
theorem HoldsVariable.gives (h : b.HoldsVariable socket key) {outer : Order}
    (hbare : Order.needsParens outer Order.atomic = false) (fallback : String) :
    Gives settings ((b.site standard).valueOr socket outer fallback) [.named key] fun n => (Leaf.named key).text n := by
  have hfits : Fits settings ((b.site standard).plug? socket) (some (some (.leaf (.named key)))) := h.fits
  have hvalue : Gives settings ((b.site standard).valueOr socket outer fallback) [.named key] fun n =>
      ((OpTree.leaf (Leaf.named key)).texts n).place outer := hfits.valueOr_filled fallback
  have hplace : (fun n => ((OpTree.leaf (Leaf.named key)).texts n).place outer) = fun n => (Leaf.named key).text n :=
    funext fun n => OpTree.place_leaf hbare _
  rw [hplace] at hvalue
  exact hvalue

/-- An index in a variable is moved to count from zero, moved further, and perhaps negated. -/
theorem HoldsVariable.gives_index (settings : PassSettings) (h : b.HoldsVariable socket key) {delta : Int}
    (hdelta : delta.natAbs < Whole.greatest)
    (negate : Bool) (outer : Order) (houter : outer ≠ Order.atomic) :
    Gives settings ((b.site standard).index socket delta negate outer) [.named key] fun n =>
      ((OpTree.leaf ((Leaf.named key).text n)).shifted (delta - base settings b.head) negate).place outer := by
  refine ⟨fun n n' hn => by rw [hn _ (List.mem_singleton_self _)], fun p hsound hclean => ?_⟩
  have hnumber : (p.asking (OpTree.leaf (Leaf.named key)).leaves).failure? = none →
      Text.isNumber ((OpTree.leaf (Leaf.named key)).texts (p.asking [.named key]).names).code = false := by
    intro hclean'
    have hknown := known_requests hsound (Pass.failure?_eq_none.1 hclean').2 _ (List.mem_singleton_self _)
    exact Script.isNumber_of_isLegal (hknown.isLegal_text (hsound.after _))
  refine (ends_index hsound hclean h.fits hdelta negate outer hnumber).mono ?_ fun _ hf => hf
  rintro text p' ⟨rfl, hclean', rfl⟩
  rw [if_neg houter, moveOf_eq]
  exact ⟨rfl, hclean', rfl⟩

theorem HoldsVariable.gives_moved (h : b.HoldsVariable socket key) {delta : Int} (hdelta : delta.natAbs < Whole.greatest) :
    Gives settings ((b.site standard).index socket delta false Order.none) [.named key] fun n =>
      ((Script.Expr.name ((Leaf.named key).text n)).moved (delta - base settings b.head)).code := by
  have hindex := h.gives_index settings hdelta false Order.none (by decide)
  simpa only [OpTree.shifted, Bool.false_eq_true, if_false, (Script.place_moved _ _).1] using hindex

theorem HoldsVariable.gives_grouped (h : b.HoldsVariable socket key) {delta : Int} (hdelta : delta.natAbs < Whole.greatest) :
    Gives settings ((b.site standard).index socket delta false Order.subtraction) [.named key] fun n =>
      ((Script.Expr.name ((Leaf.named key).text n)).moved (delta - base settings b.head)).groupedCode := by
  have hindex := h.gives_index settings hdelta false Order.subtraction (by decide)
  simpa only [OpTree.shifted, Bool.false_eq_true, if_false, (Script.place_moved _ _).2.1] using hindex

theorem HoldsVariable.gives_negated (h : b.HoldsVariable socket key) {delta : Int} (hdelta : delta.natAbs < Whole.greatest) :
    Gives settings ((b.site standard).index socket delta true Order.none) [.named key] fun n =>
      (Script.Expr.negative ((Script.Expr.name ((Leaf.named key).text n)).moved (delta - base settings b.head))).code := by
  have hindex := h.gives_index settings hdelta true Order.none (by decide)
  simpa only [Script.place_negated] using hindex

/-- The use of a variable. -/
def use (key : String) : Block :=
  ⟨{ kind := "variables_get", fields := [⟨"VAR", .ofString key, true⟩], link := .value }, [], none⟩

theorem holdsVariable_use {socket key : String} (h : b.plugged? socket = some (use key)) :
    b.HoldsVariable socket (.ofString key) := by
  refine ⟨use key, h, ?_, ?_⟩
  · simp [Silent, use, blocks, socketBlocks, nextBlocks, commentLines, Head.outputConnected]
  · simp [use, tree?, parts, Reading.all, List.lookup_cons, Reading.variableUse, Head.written, Head.written?]

end Block
end Blockwright
