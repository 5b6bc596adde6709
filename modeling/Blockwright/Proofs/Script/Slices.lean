import Blockwright.Proofs.Script.Accesses
import Blockwright.Proofs.Script.Bodies
import Blockwright.Proofs.Script.Positions
/-!
# Slices

A slice between two positions, taken directly or by a helper. Directly, both ends are computed from
the length where they count from the end; the helper gets the indexes counted from zero and
computes the positions from these. Either way `slice` is called with the first position and one
past the last. What is emitted, and the body of the helper, is each the tree of a slice as it is
written.
-/

namespace Blockwright

/-- An index that already counts from zero. -/
theorem Spot.position_zero (base : Int) (n : Nat) (i : Int) (spot : Spot) :
    spot.position 0 n (i - base) = spot.position base n i := by
  cases spot <;> simp [position]

namespace Script

theorem evalAll_append {as bs : List Expr} {m m' m'' : Memory} {vs ws : List Value} (has : evalAll as m = some (vs, m'))
    (hbs : evalAll bs m' = some (ws, m'')) : evalAll (as ++ bs) m = some (vs ++ ws, m'') := by
  induction as generalizing m vs with
  | nil =>
    obtain ⟨rfl, rfl⟩ := Prod.mk.inj (Option.some.inj has)
    exact hbs
  | cons a as ih =>
    simp only [evalAll, Option.bind_eq_bind, Option.bind_eq_some_iff] at has
    obtain ⟨⟨v, m₁⟩, ha, ⟨vs', m₂⟩, has, hall⟩ := has
    obtain ⟨rfl, rfl⟩ := Prod.mk.inj (Option.some.inj hall)
    rw [List.cons_append, evalAll, ha]
    simp [ih has]

/-! ## Direct slices -/

/-- The end of a slice, one past a position. -/
def stopIndex (base : Int) (index : String) (a : Expr) : Spot → Expr
  | .first => .number 1
  | .last => .member a "length"
  | .fromStart => (Expr.name index).moved (1 - base)
  | .fromEnd => .difference (.member a "length") ((Expr.name index).moved (0 - base))

/-- A slice that is taken directly. -/
def directCall (base : Int) (index1 index2 : String) (a : Expr) (start stop : Spot) : Expr :=
  invocation a "slice" [lengthIndex base index1 a start, stopIndex base index2 a stop]

section
variable {base i j : Int} {index1 index2 index : String} {a : Expr} {m : Memory} {v : Value} {n : Nat} {start stop spot : Spot}

theorem eval_stopIndex (hindex : spot.isCounted = true → m.values index = some (.number i))
    (hvalue : a.eval m = some (v, m)) (hlength : m.property? v "length" = some (.number n)) :
    (stopIndex base index a spot).eval m = some (.number (spot.position base n i + 1), m) := by
  have hmember := eval_length hvalue hlength
  cases spot with
  | first => rfl
  | last =>
    rw [stopIndex, hmember, Spot.position, show (n : Int) - 1 + 1 = n by omega]
  | fromStart =>
    have hmoved := Expr.eval_moved (eval_name (hindex rfl)) (1 - base)
    rw [stopIndex, hmoved, Spot.position, show i + (1 - base) = i - base + 1 by omega]
  | fromEnd =>
    have hmoved := Expr.eval_moved (eval_name (hindex rfl)) (0 - base)
    rw [stopIndex, Expr.eval, hmember]
    simp only [Option.bind_eq_bind, Option.bind_some, hmoved, Spot.position]
    rw [show (n : Int) - (i + (0 - base)) = n - 1 - (i - base) + 1 by omega]
    rfl

/-- A direct slice is taken from the first position to one past the last. -/
theorem sliced_directCall (hstart : start.isCounted = true → m.values index1 = some (.number i))
    (hstop : stop.isCounted = true → m.values index2 = some (.number j))
    (hvalue : a.eval m = some (v, m)) (hlength : m.property? v "length" = some (.number n)) :
    (directCall base index1 index2 a start stop).sliced? m =
      some (v, [.number (start.position base n i), .number (stop.position base n j + 1)]) := by
  have hlow : (lengthIndex base index1 a start).eval m = _ := eval_lengthIndex hstart hvalue hlength
  have hhigh : (stopIndex base index2 a stop).eval m = _ := eval_stopIndex hstop hvalue hlength
  rw [directCall, invocation, Expr.sliced?, hvalue]
  simp [evalAll, hlow, hhigh]

end

/-! ## The helper -/

/-- How the helper computes a position of its sequence from its argument. -/
def helperPosition (argument : String) : Spot → Expr
  | .first => .number 0
  | .last => .difference (.member (.name "sequence") "length") (.number 1)
  | .fromStart => .name argument
  | .fromEnd => .difference (.difference (.member (.name "sequence") "length") (.number 1)) (.name argument)

/-- The helper for a pair of places. -/
def subsequence (name : String) (start stop : Spot) : Function where
  name
  parameters := "sequence" :: ((if start.isCounted then ["at1"] else []) ++ if stop.isCounted then ["at2"] else [])
  declarations := [("start", helperPosition "at1" start), ("end", .sum (helperPosition "at2" stop) (.number 1))]
  result := invocation (.name "sequence") "slice" [.name "start", .name "end"]

/-- The argument for a place, which counts from zero. -/
def countedIndex (base : Int) (index : String) (spot : Spot) : List Expr :=
  if spot.isCounted then [(Expr.name index).moved (0 - base)] else []

/-- A slice that is taken by the helper. -/
def helperCall (base : Int) (name index1 index2 : String) (a : Expr) (start stop : Spot) : Expr :=
  .call (.name name) (a :: (countedIndex base index1 start ++ countedIndex base index2 stop))

section
variable {base i j : Int} {name index1 index2 index argument : String} {a : Expr} {m : Memory} {v : Value} {n : Nat}
  {start stop spot : Spot}

theorem eval_helperPosition (hindex : spot.isCounted = true → m.values argument = some (.number i))
    (hvalue : m.values "sequence" = some v) (hlength : m.property? v "length" = some (.number n)) :
    (helperPosition argument spot).eval m = some (.number (spot.position 0 n i), m) := by
  have hmember := eval_length (eval_name hvalue) hlength
  have hback : (Expr.difference (.member (.name "sequence") "length") (.number 1)).eval m = some (.number (n - 1), m) := by
    rw [Expr.eval, hmember]
    rfl
  cases spot with
  | first => rfl
  | last => exact hback
  | fromStart =>
    rw [helperPosition, eval_name (hindex rfl), Spot.position, Int.sub_zero]
  | fromEnd =>
    rw [helperPosition, Expr.eval, hback]
    simp [eval_name (hindex rfl), Spot.position]

/-- The arguments for a pair of places, as they are passed. -/
def passed (start stop : Spot) (i j : Int) : List Value :=
  (if start.isCounted then [.number i] else []) ++ if stop.isCounted then [.number j] else []

/-- Entered with a sequence and indexes that count from zero, the helper slices from the first position to one
past the last. -/
theorem enter_subsequence (hlength : m.property? v "length" = some (.number n)) :
    ∃ m', (subsequence name start stop).enter? (v :: passed start stop i j) m = some m' ∧
      (subsequence name start stop).result.sliced? m' =
        some (v, [.number (start.position 0 n i), .number (stop.position 0 n j + 1)]) := by
  -- the parameters are the only variables at first
  generalize hbound : (fun x => ((subsequence name start stop).parameters.zip (v :: passed start stop i j)).lookup x) = bound
  have hparameters : (subsequence name start stop).parameters.length = (v :: passed start stop i j).length := by
    unfold subsequence passed
    cases start.isCounted <;> cases stop.isCounted <;> rfl
  have hsequence : bound "sequence" = some v := by
    rw [← hbound]
    rfl
  have hat1 : start.isCounted = true → bound "at1" = some (.number i) := by
    intro hcounted
    rw [← hbound]
    simp [subsequence, passed, hcounted, List.lookup_cons]
  have hat2 : stop.isCounted = true → bound "at2" = some (.number j) := by
    intro hcounted
    rw [← hbound]
    cases hstart : start.isCounted <;> simp [subsequence, passed, hcounted, hstart, List.lookup_cons]
  have hlow : (helperPosition "at1" start).eval { m with values := bound } = _ :=
    eval_helperPosition hat1 hsequence hlength
  -- the first declaration hides neither the sequence nor the second argument
  have hhigh : (Expr.sum (helperPosition "at2" stop) (.number 1)).eval
      ({ m with values := bound }.declare "start" (.number (start.position 0 n i))) =
      some (.number (stop.position 0 n j + 1),
        { m with values := bound }.declare "start" (.number (start.position 0 n i))) := by
    have hstop : (helperPosition "at2" stop).eval
        ({ m with values := bound }.declare "start" (.number (start.position 0 n i))) = _ :=
      eval_helperPosition hat2 hsequence hlength
    rw [Expr.eval, hstop]
    rfl
  refine ⟨({ m with values := bound }.declare "start" (.number (start.position 0 n i))).declare "end"
    (.number (stop.position 0 n j + 1)), ?_, ?_⟩
  · rw [Function.enter?, if_pos hparameters, hbound, subsequence]
    simp only [List.foldlM_cons, List.foldlM_nil, hlow, hhigh, Option.map_some, Option.bind_eq_bind, Option.bind_some]
    rfl
  · have hsequence' : (({ m with values := bound }.declare "start" (.number (start.position 0 n i))).declare "end"
        (.number (stop.position 0 n j + 1))).values "sequence" = some v := hsequence
    rw [subsequence, invocation, Expr.sliced?, eval_name hsequence']
    rfl

/-- A slice by the helper is taken from the first position to one past the last. -/
theorem sliced_helperCall (hstart : start.isCounted = true → m.values index1 = some (.number i))
    (hstop : stop.isCounted = true → m.values index2 = some (.number j))
    (hvalue : a.eval m = some (v, m)) (hlength : m.property? v "length" = some (.number n)) :
    (subsequence name start stop).sliced? (helperCall base name index1 index2 a start stop) m =
      some (v, [.number (start.position base n i), .number (stop.position base n j + 1)]) := by
  have hcounted : ∀ {spot : Spot} {index : String} {i : Int}, (spot.isCounted = true → m.values index = some (.number i)) →
      evalAll (countedIndex base index spot) m = some (if spot.isCounted then [.number (i - base)] else [], m) := by
    intro spot index i hindex
    unfold countedIndex
    split
    · rename_i hspot
      have hmoved := Expr.eval_moved (eval_name (hindex hspot)) (0 - base)
      rw [evalAll, hmoved, show i + (0 - base) = i - base by omega]
      rfl
    · rfl
  have harguments : evalAll (a :: (countedIndex base index1 start ++ countedIndex base index2 stop)) m =
      some (v :: passed start stop (i - base) (j - base), m) := by
    rw [evalAll, hvalue]
    simp [evalAll_append (hcounted hstart) (hcounted hstop), passed]
  obtain ⟨m', henter, hsliced⟩ : ∃ m', (subsequence name start stop).enter? (v :: passed start stop (i - base) (j - base)) m =
      some m' ∧ _ := enter_subsequence hlength
  rw [helperCall, Function.sliced?, if_pos (by rfl), harguments]
  simp only [Option.bind_eq_bind, Option.bind_some, henter, hsliced, Spot.position_zero]

end
end Script
end Blockwright

/-! ## Code of slices -/

namespace Blockwright

open Operators Emit Script

variable {settings : PassSettings}

namespace Script

/-! ## Written slices -/

theorem takesIndex_option (spot : Spot) : Helpers.takesIndex spot.option = spot.isCounted := by cases spot <;> rfl

theorem code_directCall (base : Int) (index1 index2 : String) {a : Expr} (ha : a.isUse = true) (start stop : Spot) :
    (directCall base index1 index2 a start stop).code =
      a.code ++ ".slice(" ++ (lengthIndex base index1 a start).code ++ ", " ++ (stopIndex base index2 a stop).code ++ ")" := by
  rw [directCall, code_invocation ha]
  exact String.toList_injective (by simp [Text.joinWith])

theorem code_helperCall (base : Int) (name index1 index2 : String) (a : Expr) (start stop : Spot) :
    (helperCall base name index1 index2 a start stop).code =
      name ++ "(" ++ a.code
        ++ (if start.isCounted then ", " ++ ((Expr.name index1).moved (0 - base)).code else "")
        ++ (if stop.isCounted then ", " ++ ((Expr.name index2).moved (0 - base)).code else "") ++ ")" := by
  rw [helperCall, Expr.code_call rfl, Expr.code_name]
  unfold countedIndex
  refine String.toList_injective ?_
  cases start.isCounted <;> cases stop.isCounted <;> simp [Text.joinWith]

theorem code_helperPosition (argument : String) (spot : Spot) :
    (helperPosition argument spot).code = Helpers.sequenceIndex spot.option argument := by
  have hback : (Expr.difference (.member (.name "sequence") "length") (.number 1)).code = "sequence.length - 1" := by
    rw [Expr.code_difference, code_member_length rfl, Expr.code_name, Expr.groupedCode_of_isOperand rfl, code_one]
    rfl
  cases spot with
  | first => exact code_zero
  | last => exact hback
  | fromStart => exact Expr.code_name argument
  | fromEnd =>
    rw [helperPosition, Expr.code_difference, hback, Expr.groupedCode_of_isOperand rfl, Expr.code_name]
    rfl

/-- The body that the helper is provided with is that of the function. -/
theorem body_subsequence (name : String) (start stop : Spot) :
    (subsequence name start stop).body = Helpers.subsequence start.option stop.option := by
  have hresult : (invocation (.name "sequence") "slice" [.name "start", .name "end"]).code = "sequence.slice(start, end)" := by
    rw [code_invocation rfl, List.map_cons, List.map_cons, List.map_nil, Expr.code_name, Expr.code_name, Expr.code_name]
    rfl
  have hstop : (Expr.sum (helperPosition "at2" stop) (.number 1)).code =
      Helpers.sequenceIndex stop.option "at2" ++ " + 1" := by
    rw [Expr.code_sum, code_helperPosition, Expr.groupedCode_of_isOperand rfl, code_one, String.append_assoc]
    rfl
  have hheader :
      "function " ++ functionMark ++ "(" ++ Text.joinWith ", " (subsequence name start stop).parameters ++ ") \x7b" =
      "function \x7bfunctionName\x7d(sequence" ++ (if Helpers.takesIndex start.option then ", at1" else "")
        ++ (if Helpers.takesIndex stop.option then ", at2" else "") ++ ") \x7b" := by
    rw [takesIndex_option, takesIndex_option]
    unfold subsequence
    cases start.isCounted <;> cases stop.isCounted <;> rfl
  rw [Function.body, hheader, Helpers.subsequence]
  simp [Function.linesOf, subsequence, code_helperPosition, hresult, hstop, ← String.append_assoc]
  rw [String.append_assoc]
  rfl

/-! ## Words -/

section
variable {base : Int} {name index1 index2 index : String} {a : Expr} {start stop spot : Spot}
  (ha : ∀ x ∈ a.words, Identifier.isLegal x = true)

include ha in
theorem isLegal_stopIndex (hindex : spot.isCounted = true → Identifier.isLegal index = true) :
    ∀ x ∈ (stopIndex base index a spot).words, Identifier.isLegal x = true := by
  have hmember : ∀ x ∈ (Expr.member a "length").words, Identifier.isLegal x = true :=
    List.forall_mem_cons.2 ⟨by decide, ha⟩
  cases spot with
  | first => simp [stopIndex, Expr.words]
  | last => exact hmember
  | fromStart => simpa [stopIndex, Expr.words_moved, Expr.words] using hindex rfl
  | fromEnd =>
    rw [stopIndex, Expr.words, List.forall_mem_append, Expr.words_moved]
    exact ⟨hmember, isLegal_name (hindex rfl)⟩

variable (hstart : start.isCounted = true → Identifier.isLegal index1 = true)
  (hstop : stop.isCounted = true → Identifier.isLegal index2 = true)

include ha hstart hstop in
theorem isLegal_directCall : ∀ x ∈ (directCall base index1 index2 a start stop).words, Identifier.isLegal x = true := by
  refine isLegal_invocation ha (by decide) ?_
  simp only [argumentWords, List.forall_mem_append]
  exact ⟨isLegal_lengthIndex hstart ha, isLegal_stopIndex ha hstop, by simp⟩

include ha hstart hstop in
theorem isLegal_helperCall (hname : Identifier.isLegal name = true) :
    ∀ x ∈ (helperCall base name index1 index2 a start stop).words, Identifier.isLegal x = true := by
  have hcounted : ∀ {spot : Spot} {index : String}, (spot.isCounted = true → Identifier.isLegal index = true) →
      ∀ x ∈ argumentWords (countedIndex base index spot), Identifier.isLegal x = true := by
    intro spot index hindex
    unfold countedIndex
    split
    · simpa [argumentWords, Expr.words_moved, Expr.words] using hindex ‹_›
    · simp [argumentWords]
  simp only [helperCall, Expr.words, argumentWords, argumentWords_append, List.forall_mem_append]
  exact ⟨isLegal_name hname, ha, hcounted hstart, hcounted hstop⟩

end

theorem isLegal_helperPosition {argument : String} (hargument : Identifier.isLegal argument = true) (spot : Spot) :
    ∀ x ∈ (helperPosition argument spot).words, Identifier.isLegal x = true := by
  have hback : ∀ x ∈ (Expr.difference (.member (.name "sequence") "length") (.number 1)).words,
      Identifier.isLegal x = true := by decide
  cases spot with
  | first => simp [helperPosition, Expr.words]
  | last => exact hback
  | fromStart => exact isLegal_name hargument
  | fromEnd => exact List.forall_mem_append.2 ⟨hback, isLegal_name hargument⟩

theorem isLegal_subsequence {name : String} (hname : Identifier.isLegal name = true) (start stop : Spot) :
    (subsequence name start stop).IsLegal where
  name := hname
  parameters := by
    simp only [subsequence, List.forall_mem_cons, List.forall_mem_append]
    refine ⟨by decide, ?_, ?_⟩
    · cases start.isCounted <;> decide
    · cases stop.isCounted <;> decide
  declarations := by
    have hstop : ∀ x ∈ (Expr.sum (helperPosition "at2" stop) (.number 1)).words, Identifier.isLegal x = true :=
      List.forall_mem_append.2 ⟨isLegal_helperPosition (by decide) stop, by simp [Expr.words]⟩
    simp only [subsequence, List.forall_mem_cons]
    exact ⟨⟨by decide, isLegal_helperPosition (by decide) start⟩, ⟨by decide, hstop⟩, by simp⟩
  result := by
    have hsliced : ∀ x ∈ (invocation (.name "sequence") "slice" [.name "start", .name "end"]).words,
        Identifier.isLegal x = true := by decide
    exact hsliced

end Script
end Blockwright
