import Blockwright.Emit.Lists
import Blockwright.Emit.Logic
import Blockwright.Emit.Loops
import Blockwright.Emit.Math
import Blockwright.Emit.Procedures
import Blockwright.Emit.Texts
import Blockwright.Emit.Variables
import Blockwright.Proofs.Emit.HelperPool
import Blockwright.Proofs.Emit.Outcomes
/-!
# The sockets that emitters read

An emitter of a standard kind reads the sockets that its kind names, some of them with a number,
each for a value or for statements. It demands names, helpers of the catalogue and definitions, but
leaves the variables of the pass and the definition that declares them alone, it does not look at
whether the pass is strict, and of itself it fails only because of one of its own fields or a literal
that is too large. What it may do as seen from outside is its licence.

The sockets that the emitters of each module read stand here as well, those for a value before those for
statements. The emitters of numbers, lists and texts read all of theirs for a value.
-/

namespace Blockwright

/-- The name of a socket, or the names that are one text with a number behind it. -/
inductive SocketName where
  | named (name : String)
  | numbered (start : String)
deriving DecidableEq

namespace SocketName

instance : Coe String SocketName := ⟨named⟩

/-- Whether a socket goes by a name. -/
def Fits : SocketName → String → Prop
  | .named name, socket => socket = name
  | .numbered start, socket => ∃ n, socket = start ++ Text.ofNat n

@[simp] theorem fits_named (name socket : String) : (named name).Fits socket ↔ socket = name := Iff.rfl

@[simp] theorem fits_numbered (start socket : String) :
    (numbered start).Fits socket ↔ ∃ n, socket = start ++ Text.ofNat n := Iff.rfl

end SocketName

/-- Names, helpers and definitions under any key but the one that declares the variables. -/
def Demand.Modest (d : Demand) : Prop := ∃ c, d = .call c ∧ c.key? ≠ some (.ofString "variables")

/-- What a block of its own is blamed for: the value of a field, or a literal that is too large. -/
def Site.Blamable (s : Site) (cause : Cause) : Prop :=
  (∃ field, cause = .unhandledOption s.head.kind field (s.head.written field)) ∨ ∃ literal, cause = .outOfRange literal

/-- The licence of a standard emitter that reads these sockets. -/
def Licence.standard (s : Site) (values statements : List SocketName) : Licence where
  demand := Demand.Modest
  fail f := ∃ cause, f = { cause } ∧ s.Blamable cause
  value socket := ∃ name ∈ values, name.Fits socket
  statements socket := ∃ name ∈ statements, name.Fits socket

namespace Emit

/-- At the site `s`, the action is made of steps that a standard emitter takes which reads these sockets
for a value and these for statements. -/
inductive Stepwise (s : Site) (values sts : List SocketName) : {α : Type} → Emit α → Prop
  | pure {α : Type} (a : α) : Stepwise s values sts (Pure.pure a)
  | bind {α β : Type} {x : Emit α} {f : α → Emit β} :
    Stepwise s values sts x → (∀ a, Stepwise s values sts (f a)) → Stepwise s values sts (x >>= f)
  /-- The settings are read, but not whether the pass is strict. -/
  | settings {α : Type} {f : PassSettings → Emit α} : (∀ settings strict, f { settings with strict } = f settings) →
    (∀ settings, Stepwise s values sts (f settings)) → Stepwise s values sts (read >>= f)
  | anyName (key : RawText) (category : Category) : Stepwise s values sts (Emit.name key category)
  | temporary (seed : RawText) : Stepwise s values sts (Emit.distinctVariable seed)
  | helper {desired : String} {body : List String} : (desired, body) ∈ Helpers.catalogue →
    Stepwise s values sts (Emit.provide desired body)
  | define (key : RawText) (code : String) : key ≠ .ofString "variables" → Stepwise s values sts (Emit.define key code)
  | unhandled {α : Type} (field : String) : Stepwise s values sts (s.unhandled field : Emit α)
  | outOfRange {α : Type} (literal : String) : Stepwise s values sts (Emit.fail (.outOfRange literal) : Emit α)
  | value (socket : String) (outer : Order) : (∃ name ∈ values, name.Fits socket) →
    Stepwise s values sts (s.value socket outer)
  | statements (socket : String) : (∃ name ∈ sts, name.Fits socket) → Stepwise s values sts (s.statements socket)
  | nextCode : Stepwise s values sts s.nextCode

/-- An emitter takes such steps, for these value sockets and these statement sockets. -/
def Reads (values statements : List SocketName) (emitter : Emitter) : Prop :=
  ∀ s, Stepwise s values statements (emitter s)

namespace Stepwise

variable {s : Site} {values sts : List SocketName} {α β : Type}

/-- The licence covers each of the steps. -/
theorem within {x : Emit α} (h : Stepwise s values sts x) : Within s (.standard s values sts) x := by
  induction h with
  | pure a => exact .pure a
  | bind _ _ ihx ihf => exact .bind ihx ihf
  | settings _ _ ih => exact .bind .settings ih
  | anyName key category => exact .name key category ⟨_, rfl, by simp [Call.key?]⟩
  | temporary seed => exact .distinctVariable seed ⟨_, rfl, by simp [Call.key?]⟩
  | @helper desired body h =>
    refine .provide desired body ⟨_, rfl, ?_⟩
    rw [Call.key?, Ne, Option.some.injEq, RawText.ofString_inj]
    exact Helpers.ne_variables _ h
  | define key code h => exact .define key code ⟨_, rfl, by simpa [Call.key?] using h⟩
  | unhandled field => exact .fail ⟨_, rfl, .inl ⟨field, rfl⟩⟩
  | outOfRange literal => exact .fail ⟨_, rfl, .inr ⟨literal, rfl⟩⟩
  | value socket outer h => exact .value socket outer h
  | statements socket h => exact .statements socket h
  | nextCode => exact .nextCode

/-! ## What emitters share -/

/-- A helper of its own. -/
theorem single {desired : String} {body : List String} (h : (desired, body) ∈ Helpers.single) :
    Stepwise s values sts (Emit.provide desired body) := .helper (Helpers.mem_catalogue_of_single h)

theorem indent : Stepwise s values sts Emit.indent := .settings (fun _ _ => rfl) fun _ => .pure _

theorem oneBased : Stepwise s values sts s.oneBased := .settings (fun _ _ => rfl) fun _ => .pure _

theorem variableName (field : String) : Stepwise s values sts (s.variableName field) := .anyName _ _

theorem valueOr {socket : String} (outer : Order) (fallback : String) (h : ∃ name ∈ values, name.Fits socket) :
    Stepwise s values sts (s.valueOr socket outer fallback) :=
  .bind (.value socket outer h) fun _ => .pure _

theorem dress (code : String) (thisOnly : Bool) : Stepwise s values sts (s.dress code thisOnly) := by
  unfold Site.dress
  cases thisOnly with
  | true => exact .bind (.pure _) fun _ => .pure _
  | false => exact .bind .nextCode fun _ => .pure _

theorem mapM {f : α → Emit β} {as : List α} (h : ∀ a ∈ as, Stepwise s values sts (f a)) :
    Stepwise s values sts (as.mapM f) := by
  induction as with
  | nil =>
    rw [List.mapM_nil]
    exact .pure _
  | cons a as ih =>
    rw [List.mapM_cons]
    refine .bind (h a List.mem_cons_self) fun b => ?_
    exact .bind (ih fun a' ha' => h a' (List.mem_cons_of_mem _ ha')) fun bs => .pure _

theorem numbered {start : String} (n : Nat) (order : Order) (fallback : String) (h : .numbered start ∈ values) :
    Stepwise s values sts (Emit.numbered s start n order fallback) :=
  .mapM fun i _ => .valueOr _ _ ⟨_, h, i, rfl⟩

theorem index {socket : String} (delta : Int) (negate : Bool) (outer : Order) (h : .named socket ∈ values) :
    Stepwise s values sts (s.index socket delta negate outer) := by
  refine .bind .oneBased fun oneBased => ?_
  refine .bind (.valueOr _ _ ⟨_, h, rfl⟩) fun code => ?_
  split
  · split
    · exact .pure _
    · exact .outOfRange _
  · exact .pure _

theorem loopBody {socket : String} (h : .named socket ∈ sts) :
    Stepwise s values sts (Emit.loopBody s socket) := by
  refine .bind (.statements socket ⟨_, h, rfl⟩) fun body => ?_
  refine .settings (fun _ _ => rfl) fun settings => ?_
  split
  · exact .pure _
  · exact .pure _

theorem cached (code seed : String) : Stepwise s values sts (Emit.cached code seed) := by
  unfold Emit.cached
  split
  · exact .pure _
  · exact .bind (.temporary _) fun name => .pure _

end Stepwise

open Stepwise

/-! ## Numbers -/

theorem reads_mathNumber : Reads [] [] mathNumber := by
  intro s
  unfold mathNumber
  extract_lets text
  split
  · exact .pure _
  · split
    · exact .pure _
    · exact .unhandled "NUM"

theorem reads_mathArithmetic : Reads ["A", "B"] [] mathArithmetic := by
  intro s
  unfold mathArithmetic
  split
  · refine .bind (.valueOr _ _ (by simp)) fun a => ?_
    refine .bind (.valueOr _ _ (by simp)) fun b => ?_
    split
    · exact .pure _
    · exact .pure _
  · exact .unhandled "OP"

theorem reads_mathSingle : Reads ["NUM"] [] mathSingle := by
  intro s
  unfold mathSingle
  extract_lets op
  split
  · exact .bind (.valueOr _ _ (by simp)) fun code => .pure _
  · split
    · exact .bind (.valueOr _ _ (by simp)) fun code => .pure _
    · exact .bind (.valueOr _ _ (by simp)) fun code => .pure _
    · exact .unhandled "OP"

theorem reads_mathConstant : Reads [] [] mathConstant := by
  intro s
  unfold mathConstant
  split
  · exact .pure _
  · exact .unhandled "CONSTANT"

theorem reads_mathNumberProperty : Reads ["NUMBER_TO_CHECK", "DIVISOR"] [] mathNumberProperty := by
  intro s
  refine .bind (.valueOr _ _ (by simp)) fun code => ?_
  split
  · exact .bind (.single (by simp [Helpers.single])) fun fn => .pure _
  · exact .bind (.valueOr _ _ (by simp)) fun divisor => .pure _
  · split
    · exact .pure _
    · exact .unhandled "PROPERTY"

theorem reads_mathChange : Reads ["DELTA"] [] mathChange := by
  intro s
  refine .bind (.valueOr _ _ (by simp)) fun delta => ?_
  exact .bind (.variableName "VAR") fun v => .pure _

theorem reads_mathOnList : Reads ["LIST"] [] mathOnList := by
  intro s
  unfold mathOnList
  split
  · next name body hop =>
    refine .bind (.helper (Helpers.mem_catalogue_of_listReducer (mem_of_lookup hop))) fun fn => ?_
    exact .bind (.valueOr _ _ (by simp)) fun list => .pure _
  · exact .unhandled "OP"

theorem reads_mathModulo : Reads ["DIVIDEND", "DIVISOR"] [] mathModulo := by
  intro s
  refine .bind (.valueOr _ _ (by simp)) fun dividend => ?_
  exact .bind (.valueOr _ _ (by simp)) fun divisor => .pure _

theorem reads_mathConstrain : Reads ["VALUE", "LOW", "HIGH"] [] mathConstrain := by
  intro s
  refine .bind (.valueOr _ _ (by simp)) fun v => ?_
  refine .bind (.valueOr _ _ (by simp)) fun low => ?_
  exact .bind (.valueOr _ _ (by simp)) fun high => .pure _

theorem reads_mathRandomInt : Reads ["FROM", "TO"] [] mathRandomInt := by
  intro s
  refine .bind (.valueOr _ _ (by simp)) fun low => ?_
  refine .bind (.valueOr _ _ (by simp)) fun high => ?_
  exact .bind (.single (by simp [Helpers.single])) fun fn => .pure _

theorem reads_mathRandomFloat : Reads [] [] mathRandomFloat := fun _ => .pure _

theorem reads_mathAtan2 : Reads ["X", "Y"] [] mathAtan2 := by
  intro s
  refine .bind (.valueOr _ _ (by simp)) fun x => ?_
  exact .bind (.valueOr _ _ (by simp)) fun y => .pure _

/-! ## Lists -/

theorem reads_listsCreateEmpty : Reads [] [] listsCreateEmpty := fun _ => .pure _

theorem reads_listsCreateWith : Reads [.numbered "ADD"] [] listsCreateWith :=
  fun _ => .bind (.numbered _ _ _ (by simp)) fun _ => .pure _

theorem reads_listsRepeat : Reads ["ITEM", "NUM"] [] listsRepeat := by
  intro s
  refine .bind (.single (by simp [Helpers.single])) fun fn => ?_
  refine .bind (.valueOr _ _ (by simp)) fun item => ?_
  exact .bind (.valueOr _ _ (by simp)) fun count => .pure _

theorem reads_listsLength : Reads ["VALUE"] [] listsLength :=
  fun _ => .bind (.valueOr _ _ (by simp)) fun _ => .pure _

theorem reads_listsIsEmpty : Reads ["VALUE"] [] listsIsEmpty :=
  fun _ => .bind (.valueOr _ _ (by simp)) fun _ => .pure _

theorem reads_indexOf (fallback : String) : Reads ["FIND", "VALUE"] [] (indexOf fallback) := by
  intro s
  unfold indexOf
  split
  · refine .bind (.valueOr _ _ (by simp)) fun item => ?_
    refine .bind (.valueOr _ _ (by simp)) fun sequence => ?_
    refine .bind .oneBased fun oneBased => ?_
    split
    · exact .pure _
    · exact .pure _
  · exact .unhandled "END"

section
variable {s : Site} {values sts : List SocketName}

theorem stepwise_taken (mode get : String) (getOrder : Order) (remove : String) (removeOrder : Order) :
    Stepwise s values sts (taken s mode get getOrder remove removeOrder) := by
  unfold taken
  split
  · exact .pure _
  · exact .pure _
  · exact .pure _
  · exact .unhandled "MODE"

theorem stepwise_cachedList (list : String) : Stepwise s values sts (cachedList list) := by
  unfold cachedList
  split
  · exact .pure _
  · exact .bind (.temporary _) fun name => .pure _

end

theorem reads_listsGetIndex : Reads ["VALUE", "AT"] [] listsGetIndex := by
  intro s
  refine .bind (.valueOr _ _ (by simp)) fun list => ?_
  dsimp only
  split
  · exact stepwise_taken ..
  · exact stepwise_taken ..
  · refine .bind (.index _ _ _ (by simp)) fun i => ?_
    split
    · exact .pure _
    · exact .pure _
    · exact .pure _
    · exact .unhandled "MODE"
  · refine .bind (.index _ _ _ (by simp)) fun i => ?_
    split
    · exact .pure _
    · exact .pure _
    · exact .pure _
    · exact .unhandled "MODE"
  · exact .bind (.single (by simp [Helpers.single])) fun fn => stepwise_taken ..
  · exact .unhandled "WHERE"

theorem reads_listsSetIndex : Reads ["LIST", "TO", "AT"] [] listsSetIndex := by
  intro s
  refine .bind (.valueOr _ _ (by simp)) fun list => ?_
  refine .bind (.valueOr _ _ (by simp)) fun item => ?_
  dsimp only
  split
  · split
    · exact .pure _
    · exact .pure _
    · exact .unhandled "MODE"
  · split
    · exact .bind (stepwise_cachedList list) fun r => .pure _
    · exact .pure _
    · exact .unhandled "MODE"
  · refine .bind (.index _ _ _ (by simp)) fun i => ?_
    split
    · exact .pure _
    · exact .unhandled "MODE"
  · refine .bind (.index _ _ _ (by simp)) fun i => ?_
    split
    · exact .bind (stepwise_cachedList list) fun r => .pure _
    · exact .unhandled "MODE"
  · split
    · refine .bind (stepwise_cachedList list) fun r => ?_
      exact .bind (.temporary _) fun x => .pure _
    · exact .unhandled "MODE"
  · exact .unhandled "WHERE"

/-! ## Slices -/

section
variable {s : Site} {values sts : List SocketName}

theorem stepwise_directSlice (sequence : String) (h1 : .named "AT1" ∈ values) (h2 : .named "AT2" ∈ values) :
    Stepwise s values sts (directSlice s sequence) := by
  have hstart : Stepwise s values sts (sliceStart s sequence) := by
    unfold sliceStart
    split
    · exact .index _ _ _ h1
    · exact .bind (.index _ _ _ h1) fun i => .pure _
    · exact .pure _
    · exact .unhandled "WHERE1"
  have hstop : Stepwise s values sts (sliceEnd s sequence) := by
    unfold sliceEnd
    split
    · exact .index _ _ _ h2
    · exact .bind (.index _ _ _ h2) fun i => .pure _
    · exact .pure _
    · exact .unhandled "WHERE2"
  exact .bind hstart fun start => .bind hstop fun stop => .pure _

theorem stepwise_helperSlice (sequence : String) (h1 : .named "AT1" ∈ values) (h2 : .named "AT2" ∈ values) :
    Stepwise s values sts (helperSlice s sequence) := by
  unfold helperSlice
  dsimp only
  split
  · exact .unhandled "WHERE1"
  · next hplace1 =>
    split
    · exact .unhandled "WHERE2"
    · next hplace2 =>
      -- Both places have a name, so the pair is in the catalogue.
      simp only [Bool.or_eq_true, decide_eq_true_eq, not_or, Bool.not_eq_true, Option.isNone_eq_false_iff,
        Option.isSome_iff_exists] at hplace1 hplace2
      obtain ⟨first, hfirst⟩ := hplace1.1
      obtain ⟨last, hlast⟩ := hplace2.1
      refine .bind (.index _ _ _ h1) fun i => ?_
      refine .bind (.index _ _ _ h2) fun j => ?_
      exact .bind (.helper (Helpers.mem_catalogue_subsequence hfirst hlast)) fun fn => .pure _

end

theorem reads_listsGetSublist : Reads ["LIST", "AT1", "AT2"] [] listsGetSublist := by
  intro s
  refine .bind (.valueOr _ _ (by simp)) fun list => ?_
  dsimp only
  split
  · exact .bind (.pure _) fun code => .pure _
  · split
    · exact .bind (stepwise_directSlice _ (by simp) (by simp)) fun code => .pure _
    · exact .bind (stepwise_helperSlice _ (by simp) (by simp)) fun code => .pure _

/-! ## Other lists -/

theorem reads_listsSort : Reads ["LIST"] [] listsSort := by
  intro s
  refine .bind (.valueOr _ _ (by simp)) fun list => ?_
  dsimp only
  split
  · exact .bind (.single (by simp [Helpers.single])) fun fn => .pure _
  · exact .unhandled "TYPE"

theorem reads_listsSplit : Reads ["INPUT", "DELIM"] [] listsSplit := by
  intro s
  refine .bind (.value _ _ (by simp)) fun input => ?_
  refine .bind (.valueOr _ _ (by simp)) fun delimiter => ?_
  split
  · exact .pure _
  · exact .pure _
  · exact .unhandled "MODE"

theorem reads_listsReverse : Reads ["LIST"] [] listsReverse :=
  fun _ => .bind (.valueOr _ _ (by simp)) fun _ => .pure _

/-! ## Texts -/

theorem reads_text : Reads [] [] text := fun _ => .pure _

theorem reads_textMultiline : Reads [] [] textMultiline := fun _ => .pure _

theorem reads_textJoin : Reads [.numbered "ADD"] [] textJoin := by
  intro s
  have hzero : ∃ n, "ADD0" = "ADD" ++ Text.ofNat n := ⟨0, rfl⟩
  have hone : ∃ n, "ADD1" = "ADD" ++ Text.ofNat n := ⟨1, rfl⟩
  unfold textJoin
  split
  · exact .pure _
  · exact .bind (.valueOr _ _ (by simpa using hzero)) fun a => .pure _
  · refine .bind (.valueOr _ _ (by simpa using hzero)) fun a => ?_
    exact .bind (.valueOr _ _ (by simpa using hone)) fun b => .pure _
  · exact .bind (.numbered _ _ _ (by simp)) fun items => .pure _

theorem reads_textAppend : Reads ["TEXT"] [] textAppend := by
  intro s
  refine .bind (.variableName "VAR") fun v => ?_
  exact .bind (.valueOr _ _ (by simp)) fun code => .pure _

theorem reads_textLength : Reads ["VALUE"] [] textLength :=
  fun _ => .bind (.valueOr _ _ (by simp)) fun _ => .pure _

theorem reads_textIsEmpty : Reads ["VALUE"] [] textIsEmpty :=
  fun _ => .bind (.valueOr _ _ (by simp)) fun _ => .pure _

theorem reads_textCharAt : Reads ["VALUE", "AT"] [] textCharAt := by
  intro s
  refine .bind (.valueOr _ _ (by simp)) fun code => ?_
  split
  · exact .pure _
  · exact .pure _
  · exact .bind (.index _ _ _ (by simp)) fun i => .pure _
  · exact .bind (.index _ _ _ (by simp)) fun i => .pure _
  · exact .bind (.single (by simp [Helpers.single])) fun fn => .pure _
  · exact .unhandled "WHERE"

theorem reads_textGetSubstring : Reads ["STRING", "AT1", "AT2"] [] textGetSubstring := by
  intro s
  refine .bind (.valueOr _ _ (by simp)) fun code => ?_
  dsimp only
  split
  · exact .bind (.pure _) fun part => .pure _
  · split
    · exact .bind (stepwise_directSlice _ (by simp) (by simp)) fun part => .pure _
    · exact .bind (stepwise_helperSlice _ (by simp) (by simp)) fun part => .pure _

theorem reads_textChangeCase : Reads ["TEXT"] [] textChangeCase := by
  intro s
  unfold textChangeCase
  split
  · exact .bind (.valueOr _ _ (by simp)) fun code => .pure _
  · exact .bind (.valueOr _ _ (by simp)) fun code => .pure _
  · refine .bind (.valueOr _ _ (by simp)) fun code => ?_
    exact .bind (.single (by simp [Helpers.single])) fun fn => .pure _
  · exact .unhandled "CASE"

theorem reads_textTrim : Reads ["TEXT"] [] textTrim := by
  intro s
  unfold textTrim
  split
  · exact .bind (.valueOr _ _ (by simp)) fun code => .pure _
  · exact .unhandled "MODE"

theorem reads_textPrint : Reads ["TEXT"] [] textPrint :=
  fun _ => .bind (.valueOr _ _ (by simp)) fun _ => .pure _

theorem reads_textPrompt : Reads ["TEXT"] [] textPrompt := by
  intro s
  unfold textPrompt
  extract_lets answer
  have hanswer : ∀ question, Stepwise s ["TEXT"] [] (answer question) := by
    intro question
    unfold answer
    dsimp only
    split
    · exact .pure _
    · exact .pure _
    · exact .pure _
    · exact .unhandled "TYPE"
  split
  · exact .bind (.pure _) hanswer
  · exact .bind (.valueOr _ _ (by simp)) hanswer

theorem reads_textCount : Reads ["TEXT", "SUB"] [] textCount := by
  intro s
  refine .bind (.valueOr _ _ (by simp)) fun code => ?_
  refine .bind (.valueOr _ _ (by simp)) fun part => ?_
  exact .bind (.single (by simp [Helpers.single])) fun fn => .pure _

theorem reads_textReplace : Reads ["TEXT", "FROM", "TO"] [] textReplace := by
  intro s
  refine .bind (.valueOr _ _ (by simp)) fun code => ?_
  refine .bind (.valueOr _ _ (by simp)) fun part => ?_
  refine .bind (.valueOr _ _ (by simp)) fun other => ?_
  exact .bind (.single (by simp [Helpers.single])) fun fn => .pure _

theorem reads_textReverse : Reads ["TEXT"] [] textReverse :=
  fun _ => .bind (.valueOr _ _ (by simp)) fun _ => .pure _

/-! ## Conditions -/

theorem reads_controlsIf : Reads [.numbered "IF"] [.numbered "DO", "ELSE"] controlsIf := by
  intro s
  have hbranch : ∀ n, Stepwise s [.numbered "IF"] [.numbered "DO", "ELSE"] (ifBranch s n) := by
    intro n
    refine .bind (.valueOr _ _ (by simp)) fun condition => ?_
    refine .bind (.statements _ (by simp)) fun body => ?_
    exact .pure _
  refine .bind (.mapM fun n _ => hbranch n) fun branches => ?_
  dsimp only
  split
  · exact .bind (.statements _ (by simp)) fun body => .pure _
  · exact .pure _

theorem reads_logicCompare : Reads ["A", "B"] [] logicCompare := by
  intro s
  unfold logicCompare
  split
  · refine .bind (.valueOr _ _ (by simp)) fun a => ?_
    exact .bind (.valueOr _ _ (by simp)) fun b => .pure _
  · exact .unhandled "OP"

theorem reads_logicOperation : Reads ["A", "B"] [] logicOperation := by
  intro s
  unfold logicOperation
  split
  · refine .bind (.value _ _ (by simp)) fun a => ?_
    refine .bind (.value _ _ (by simp)) fun b => ?_
    split
    · exact .pure _
    · exact .pure _
  · exact .unhandled "OP"

theorem reads_logicNegate : Reads ["BOOL"] [] logicNegate :=
  fun _ => .bind (.valueOr _ _ (by simp)) fun _ => .pure _

theorem reads_logicBoolean : Reads [] [] logicBoolean := fun _ => .pure _

theorem reads_logicNull : Reads [] [] logicNull := fun _ => .pure _

theorem reads_logicTernary : Reads ["IF", "THEN", "ELSE"] [] logicTernary := by
  intro s
  refine .bind (.valueOr _ _ (by simp)) fun condition => ?_
  refine .bind (.valueOr _ _ (by simp)) fun yes => ?_
  exact .bind (.valueOr _ _ (by simp)) fun no => .pure _

/-! ## Loops -/

theorem reads_controlsRepeat : Reads ["TIMES"] ["DO"] controlsRepeat := by
  intro s
  have htimes : Stepwise s ["TIMES"] ["DO"] (repeats s) := by
    unfold repeats
    split
    · split
      · exact .pure _
      · exact .unhandled "TIMES"
    · exact .valueOr _ _ (by simp)
  refine .bind htimes fun times => ?_
  refine .bind (.loopBody (by simp)) fun body => ?_
  refine .bind (.temporary _) fun loopVar => ?_
  exact .bind (.cached _ _) fun r => .pure _

theorem reads_controlsWhileUntil : Reads ["BOOL"] ["DO"] controlsWhileUntil := by
  intro s
  unfold controlsWhileUntil
  dsimp only
  split
  · exact .unhandled "MODE"
  · refine .bind (.valueOr _ _ (by simp)) fun condition => ?_
    exact .bind (.loopBody (by simp)) fun body => .pure _

theorem reads_controlsFor : Reads ["FROM", "TO", "BY"] ["DO"] controlsFor := by
  intro s
  refine .bind (.variableName "VAR") fun v => ?_
  refine .bind (.valueOr _ _ (by simp)) fun start => ?_
  refine .bind (.valueOr _ _ (by simp)) fun stop => ?_
  refine .bind (.valueOr _ _ (by simp)) fun step => ?_
  refine .bind (.loopBody (by simp)) fun body => ?_
  split
  · exact .pure _
  · refine .bind (.cached _ _) fun first => ?_
    refine .bind (.cached _ _) fun last => ?_
    refine .bind (.temporary _) fun inc => ?_
    exact .bind .indent fun indent => .pure _

theorem reads_controlsForEach : Reads ["LIST"] ["DO"] controlsForEach := by
  intro s
  refine .bind (.variableName "VAR") fun v => ?_
  refine .bind (.valueOr _ _ (by simp)) fun list => ?_
  refine .bind (.loopBody (by simp)) fun body => ?_
  -- the list stays where it is or goes into a variable; the loop behind is the same
  extract_lets loop
  have hloop : ∀ r, Stepwise s ["LIST"] ["DO"] (loop r) := fun r =>
    .bind (.temporary _) fun indexVar => .bind .indent fun indent => .pure _
  split
  · exact .bind (.pure _) hloop
  · exact .bind (.temporary _) fun name => .bind (.pure _) hloop

theorem reads_controlsFlow : Reads [] [] controlsFlow := by
  intro s
  unfold controlsFlow
  split
  · exact .pure _
  · exact .pure _
  · exact .unhandled "FLOW"

theorem reads_repeatWhile : Reads ["COND"] ["BODY"] repeatWhile := by
  intro s
  refine .bind (.valueOr _ _ (by simp)) fun condition => ?_
  exact .bind (.loopBody (by simp)) fun body => .pure _

/-! ## Procedures -/

theorem percent_append_ne (fn : String) : "%" ++ fn ≠ "variables" := by
  intro h
  have hhead := congrArg (fun s : String => s.toList.head?) h
  simp at hhead

theorem reads_proceduresDef : Reads ["RETURN"] ["STACK"] proceduresDef := by
  intro s
  refine .bind (.anyName _ _) fun fn => ?_
  refine .bind (.loopBody (by simp)) fun body => ?_
  refine .bind (.value _ _ (by simp)) fun result => ?_
  extract_lets definition
  have hkey : (.ofString "%" ++ .ofString fn : RawText) ≠ .ofString "variables" := by
    rw [← RawText.ofString_append, Ne, RawText.ofString_inj]
    exact percent_append_ne fn
  have hdefinition : ∀ last, Stepwise s ["RETURN"] ["STACK"] (definition last) := by
    intro last
    refine .bind (.mapM fun _ _ => .anyName _ _) fun params => ?_
    refine .bind (.dress _ false) fun code => ?_
    exact .bind (.define _ _ hkey) fun _ => .pure _
  split
  · exact .bind (.pure _) hdefinition
  · exact .bind .indent fun indent => .bind (.pure _) hdefinition

theorem stepwise_procedureCall (s : Site) : Stepwise s [.numbered "ARG"] [] (procedureCall s) := by
  refine .bind (.anyName _ _) fun fn => ?_
  exact .bind (.numbered _ _ _ (by simp)) fun arguments => .pure _

theorem reads_proceduresCallReturn : Reads [.numbered "ARG"] [] proceduresCallReturn :=
  fun s => .bind (stepwise_procedureCall s) fun _ => .pure _

theorem reads_proceduresCallNoReturn : Reads [.numbered "ARG"] [] proceduresCallNoReturn :=
  fun s => .bind (stepwise_procedureCall s) fun _ => .pure _

theorem reads_proceduresIfReturn : Reads ["CONDITION", "VALUE"] [] proceduresIfReturn := by
  intro s
  refine .bind (.valueOr _ _ (by simp)) fun condition => ?_
  extract_lets statement
  have hstatement : ∀ last, Stepwise s ["CONDITION", "VALUE"] [] (statement last) :=
    fun last => .bind .indent fun indent => .pure _
  split
  · exact .bind (.valueOr _ _ (by simp)) fun code => .bind (.pure _) hstatement
  · exact .bind (.pure _) hstatement

/-! ## Variables and colours -/

theorem reads_variablesGet : Reads [] [] variablesGet := fun _ => .bind (.variableName "VAR") fun _ => .pure _

theorem reads_variablesSet : Reads ["VALUE"] [] variablesSet := by
  intro s
  refine .bind (.valueOr _ _ (by simp)) fun code => ?_
  exact .bind (.variableName "VAR") fun v => .pure _

theorem reads_colourPicker : Reads [] [] colourPicker := fun _ => .pure _

theorem reads_colourRandom : Reads [] [] colourRandom :=
  fun _ => .bind (.single (by simp [Helpers.single])) fun _ => .pure _

theorem reads_colourRgb : Reads ["RED", "GREEN", "BLUE"] [] colourRgb := by
  intro s
  refine .bind (.valueOr _ _ (by simp)) fun red => ?_
  refine .bind (.valueOr _ _ (by simp)) fun green => ?_
  refine .bind (.valueOr _ _ (by simp)) fun blue => ?_
  exact .bind (.single (by simp [Helpers.single])) fun fn => .pure _

theorem reads_colourBlend : Reads ["COLOUR1", "COLOUR2", "RATIO"] [] colourBlend := by
  intro s
  refine .bind (.valueOr _ _ (by simp)) fun first => ?_
  refine .bind (.valueOr _ _ (by simp)) fun second => ?_
  refine .bind (.valueOr _ _ (by simp)) fun ratio => ?_
  exact .bind (.single (by simp [Helpers.single])) fun fn => .pure _

theorem reads_stringLength : Reads ["VALUE"] [] stringLength :=
  fun _ => .bind (.valueOr _ _ (by simp)) fun _ => .pure _

end Emit
end Blockwright
