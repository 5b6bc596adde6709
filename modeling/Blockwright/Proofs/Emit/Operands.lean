import Blockwright.Proofs.Operators.Shifts
import Blockwright.Proofs.Twins.Program
/-!
# Operands that are evaluated once

An emitter that wants an operand more than once writes a word or a literal again, and puts anything
else into a temporary variable or hands it to a helper. So code that is neither stands at one place of
what is emitted, and everything around it is the same whatever the code is.
-/

namespace Blockwright

/-- The code of an operand and its precedence. -/
structure Operand where
  code : String
  order : Order

/-- Code that is there, and is neither a word, nor a decimal literal, nor a quoted word. -/
structure Operand.IsComplex (o : Operand) : Prop where
  ne_empty : o.code ≠ ""
  not_isWord : Text.isWord o.code = false
  not_isNumber : Text.isNumber o.code = false
  not_isQuotedWord : Text.isQuotedWord o.code = false

namespace Operand

/-- The code of an operand in a place of precedence `outer`. -/
def place (outer : Order) (o : Operand) : String := Order.wrap o.code outer o.order

variable {o : Operand} {outer : Order}

theorem place_cases (outer : Order) (o : Operand) : o.place outer = o.code ∨ o.place outer = "(" ++ o.code ++ ")" := by
  unfold place Order.wrap
  split
  · exact .inr rfl
  · exact .inl rfl

theorem IsComplex.place_ne_empty (h : o.IsComplex) : o.place outer ≠ "" := by
  rcases place_cases outer o with hplace | hplace
  · rw [hplace]; exact h.ne_empty
  · rw [hplace]
    intro hempty
    have hchars := congrArg String.toList hempty
    simp [String.toList_append] at hchars

theorem IsComplex.isWord_place (h : o.IsComplex) : Text.isWord (o.place outer) = false := by
  rcases place_cases outer o with hplace | hplace
  · rw [hplace]; exact h.not_isWord
  · have hopening : Text.isWordChar '(' = false := by decide
    simp [hplace, Text.isWord, String.toList_append, hopening]

theorem IsComplex.isNumber_place (h : o.IsComplex) : Text.isNumber (o.place outer) = false :=
  Operators.isNumber_wrap h.not_isNumber outer o.order

theorem IsComplex.isQuotedWord_place (h : o.IsComplex) : Text.isQuotedWord (o.place outer) = false := by
  rcases place_cases outer o with hplace | hplace
  · rw [hplace]; exact h.not_isQuotedWord
  · have hopening : Text.isWordChar '(' = false := by decide
    have hchars : (o.place outer).toList = '(' :: (o.code.toList ++ [')']) := by simp [hplace, String.toList_append]
    have hlast : ('(' :: (o.code.toList ++ [')'])).getLast? = some ')' := by rw [← List.cons_append, List.getLast?_concat]
    simp [Text.isQuotedWord, hchars, hlast, hopening]

end Operand

namespace Site

/-- A site where an operand comes out of a socket behind some other actions. -/
def fed (s : Site) (socket : String) (b : Block) (before : Emit Unit) (o : Operand) : Site :=
  { s with plugs := (socket, some { block := b, emit := do before; return .value o.code o.order }) :: s.plugs }

variable {s : Site} {socket other : String} {b : Block} {before : Emit Unit} {o : Operand}

@[simp] theorem block_fed : (s.fed socket b before o).block = s.block := rfl
@[simp] theorem next_fed : (s.fed socket b before o).next = s.next := rfl
@[simp] theorem head_fed : (s.fed socket b before o).head = s.head := rfl
@[simp] theorem oneBased_fed : (s.fed socket b before o).oneBased = s.oneBased := rfl
@[simp] theorem variableName_fed (field : String) : (s.fed socket b before o).variableName field = s.variableName field := rfl
@[simp] theorem unhandled_fed {α : Type} (field : String) :
    ((s.fed socket b before o).unhandled field : Emit α) = s.unhandled field := rfl
@[simp] theorem dress_fed (code : String) (thisOnly : Bool) : (s.fed socket b before o).dress code thisOnly = s.dress code thisOnly := rfl

theorem plug?_fed (h : other ≠ socket) : (s.fed socket b before o).plug? other = s.plug? other := by
  rw [plug?, fed, List.lookup_cons, beq_false_of_ne h]
  rfl

theorem value_fed (h : other ≠ socket) (outer : Order) : (s.fed socket b before o).value other outer = s.value other outer := by
  rw [value, plug?_fed h]
  rfl

theorem valueOr_fed (h : other ≠ socket) (outer : Order) (fallback : String) :
    (s.fed socket b before o).valueOr other outer fallback = s.valueOr other outer fallback := by
  rw [valueOr, value_fed h]
  rfl

theorem statements_fed (h : other ≠ socket) : (s.fed socket b before o).statements other = s.statements other := by
  rw [statements, plug?_fed h]
  rfl

theorem index_fed (h : other ≠ socket) (delta : Int) (negate : Bool) (outer : Order) :
    (s.fed socket b before o).index other delta negate outer = s.index other delta negate outer := by
  unfold index
  simp only [oneBased_fed, valueOr_fed h]

theorem loopBody_fed (h : other ≠ socket) : Emit.loopBody (s.fed socket b before o) other = Emit.loopBody s other := by
  unfold Emit.loopBody
  rw [statements_fed h]
  rfl

end Site

namespace Emit

variable {α β : Type} {settings : PassSettings}

/-! ## Actions with an operand -/

/-- Whatever complex operand the action gets, it fails in one way, or ends in one pass with what `R` says
of how its value comes from the operand. -/
def Uniform (settings : PassSettings) (x : Operand → Emit α) (R : (Operand → α) → Prop) : Prop :=
  ∀ p, (∃ f q, ∀ o : Operand, o.IsComplex → (x o).run settings p = (.error f, q)) ∨
    ∃ g q, R g ∧ ∀ o : Operand, o.IsComplex → (x o).run settings p = (.ok (g o), q)

/-- The value does not come from the operand. -/
def Fixed (g : Operand → α) : Prop := ∃ a, g = fun _ => a

namespace Uniform

variable {x y : Operand → Emit α} {k : Operand → α → Emit β} {R : (Operand → α) → Prop} {S : (Operand → β) → Prop}

theorem pure {g : Operand → α} (h : R g) : Uniform settings (fun o => Pure.pure (g o)) R := fun p =>
  .inr ⟨g, p, h, fun _ _ => rfl⟩

theorem fixed (x : Emit α) : Uniform settings (fun _ => x) Fixed := by
  intro p
  rcases hrun : x.run settings p with ⟨f | a, q⟩
  · exact .inl ⟨f, q, fun _ _ => hrun⟩
  · exact .inr ⟨fun _ => a, q, ⟨a, rfl⟩, fun _ _ => hrun⟩

theorem congr (h : ∀ o : Operand, o.IsComplex → x o = y o) (hy : Uniform settings y R) : Uniform settings x R := by
  intro p
  rcases hy p with ⟨f, q, hf⟩ | ⟨g, q, hg, hrun⟩
  · exact .inl ⟨f, q, fun o ho => h o ho ▸ hf o ho⟩
  · exact .inr ⟨g, q, hg, fun o ho => h o ho ▸ hrun o ho⟩

theorem bind (hx : Uniform settings x R) (hk : ∀ g, R g → Uniform settings (fun o => k o (g o)) S) :
    Uniform settings (fun o => x o >>= k o) S := by
  intro p
  rcases hx p with ⟨f, q, hf⟩ | ⟨g, q, hg, hrun⟩
  · exact .inl ⟨f, q, fun o ho => by rw [run_bind, hf o ho]⟩
  · rcases hk g hg q with ⟨f, q', hf⟩ | ⟨g', q', hg', hrun'⟩
    · exact .inl ⟨f, q', fun o ho => by rw [run_bind, hrun o ho]; exact hf o ho⟩
    · exact .inr ⟨g', q', hg', fun o ho => by rw [run_bind, hrun o ho]; exact hrun' o ho⟩

/-- An action without the operand comes first. -/
theorem after {x : Emit α} (hk : ∀ a, Uniform settings (fun o => k o a) S) : Uniform settings (fun o => x >>= k o) S := by
  refine (fixed x).bind ?_
  rintro _ ⟨a, rfl⟩
  exact hk a

theorem ite {c : Prop} [Decidable c] (hx : Uniform settings x R) (hy : Uniform settings y R) :
    Uniform settings (fun o => if c then x o else y o) R := by
  by_cases hc : c
  · simpa only [if_pos hc] using hx
  · simpa only [if_neg hc] using hy

theorem fail (cause : Cause) : Uniform settings (fun _ => (Emit.fail cause : Emit α)) R := fun p =>
  .inl ⟨_, p, fun _ _ => rfl⟩

theorem inBlock (b : BlockName) (hx : Uniform settings x R) : Uniform settings (fun o => Emit.inBlock b (x o)) R := by
  intro p
  rcases hx p with ⟨f, q, hf⟩ | ⟨g, q, hg, hrun⟩
  · exact .inl ⟨f.inBlock b, q, fun o ho => by
      dsimp only
      rw [Emit.inBlock, run_tryCatch, hf o ho]
      rfl⟩
  · exact .inr ⟨g, q, hg, fun o ho => by
      dsimp only
      rw [Emit.inBlock, run_tryCatch, hrun o ho]⟩

end Uniform

/-! ## Where the operand stands -/

/-- The operand stands at one place of a text. -/
def Holds (outer : Order) (g : Operand → String) : Prop := ∃ before after, ∀ o, g o = before ++ o.place outer ++ after

namespace Holds

variable {outer : Order} {g : Operand → String}

theorem place : Holds outer (Operand.place outer) :=
  ⟨"", "", fun o => by rw [String.empty_append, String.append_empty]⟩

theorem prepend (text : String) (h : Holds outer g) : Holds outer fun o => text ++ g o := by
  obtain ⟨before, after, hg⟩ := h
  exact ⟨text ++ before, after, fun o => by
    dsimp only
    rw [hg o, String.append_assoc, String.append_assoc, String.append_assoc]⟩

theorem append (h : Holds outer g) (text : String) : Holds outer fun o => g o ++ text := by
  obtain ⟨before, after, hg⟩ := h
  exact ⟨before, after ++ text, fun o => by
    dsimp only
    rw [hg o, String.append_assoc]⟩

theorem of_eq {k : Operand → String} (h : Holds outer g) (text text' : String) (hk : ∀ o, k o = text ++ (g o ++ text')) :
    Holds outer k := by
  rw [show k = fun o => text ++ (g o ++ text') from funext hk]
  exact (h.append text').prepend text

end Holds

/-- The operand stands at one place of the code of a result. -/
def HoldsOperand (outer : Order) (r : Operand → Result) : Prop := ∃ (shape : String → Result) (g : Operand → String),
  ((∀ code, shape code = .statement code) ∨ ∃ order, ∀ code, shape code = .value code order) ∧ Holds outer g ∧ ∀ o, r o = shape (g o)

theorem holdsOperand_statement {outer : Order} {g : Operand → String} (h : Holds outer g) :
    HoldsOperand outer fun o => .statement (g o) := ⟨.statement, g, .inl fun _ => rfl, h, fun _ => rfl⟩

theorem holdsOperand_value {outer : Order} {g : Operand → String} (h : Holds outer g) (order : Order) :
    HoldsOperand outer fun o => .value (g o) order := ⟨(.value · order), g, .inr ⟨order, fun _ => rfl⟩, h, fun _ => rfl⟩

variable {s : Site} {socket : String} {b : Block} {before : Emit Unit} {outer : Order}

/-- The code that a socket with an operand gives. -/
theorem uniform_valueOr (fallback : String) :
    Uniform settings (fun o => (s.fed socket b before o).valueOr socket outer fallback) (· = Operand.place outer) := by
  have hvalue : ∀ o : Operand, o.IsComplex → (s.fed socket b before o).valueOr socket outer fallback =
      before >>= fun _ => pure (o.place outer) := by
    intro o ho
    have hplug : (s.fed socket b before o).plug? socket =
        some { block := b, emit := do before; return .value o.code o.order } := by
      rw [Site.plug?, Site.fed, List.lookup_cons, beq_self_eq_true]
      rfl
    rw [Site.valueOr, Site.value, hplug]
    simp only [bind_assoc, pure_bind, if_neg ho.ne_empty]
    have hplace : ¬ Order.wrap o.code outer o.order = "" := ho.place_ne_empty
    simp only [if_neg hplace]
    rfl
  exact .congr hvalue (.after fun _ => .pure rfl)

/-! ## Lists -/

/-- The line that puts an operand into a variable. -/
def declaredAs (outer : Order) (name : String) (o : Operand) : String := "var " ++ name ++ " = " ++ o.place outer ++ ";\n"

theorem holds_declaredAs (name : String) : Holds outer (declaredAs outer name) :=
  ⟨"var " ++ name ++ " = ", ";\n", fun _ => rfl⟩

theorem uniform_cachedList : Uniform settings (fun o => cachedList (o.place outer))
    fun g => ∃ name, g = fun o => (declaredAs outer name o, name) := by
  have hcached : ∀ o : Operand, o.IsComplex → cachedList (o.place outer) =
      distinctVariable "tmpList" >>= fun name => pure (declaredAs outer name o, name) := by
    intro o ho
    rw [cachedList, ho.isWord_place, if_neg Bool.false_ne_true]
    rfl
  exact .congr hcached (.after fun name => .pure ⟨name, rfl⟩)

theorem holdsOperand_placed {g : Operand → String} (h : Holds outer g) (list mode i item : String) :
    HoldsOperand outer fun o => placed (g o) list mode i item := by
  obtain ⟨before, after, hg⟩ := h
  unfold placed
  split_ifs
  · exact holdsOperand_statement ⟨before, after ++ list ++ "[" ++ i ++ "] = " ++ item ++ ";\n", fun o => by
      simp only [hg o, String.append_assoc]⟩
  · exact holdsOperand_statement ⟨before, after ++ list ++ ".splice(" ++ i ++ ", 0, " ++ item ++ ");\n", fun o => by
      simp only [hg o, String.append_assoc]⟩

/-- What is written at a place of the operand itself. -/
theorem holdsOperand_placed_place (mode i item : String) :
    HoldsOperand outer fun o => placed "" (o.place outer) mode i item := by
  unfold placed
  split_ifs
  · exact holdsOperand_statement ⟨"", "[" ++ i ++ "] = " ++ item ++ ";\n", fun o => by simp only [String.append_assoc]⟩
  · exact holdsOperand_statement ⟨"", ".splice(" ++ i ++ ", 0, " ++ item ++ ");\n", fun o => by simp only [String.append_assoc]⟩

theorem uniform_listsSetIndex : Uniform settings (fun o => listsSetIndex (s.fed "LIST" b before o)) (HoldsOperand Order.member) := by
  have hfirst : ∀ (text item : String), HoldsOperand Order.member fun o =>
      .statement (o.place Order.member ++ text ++ item ++ ";\n") := fun text item =>
    holdsOperand_statement ⟨"", text ++ item ++ ";\n", fun o => by simp only [String.empty_append, String.append_assoc]⟩
  have hcalled : ∀ (text item : String), HoldsOperand Order.member fun o =>
      .statement (o.place Order.member ++ text ++ item ++ ");\n") := fun text item =>
    holdsOperand_statement ⟨"", text ++ item ++ ");\n", fun o => by simp only [String.empty_append, String.append_assoc]⟩
  -- by the place that is set: the first, the last, from the start, from the end, or a random one
  unfold listsSetIndex
  dsimp +instances only [Site.head_fed, Site.unhandled_fed]
  simp only [Site.valueOr_fed (by decide : "TO" ≠ "LIST"), Site.index_fed (by decide : "AT" ≠ "LIST")]
  refine (uniform_valueOr _).bind ?_
  rintro _ rfl
  refine .after fun item => ?_
  split
  case h_1 =>
    split
    · exact .pure (hfirst _ _)
    · exact .pure (hcalled _ _)
    · exact .fail _
  case h_2 =>
    split
    · refine uniform_cachedList.bind ?_
      rintro _ ⟨name, rfl⟩
      dsimp only
      exact .pure (holdsOperand_placed (holds_declaredAs name) name _ _ item)
    · exact .pure (hcalled _ _)
    · exact .fail _
  case h_3 =>
    refine .after fun i => .ite ?_ ?_
    · exact .pure (holdsOperand_placed_place _ _ _)
    · exact .fail _
  case h_4 =>
    refine .after fun i => .ite ?_ ?_
    · refine uniform_cachedList.bind ?_
      rintro _ ⟨name, rfl⟩
      dsimp only
      exact .pure (holdsOperand_placed (holds_declaredAs name) name _ _ item)
    · exact .fail _
  case h_5 =>
    refine .ite ?_ ?_
    · refine uniform_cachedList.bind ?_
      rintro _ ⟨name, rfl⟩
      refine .after fun x => ?_
      dsimp only
      exact .pure (holdsOperand_placed ((holds_declaredAs name).append _) name _ x item)
    · exact .fail _
  case h_6 => exact .fail _

/-! ## Slices -/

/-- A sequence that stands in front of `slice`. -/
theorem uniform_directSlice {s : Site} {g : Operand → String} (hg : Holds outer g) (hstart : s.head.field "WHERE1" ≠ "FROM_END")
    (hstop : s.head.field "WHERE2" ≠ "FROM_END") (hlast : s.head.field "WHERE2" ≠ "LAST") :
    Uniform settings (fun o => directSlice s (g o)) (Holds outer) := by
  have hfirst : ∀ sequence, sliceStart s sequence = sliceStart s "" := by
    intro sequence
    unfold sliceStart
    split
    · rfl
    · next h => exact absurd h hstart
    · rfl
    · rfl
  have hend : ∀ sequence, sliceEnd s sequence = sliceEnd s "" := by
    intro sequence
    unfold sliceEnd
    split
    · rfl
    · next h => exact absurd h hstop
    · next h => exact absurd h hlast
    · rfl
  obtain ⟨before, after, hg⟩ := hg
  unfold directSlice
  simp only [hfirst, hend]
  refine .after fun start => .after fun stop => .pure ⟨before, after ++ ".slice(" ++ start ++ ", " ++ stop ++ ")", fun o => ?_⟩
  simp only [hg o, String.append_assoc]

theorem uniform_helperSlice {s : Site} {g : Operand → String} (hg : Holds outer g) :
    Uniform settings (fun o => helperSlice s (g o)) (Holds outer) := by
  obtain ⟨before, after, hg⟩ := hg
  unfold helperSlice
  refine .ite (.fail _) (.ite (.fail _) (.after fun i => .after fun j => .after fun fn => ?_))
  refine .pure ⟨fn ++ "(" ++ before, after ++ (if Helpers.takesIndex (s.head.field "WHERE1") then ", " ++ i else "")
    ++ (if Helpers.takesIndex (s.head.field "WHERE2") then ", " ++ j else "") ++ ")", fun o => ?_⟩
  simp only [hg o, String.append_assoc]

theorem directSlice_fed {socket : String} (h1 : "AT1" ≠ socket) (h2 : "AT2" ≠ socket) (o : Operand) (sequence : String) :
    directSlice (s.fed socket b before o) sequence = directSlice s sequence := by
  unfold directSlice sliceStart sliceEnd
  dsimp +instances only [Site.head_fed, Site.unhandled_fed]
  simp only [Site.index_fed h1, Site.index_fed h2]

theorem helperSlice_fed {socket : String} (h1 : "AT1" ≠ socket) (h2 : "AT2" ≠ socket) (o : Operand) (sequence : String) :
    helperSlice (s.fed socket b before o) sequence = helperSlice s sequence := by
  unfold helperSlice
  dsimp +instances only [Site.head_fed, Site.unhandled_fed]
  simp only [Site.index_fed h1, Site.index_fed h2]

/-- A part of a sequence. -/
theorem uniform_part {x : Operand → Emit String} (hx : Uniform settings x (Holds outer)) :
    Uniform settings (fun o => x o >>= fun code => pure (.value code Order.functionCall)) (HoldsOperand outer) :=
  hx.bind fun _ hg => .pure (holdsOperand_value hg _)

theorem uniform_listsGetSublist :
    Uniform settings (fun o => listsGetSublist (s.fed "LIST" b before o)) (HoldsOperand Order.member) := by
  unfold listsGetSublist
  dsimp +instances only [Site.head_fed]
  simp only [directSlice_fed (by decide : "AT1" ≠ "LIST") (by decide : "AT2" ≠ "LIST"),
    helperSlice_fed (by decide : "AT1" ≠ "LIST") (by decide : "AT2" ≠ "LIST")]
  refine (uniform_valueOr _).bind ?_
  rintro _ rfl
  refine .ite (uniform_part (.pure (Holds.place.append _))) ?_
  -- a list that is no word is sliced directly only where nothing is counted from its end
  by_cases hplaces : s.head.field "WHERE1" ≠ "FROM_END" ∧ s.head.field "WHERE2" = "FROM_START"
  · refine .congr (fun o ho => if_pos (by simp [hplaces])) (uniform_part (uniform_directSlice Holds.place hplaces.1 ?_ ?_))
    · rw [hplaces.2]; decide
    · rw [hplaces.2]; decide
  · refine .congr (fun o ho => if_neg ?_) (uniform_part (uniform_helperSlice Holds.place))
    rw [ho.isWord_place]
    simpa using hplaces

theorem uniform_textGetSubstring :
    Uniform settings (fun o => textGetSubstring (s.fed "STRING" b before o)) (HoldsOperand Order.functionCall) := by
  unfold textGetSubstring
  dsimp +instances only [Site.head_fed]
  simp only [directSlice_fed (by decide : "AT1" ≠ "STRING") (by decide : "AT2" ≠ "STRING"),
    helperSlice_fed (by decide : "AT1" ≠ "STRING") (by decide : "AT2" ≠ "STRING")]
  refine (uniform_valueOr _).bind ?_
  rintro _ rfl
  refine .ite (uniform_part (.pure Holds.place)) ?_
  by_cases hplaces : (s.head.field "WHERE1" ≠ "FROM_END" ∧ s.head.field "WHERE1" ≠ "LAST") ∧
      s.head.field "WHERE2" ≠ "FROM_END" ∧ s.head.field "WHERE2" ≠ "LAST"
  · exact .congr (fun o ho => if_pos (by simp [hplaces]))
      (uniform_part (uniform_directSlice Holds.place hplaces.1.1 hplaces.2.1 hplaces.2.2))
  · refine .congr (fun o ho => if_neg ?_) (uniform_part (uniform_helperSlice Holds.place))
    rw [ho.isQuotedWord_place]
    simpa [and_assoc] using hplaces

/-! ## Loops -/

theorem uniform_cached (seed : String) : Uniform settings (fun o => cached (o.place outer) seed)
    fun g => ∃ name, g = fun o => (declaredAs outer name o, name) := by
  have hcached : ∀ o : Operand, o.IsComplex → cached (o.place outer) seed =
      distinctVariable seed >>= fun name => pure (declaredAs outer name o, name) := by
    intro o ho
    rw [cached, ho.isWord_place, ho.isNumber_place, if_neg (by decide)]
    rfl
  exact .congr hcached (.after fun name => .pure ⟨name, rfl⟩)

theorem uniform_controlsRepeat (htimes : s.head.field? "TIMES" = none) :
    Uniform settings (fun o => controlsRepeat (s.fed "TIMES" b before o)) (HoldsOperand Order.assignment) := by
  unfold controlsRepeat repeats
  dsimp +instances only [Site.head_fed, Site.unhandled_fed]
  simp only [htimes, Site.loopBody_fed (by decide : "DO" ≠ "TIMES")]
  refine (uniform_valueOr _).bind ?_
  rintro _ rfl
  refine .after fun body => .after fun loopVar => (uniform_cached _).bind ?_
  rintro _ ⟨name, rfl⟩
  refine .pure (holdsOperand_statement ((holds_declaredAs name).of_eq "" ("for (var " ++ loopVar ++ " = 0; " ++ loopVar ++ " < " ++
    name ++ "; " ++ loopVar ++ "++) \x7b\n" ++ body ++ "\x7d\n") fun o => ?_))
  simp only [String.append_assoc, String.empty_append]

/-- The loop whose direction is found when it runs, behind the size of its steps. -/
def generalLoop (indent v inc startVar stopVar body : String) : String :=
  ";\n" ++ ("if (" ++ startVar ++ " > " ++ stopVar ++ ") \x7b\n" ++ indent ++ inc ++ " = -" ++ inc ++ ";\n" ++ "\x7d\n"
    ++ generalHeader v startVar stopVar inc ++ body ++ "\x7d\n")

theorem uniform_controlsFor_from :
    Uniform settings (fun o => controlsFor (s.fed "FROM" b before o)) (HoldsOperand Order.assignment) := by
  unfold controlsFor
  dsimp +instances only [Site.variableName_fed]
  simp only [Site.valueOr_fed (by decide : "TO" ≠ "FROM"), Site.valueOr_fed (by decide : "BY" ≠ "FROM"),
    Site.loopBody_fed (by decide : "DO" ≠ "FROM")]
  refine .after fun v => (uniform_valueOr _).bind ?_
  rintro _ rfl
  refine .after fun stop => .after fun step => .after fun body => ?_
  refine .congr (fun o ho => if_neg (by simp [ho.isNumber_place])) ((uniform_cached _).bind ?_)
  rintro _ ⟨name, rfl⟩
  refine .after fun cachedStop => .after fun inc => .after fun indent => ?_
  refine .pure (holdsOperand_statement ((holds_declaredAs name).of_eq "" (cachedStop.1 ++ "var " ++ inc ++ " = " ++ stepSize step ++
    generalLoop indent v inc name cachedStop.2 body) fun o => ?_))
  simp only [generalLoop, String.append_assoc, String.empty_append]

theorem uniform_controlsFor_to :
    Uniform settings (fun o => controlsFor (s.fed "TO" b before o)) (HoldsOperand Order.assignment) := by
  unfold controlsFor
  dsimp +instances only [Site.variableName_fed]
  simp only [Site.valueOr_fed (by decide : "FROM" ≠ "TO"), Site.valueOr_fed (by decide : "BY" ≠ "TO"),
    Site.loopBody_fed (by decide : "DO" ≠ "TO")]
  refine .after fun v => .after fun start => (uniform_valueOr _).bind ?_
  rintro _ rfl
  refine .after fun step => .after fun body => ?_
  refine .congr (fun o ho => if_neg (by simp [ho.isNumber_place])) (.after fun cachedStart => (uniform_cached _).bind ?_)
  rintro _ ⟨name, rfl⟩
  refine .after fun inc => .after fun indent => ?_
  refine .pure (holdsOperand_statement ((holds_declaredAs name).of_eq cachedStart.1 ("var " ++ inc ++ " = " ++ stepSize step ++
    generalLoop indent v inc cachedStart.2 name body) fun o => ?_))
  simp only [generalLoop, String.append_assoc]

theorem uniform_controlsFor_by :
    Uniform settings (fun o => controlsFor (s.fed "BY" b before o)) (HoldsOperand Order.assignment) := by
  unfold controlsFor
  dsimp +instances only [Site.variableName_fed]
  simp only [Site.valueOr_fed (by decide : "FROM" ≠ "BY"), Site.valueOr_fed (by decide : "TO" ≠ "BY"),
    Site.loopBody_fed (by decide : "DO" ≠ "BY")]
  refine .after fun v => .after fun start => .after fun stop => (uniform_valueOr _).bind ?_
  rintro _ rfl
  refine .after fun body => ?_
  refine .congr (fun o ho => if_neg (by simp [ho.isNumber_place])) (.after fun cachedStart => .after fun cachedStop =>
    .after fun inc => .after fun indent => ?_)
  -- the size of a step that is no literal is found when the loop runs
  have hsize : ∀ o : Operand, o.IsComplex → stepSize (o.place Order.assignment) = "Math.abs(" ++ o.place Order.assignment ++ ")" :=
    fun o ho => if_neg (by simp [ho.isNumber_place])
  refine .congr (fun o ho => by rw [hsize o ho]) (.pure (holdsOperand_statement (Holds.place.of_eq (cachedStart.1 ++ cachedStop.1 ++
    "var " ++ inc ++ " = " ++ "Math.abs(") (")" ++ generalLoop indent v inc cachedStart.2 cachedStop.2 body) fun o => ?_)))
  simp only [generalLoop, String.append_assoc]

theorem uniform_controlsForEach :
    Uniform settings (fun o => controlsForEach (s.fed "LIST" b before o)) (HoldsOperand Order.assignment) := by
  unfold controlsForEach
  dsimp +instances only [Site.variableName_fed]
  simp only [Site.loopBody_fed (by decide : "DO" ≠ "LIST")]
  refine .after fun v => (uniform_valueOr _).bind ?_
  rintro _ rfl
  refine .after fun body => .congr (fun o ho => if_neg (by simp [ho.isWord_place])) (.after fun name => ?_)
  simp only [pure_bind]
  refine .after fun indexVar => .after fun indent => ?_
  refine .pure (holdsOperand_statement ((holds_declaredAs name).of_eq "" ("for (var " ++ indexVar ++ " in " ++ name ++ ") \x7b\n" ++
    indent ++ v ++ " = " ++ name ++ "[" ++ indexVar ++ "];\n" ++ body ++ "\x7d\n") fun o => ?_))
  simp only [declaredAs, String.append_assoc, String.empty_append]

/-! ## Blocks -/

/-- What is done with the result of an emitter keeps the operand at one place. -/
theorem uniform_emit {emitter : Emitter} (hfound : standard.lookup s.head.kind = some emitter)
    (h : Uniform settings (fun o => emitter (s.fed socket b before o)) (HoldsOperand outer)) (thisOnly : Bool) :
    Uniform settings (fun o => (s.fed socket b before o).emit standard thisOnly) (HoldsOperand outer) := by
  have hbare : Uniform settings (fun o => (s.fed socket b before o).bare) (HoldsOperand outer) := by
    unfold Site.bare
    simp only [Site.head_fed, Site.block_fed, hfound]
    exact .inBlock _ (h.bind fun g hg => .after fun _ => .pure hg)
  have hdress : ∀ {g : Operand → String}, Holds outer g → Uniform settings (fun o => s.dress (g o) thisOnly) (Holds outer) := by
    intro g hg
    unfold Site.dress
    exact .ite (.after fun next => .pure ((hg.prepend _).append next)) (.after fun next => .pure ((hg.prepend _).append next))
  simp only [Site.emit_standard]
  dsimp +instances only [Site.head_fed, Site.block_fed, Site.dress_fed]
  refine hbare.bind fun r hr => ?_
  obtain ⟨shape, g, hshape, hg, hr⟩ := hr
  rcases hshape with hshape | ⟨order, hshape⟩
  · simp only [hr, hshape]
    exact (hdress hg).bind fun g' hg' => .pure (holdsOperand_statement hg')
  · simp only [hr, hshape]
    have hvalue : Uniform settings (fun o => s.dress (g o) thisOnly >>= fun code => Pure.pure (.value code order))
        (HoldsOperand outer) := (hdress hg).bind fun g' hg' => .pure (holdsOperand_value hg' order)
    refine .ite ?_ hvalue
    exact .after fun _ => hvalue

/-- The sockets whose operand is wanted more than once, with the precedence of their places. -/
def repeatedSlots : List (String × String × Order) := [
  ("lists_setIndex", "LIST", Order.member), ("lists_getSublist", "LIST", Order.member),
  ("text_getSubstring", "STRING", Order.functionCall), ("controls_repeat_ext", "TIMES", Order.assignment),
  ("controls_for", "FROM", Order.assignment), ("controls_for", "TO", Order.assignment),
  ("controls_for", "BY", Order.assignment), ("controls_forEach", "LIST", Order.assignment)]

/-- Complex operands are evaluated once. In a block that wants the operand of a socket more than once, when
everything else is fixed, either no complex operand can be emitted, for one reason, or every one of them stands
at one place of the code, grouped as its place needs, and the code around it and the pass are the same for all.
A repeat block with a field for its number does not look at its socket. -/
theorem complex_operand_once {kind socket : String} {outer : Order} (hslot : (kind, socket, outer) ∈ repeatedSlots) {s : Site}
    (hkind : s.head.kind = kind) (htimes : kind = "controls_repeat_ext" → s.head.field? "TIMES" = none) (b : Block)
    (before : Emit Unit) (settings : PassSettings) (p : Pass) (thisOnly : Bool) :
    (∃ f q, ∀ o : Operand, o.IsComplex →
        ((s.fed socket b before o).emit standard thisOnly).run settings p = (.error f, q)) ∨
      ∃ (shape : String → Result) (pre post : String) (q : Pass), (∀ code, (shape code).code = code) ∧
        ∀ o : Operand, o.IsComplex → ((s.fed socket b before o).emit standard thisOnly).run settings p =
          (.ok (shape (pre ++ Order.wrap o.code outer o.order ++ post)), q) := by
  have huniform : Uniform settings (fun o => (s.fed socket b before o).emit standard thisOnly) (HoldsOperand outer) := by
    subst hkind
    simp only [repeatedSlots, List.mem_cons, Prod.mk.injEq, List.not_mem_nil, or_false] at hslot
    rcases hslot with ⟨hkind, rfl, rfl⟩ | ⟨hkind, rfl, rfl⟩ | ⟨hkind, rfl, rfl⟩ | ⟨hkind, rfl, rfl⟩ | ⟨hkind, rfl, rfl⟩ |
      ⟨hkind, rfl, rfl⟩ | ⟨hkind, rfl, rfl⟩ | ⟨hkind, rfl, rfl⟩
    · exact uniform_emit (hkind ▸ rfl) uniform_listsSetIndex thisOnly
    · exact uniform_emit (hkind ▸ rfl) uniform_listsGetSublist thisOnly
    · exact uniform_emit (hkind ▸ rfl) uniform_textGetSubstring thisOnly
    · exact uniform_emit (hkind ▸ rfl) (uniform_controlsRepeat (htimes hkind)) thisOnly
    · exact uniform_emit (hkind ▸ rfl) uniform_controlsFor_from thisOnly
    · exact uniform_emit (hkind ▸ rfl) uniform_controlsFor_to thisOnly
    · exact uniform_emit (hkind ▸ rfl) uniform_controlsFor_by thisOnly
    · exact uniform_emit (hkind ▸ rfl) uniform_controlsForEach thisOnly
  rcases huniform p with hfails | ⟨r, q, ⟨shape, g, hshape, ⟨pre, post, hg⟩, hr⟩, hrun⟩
  · exact .inl hfails
  · refine .inr ⟨shape, pre, post, q, fun code => ?_, fun o ho => ?_⟩
    · rcases hshape with hshape | ⟨order, hshape⟩ <;> rw [hshape] <;> rfl
    · rw [hrun o ho, hr, hg]
      rfl

/-! ## Repeat blocks -/

/-- A repeat block with fields, and nothing to repeat. -/
def repeating (fields : List Field) : Site := ⟨⟨{ kind := "controls_repeat_ext", fields }, [], none⟩, [], none⟩

/-- It is fed a sum. -/
def plainSum : Operand := ⟨"a + b", Order.addition⟩

theorem isComplex_plainSum : plainSum.IsComplex := by
  constructor <;> decide

theorem distinct_of_not_taken {n : Names} {seed name : String} {category : Category} (hname : Identifier.ofText (.ofString seed) = name)
    (hfree : n.taken name = false) : n.distinct (.ofString seed) category = (name, { n with used := n.used.insert name }) := by
  rw [Names.distinct, hname, Names.distinctFrom, Names.free?, hfree]
  rfl

/-- The pass with the name of the counter. -/
def countedPass : Pass := { names := { used := ({} : Std.HashSet String).insert "count" } }

theorem distinct_count : ({} : Names).distinct "count" .variable = ("count", countedPass.names) := by
  refine distinct_of_not_taken ?_ (by simp [Names.taken, Names.isReserved])
  rw [Identifier.ofText, RawText.bytes_ofString, Text.bytesOf_eq]
  decide

theorem distinct_repeatEnd : countedPass.names.distinct "repeat_end" .variable =
    ("repeat_end", { countedPass.names with used := countedPass.names.used.insert "repeat_end" }) := by
  refine distinct_of_not_taken ?_ (by simp [Names.taken, Names.isReserved, countedPass])
  rw [Identifier.ofText, RawText.bytes_ofString, Text.bytesOf_eq]
  decide

/-- What a repeat block comes to whose number is written in front of its loop. -/
theorem run_controlsRepeat {fields : List Field} {o : Operand} {times : String × String} {text : String} {q : Pass}
    (hrepeats : (repeats ((repeating fields).fed "TIMES" (repeating []).block (pure ()) o)).run {} { names := {} } =
      (.ok text, { names := {} })) (hcached : (cached text "repeat_end").run {} countedPass = (.ok times, q)) :
    (controlsRepeat ((repeating fields).fed "TIMES" (repeating []).block (pure ()) o)).run {} { names := {} } =
      (.ok (.statement (times.1 ++ "for (var " ++ "count" ++ " = 0; " ++ "count" ++ " < " ++ times.2 ++ "; " ++ "count" ++ "++) \x7b\n" ++
        "" ++ "\x7d\n")), q) := by
  have hbody : (loopBody ((repeating fields).fed "TIMES" (repeating []).block (pure ()) o) "DO").run {} { names := {} } =
      (.ok "", { names := {} }) := rfl
  have hcount : (distinctVariable "count").run {} { names := {} } = (.ok "count", countedPass) := by
    show (Except.ok (({} : Names).distinct "count" .variable).1, ({ names := (({} : Names).distinct "count" .variable).2 } : Pass)) = _
    rw [distinct_count]
    rfl
  unfold controlsRepeat
  rw [run_bind, hrepeats]
  dsimp only
  rw [run_bind, hbody]
  dsimp only
  rw [run_bind, hcount]
  dsimp only
  rw [run_bind, hcached]
  rfl

/-- The code of the block. -/
theorem run_repeating {fields : List Field} {o : Operand} {times : String × String} {text : String} {q : Pass} {code : String}
    (hrepeats : (repeats ((repeating fields).fed "TIMES" (repeating []).block (pure ()) o)).run {} { names := {} } =
      (.ok text, { names := {} })) (hcached : (cached text "repeat_end").run {} countedPass = (.ok times, q))
    (hclean : q.failure? = none) (hcode : times.1 ++ "for (var " ++ "count" ++ " = 0; " ++ "count" ++ " < " ++ times.2 ++ "; " ++
      "count" ++ "++) \x7b\n" ++ "" ++ "\x7d\n" = code) :
    (((repeating fields).fed "TIMES" (repeating []).block (pure ()) o).emit standard false).run {} { names := {} } =
      (.ok (.statement code), q) := by
  have hbare := Site.run_bare (s := (repeating fields).fed "TIMES" (repeating []).block (pure ()) o) rfl
    (run_controlsRepeat hrepeats hcached) hclean
  have hdress : ∀ code, (((repeating fields).fed "TIMES" (repeating []).block (pure ()) o).dress code false).run {} q =
      (.ok ("" ++ code ++ ""), q) := fun _ => rfl
  rw [Site.emit_standard, run_bind, hbare]
  dsimp only
  rw [run_bind, hdress, String.empty_append, String.append_empty, hcode]
  rfl

/-- The sum in the socket is put into a variable. -/
theorem repeating_evaluates_once : ∃ (shape : String → Result) (pre post : String) (q : Pass),
    (((repeating []).fed "TIMES" (repeating []).block (pure ()) plainSum).emit standard false).run {} { names := {} } =
      (.ok (shape (pre ++ Order.wrap plainSum.code Order.assignment plainSum.order ++ post)), q) ∧
    pre ++ Order.wrap plainSum.code Order.assignment plainSum.order ++ post =
      "var repeat_end = a + b;\nfor (var count = 0; count < repeat_end; count++) \x7b\n\x7d\n" := by
  have hcached : (cached "a + b" "repeat_end").run {} countedPass = (.ok ("var repeat_end = a + b;\n", "repeat_end"),
      { names := { countedPass.names with used := countedPass.names.used.insert "repeat_end" } }) := by
    have hname : (distinctVariable "repeat_end").run {} countedPass = (.ok "repeat_end",
        { names := { countedPass.names with used := countedPass.names.used.insert "repeat_end" } }) := by
      show (Except.ok (countedPass.names.distinct "repeat_end" .variable).1,
        ({ names := (countedPass.names.distinct "repeat_end" .variable).2 } : Pass)) = _
      rw [distinct_repeatEnd]
    rw [cached, if_neg (by decide), run_bind, hname]
    rfl
  have hrun : (((repeating []).fed "TIMES" (repeating []).block (pure ()) plainSum).emit standard false).run {} { names := {} } =
      (.ok (.statement "var repeat_end = a + b;\nfor (var count = 0; count < repeat_end; count++) \x7b\n\x7d\n"), _) :=
    run_repeating rfl hcached rfl (by decide)
  have hslot : ("controls_repeat_ext", "TIMES", Order.assignment) ∈ repeatedSlots := by decide
  rcases complex_operand_once hslot (s := repeating []) rfl (fun _ => rfl) (repeating []).block (pure ()) {} { names := {} } false
    with ⟨f, q, hfails⟩ | ⟨shape, pre, post, q, hshape, hholds⟩
  · rw [hfails plainSum isComplex_plainSum] at hrun
    cases hrun
  · have hsame := (hholds plainSum isComplex_plainSum).symm.trans hrun
    have hresult := Except.ok.inj (Prod.mk.inj hsame).1
    refine ⟨shape, pre, post, q, hholds plainSum isComplex_plainSum, ?_⟩
    rw [← hshape (pre ++ _ ++ post), hresult]
    rfl

/-- The field of a block that repeats three times. -/
def thrice : List Field := [⟨"TIMES", .ofString "3", false⟩]

/-- A repeat block with a field for its number has the same code whatever the operand is. -/
theorem repeating_field_drops_operand :
    (∀ o : Operand, (((repeating thrice).fed "TIMES" (repeating []).block (pure ()) o).emit
      standard false).run {} { names := {} } = (.ok (.statement "for (var count = 0; count < 3; count++) \x7b\n\x7d\n"), countedPass)) ∧
    ¬ ∃ (shape : String → Result) (pre post : String) (q : Pass), (∀ code, (shape code).code = code) ∧ ∀ o : Operand, o.IsComplex →
      (((repeating thrice).fed "TIMES" (repeating []).block (pure ()) o).emit standard false).run
        {} { names := {} } = (.ok (shape (pre ++ Order.wrap o.code Order.assignment o.order ++ post)), q) := by
  have hrun : ∀ o : Operand, (((repeating thrice).fed "TIMES" (repeating []).block (pure ()) o).emit
      standard false).run {} { names := {} } = (.ok (.statement "for (var count = 0; count < 3; count++) \x7b\n\x7d\n"), countedPass) := by
    intro o
    have hfield : (repeating thrice).head.field? "TIMES" = some "3" :=
      congrArg some (RawText.text_ofString "3")
    have hrepeats : (repeats ((repeating thrice).fed "TIMES" (repeating []).block (pure ()) o)).run
        {} { names := {} } = (.ok "3", { names := {} }) := by
      have hread : ∃ n, Double.read (Text.trim "3") = .ok n ∧ n.format = "3" := by
        refine ⟨Double.ofInt 3, by decide +kernel, by decide +kernel⟩
      obtain ⟨n, hn, hformat⟩ := hread
      rw [repeats, Site.head_fed, hfield]
      dsimp only
      rw [hn]
      dsimp only
      rw [hformat]
      rfl
    have hcached : (cached "3" "repeat_end").run {} countedPass = (.ok ("", "3"), countedPass) := by
      rw [cached, if_pos (by decide)]
      rfl
    exact run_repeating hrepeats hcached rfl (by decide)
  refine ⟨hrun, ?_⟩
  rintro ⟨shape, pre, post, q, hshape, hholds⟩
  -- the codes of two operands of different lengths would be the same
  have hlength : ∀ o : Operand, o.IsComplex → (pre ++ Order.wrap o.code Order.assignment o.order ++ post).length =
      "for (var count = 0; count < 3; count++) \x7b\n\x7d\n".length := by
    intro o ho
    have hresult := Except.ok.inj (Prod.mk.inj ((hholds o ho).symm.trans (hrun o))).1
    have hcode := congrArg Result.code hresult
    rw [hshape] at hcode
    rw [hcode]
    rfl
  have hlong : (⟨"a + bc", Order.addition⟩ : Operand).IsComplex := by constructor <;> decide
  have hsame := (hlength plainSum isComplex_plainSum).trans (hlength _ hlong).symm
  have hshorter : (Order.wrap plainSum.code Order.assignment plainSum.order).length = 5 := by decide
  have hlonger : (Order.wrap "a + bc" Order.assignment Order.addition).length = 6 := by decide
  simp only [String.length_append] at hsame
  omega

end Emit
end Blockwright
