import Mathlib.Tactic.SplitIfs
import Blockwright.Precedence
import Blockwright.Text.Quoted
/-!
# Strings, comments and brackets of generated code

A scanner reads code character by character and knows whether it is inside a string or a comment
and which brackets are open. Code is `Neutral` when the scanner leaves it as it entered it, and
`Sealed` when besides no line feed stands in a string but behind a backslash. Code put together from
sealed pieces and fixed text is sealed when the fixed text alone is, which `Woven` makes a
computation.
-/

namespace Blockwright.Scan

/-! ## The scanner -/

/-- What a string stands between. -/
inductive Mark where
  | single
  | double
deriving DecidableEq, Repr

/-- The character of a mark. -/
def Mark.char : Mark → Char
  | .single => '\''
  | .double => '"'

/-- Where a scanner stands. -/
inductive Place where
  | code
  /-- Behind a slash, which may start a comment. -/
  | slash
  | quoted (mark : Mark)
  /-- Behind a backslash in a string. -/
  | escaped (mark : Mark)
  | comment
deriving DecidableEq, Repr

/-- A scanner's place and the brackets that are still to be closed, the innermost first; or that a
bracket has closed what was not open. -/
inductive State where
  | on (place : Place) (owed : List Char)
  | broken
deriving DecidableEq, Repr

/-- A closing bracket. -/
def close (c : Char) : List Char → State
  | [] => .broken
  | o :: owed => if o = c then .on .code owed else .broken

/-- One character outside strings and comments. -/
def inCode (owed : List Char) (c : Char) : State :=
  if c = '\'' then .on (.quoted .single) owed
  else if c = '"' then .on (.quoted .double) owed
  else if c = '/' then .on .slash owed
  else if c = '(' then .on .code (')' :: owed)
  else if c = '[' then .on .code (']' :: owed)
  else if c = '{' then .on .code ('}' :: owed)
  else if c = ')' || c = ']' || c = '}' then close c owed
  else .on .code owed

/-- One character. A comment ends at the line feed; in a string a backslash takes the next
character with it. -/
def step : State → Char → State
  | .broken, _ => .broken
  | .on .code owed, c => inCode owed c
  | .on .slash owed, c => if c = '/' then .on .comment owed else inCode owed c
  | .on (.quoted mark) owed, c =>
    if c = '\\' then .on (.escaped mark) owed
    else if c = mark.char then .on .code owed
    else .on (.quoted mark) owed
  | .on (.escaped mark) owed, _ => .on (.quoted mark) owed
  | .on .comment owed, c => if c = '\n' then .on .code owed else .on .comment owed

/-- Reads characters one after the other. -/
def run (σ : State) (cs : List Char) : State := cs.foldl step σ

/-- The code ends outside strings and comments, with every bracket closed by its own kind. -/
def isContained (code : String) : Bool := run (.on .code []) code.toList = .on .code []

@[simp] theorem run_nil (σ : State) : run σ [] = σ := rfl

@[simp] theorem run_cons (σ : State) (c : Char) (cs : List Char) : run σ (c :: cs) = run (step σ c) cs := rfl

@[simp] theorem run_append (σ : State) (cs ds : List Char) : run σ (cs ++ ds) = run (run σ cs) ds :=
  List.foldl_append

@[simp] theorem run_broken (cs : List Char) : run .broken cs = .broken := by
  induction cs with
  | nil => rfl
  | cons c cs ih => exact ih

/-! ## Brackets further out -/

/-- The state with more brackets open further out. -/
def State.within (σ : State) (outer : List Char) : State :=
  match σ with
  | .on place owed => .on place (owed ++ outer)
  | .broken => .broken

theorem inCode_within {owed : List Char} {c : Char} (outer : List Char) (h : inCode owed c ≠ .broken) :
    inCode (owed ++ outer) c = (inCode owed c).within outer := by
  unfold inCode at h ⊢
  split_ifs at h ⊢ <;> try rfl
  -- only a closing bracket looks at what is open
  cases owed with
  | nil => exact absurd rfl h
  | cons o owed =>
    simp only [close, List.cons_append] at h ⊢
    split_ifs at h ⊢
    · rfl
    · exact absurd rfl h

theorem step_within {σ : State} {c : Char} (outer : List Char) (h : step σ c ≠ .broken) :
    step (σ.within outer) c = (step σ c).within outer := by
  rcases σ with ⟨_ | _ | mark | mark | _, owed⟩ | _
  · exact inCode_within outer h
  · simp only [step, State.within] at h ⊢
    split_ifs at h ⊢
    · rfl
    · exact inCode_within outer h
  · simp only [step, State.within]
    split_ifs <;> rfl
  · rfl
  · simp only [step, State.within]
    split_ifs <;> rfl
  · rfl

theorem run_within {σ : State} {cs : List Char} (outer : List Char) (h : run σ cs ≠ .broken) :
    run (σ.within outer) cs = (run σ cs).within outer := by
  induction cs generalizing σ with
  | nil => rfl
  | cons c cs ih =>
    have hc : step σ c ≠ .broken := by
      intro hb
      rw [run_cons, hb, run_broken] at h
      exact h rfl
    rw [run_cons, step_within outer hc, ih h, run_cons]

/-! ## Neutral code -/

/-- The scanner leaves the code as it entered it, whatever brackets are open around it. -/
def Neutral (code : String) : Prop := ∀ owed, run (.on .code owed) code.toList = .on .code owed

theorem neutral_iff {code : String} : Neutral code ↔ isContained code = true := by
  rw [isContained, decide_eq_true_eq]
  constructor
  · exact fun h => h []
  · intro h owed
    have hne : run (.on .code []) code.toList ≠ .broken := by rw [h]; simp
    have hw := run_within owed hne
    rwa [h] at hw

theorem neutral_empty : Neutral "" := fun _ => rfl

theorem Neutral.append {s t : String} (hs : Neutral s) (ht : Neutral t) : Neutral (s ++ t) := by
  intro owed
  rw [String.toList_append, run_append, hs, ht]

theorem neutral_joinWith {sep : String} (hsep : Neutral sep) :
    ∀ {ss : List String}, (∀ s ∈ ss, Neutral s) → Neutral (Text.joinWith sep ss)
  | [], _ => neutral_empty
  | [s], h => h s List.mem_cons_self
  | s :: _ :: _, h =>
    ((h s List.mem_cons_self).append hsep).append
      (neutral_joinWith hsep fun x hx => h x (List.mem_cons_of_mem _ hx))

theorem neutral_lit (cs : List Char) (h : run (.on .code []) cs = .on .code []) : Neutral (String.ofList cs) := by
  rw [neutral_iff, isContained, String.toList_ofList, h]
  exact decide_eq_true rfl

/-! ## Strings in one line -/

/-- One character, where a line feed breaks a string that does not take it with a backslash. -/
def strictStep : State → Char → State
  | .on (.quoted mark) owed, c => if c = '\n' then .broken else step (.on (.quoted mark) owed) c
  | σ, c => step σ c

/-- Reads characters one after the other, with strings in one line. -/
def strict (σ : State) (cs : List Char) : State := cs.foldl strictStep σ

@[simp] theorem strict_nil (σ : State) : strict σ [] = σ := rfl

@[simp] theorem strict_cons (σ : State) (c : Char) (cs : List Char) :
    strict σ (c :: cs) = strict (strictStep σ c) cs := rfl

@[simp] theorem strict_append (σ : State) (cs ds : List Char) : strict σ (cs ++ ds) = strict (strict σ cs) ds :=
  List.foldl_append

@[simp] theorem strict_broken (cs : List Char) : strict .broken cs = .broken := by
  induction cs with
  | nil => rfl
  | cons c cs ih => exact ih

theorem strictStep_cases (σ : State) (c : Char) : strictStep σ c = .broken ∨ strictStep σ c = step σ c := by
  unfold strictStep
  split
  · split
    · exact .inl rfl
    · exact .inr rfl
  · exact .inr rfl

theorem strictStep_within {σ : State} {c : Char} (outer : List Char) (h : strictStep σ c ≠ .broken) :
    strictStep (σ.within outer) c = (strictStep σ c).within outer := by
  have hstep : strictStep σ c = step σ c := (strictStep_cases σ c).resolve_left h
  have hwithin := step_within outer (hstep ▸ h)
  rcases σ with ⟨_ | _ | mark | mark | _, owed⟩ | _
  · exact hwithin
  · exact hwithin
  · have hfeed : c ≠ '\n' := by
      rintro rfl
      exact h rfl
    simp only [strictStep, State.within, if_neg hfeed]
    exact hwithin
  · exact hwithin
  · exact hwithin
  · exact hwithin

theorem strict_within {σ : State} {cs : List Char} (outer : List Char) (h : strict σ cs ≠ .broken) :
    strict (σ.within outer) cs = (strict σ cs).within outer := by
  induction cs generalizing σ with
  | nil => rfl
  | cons c cs ih =>
    have hc : strictStep σ c ≠ .broken := by
      intro hb
      rw [strict_cons, hb, strict_broken] at h
      exact h rfl
    rw [strict_cons, strictStep_within outer hc, ih h, strict_cons]

/-- Where the strict scanner comes through, the other one comes through alike. -/
theorem run_of_strict {σ : State} {cs : List Char} (h : strict σ cs ≠ .broken) : run σ cs = strict σ cs := by
  induction cs generalizing σ with
  | nil => rfl
  | cons c cs ih =>
    rw [strict_cons] at h ⊢
    rcases strictStep_cases σ c with hbroken | hstep
    · rw [hbroken, strict_broken] at h
      exact absurd rfl h
    · rw [run_cons, ← hstep]
      exact ih h

/-- The code is neutral, and no line feed stands in a string of it but behind a backslash. -/
def Sealed (code : String) : Prop := ∀ owed, strict (.on .code owed) code.toList = .on .code owed

theorem Sealed.neutral {code : String} (h : Sealed code) : Neutral code := fun owed =>
  (run_of_strict (by rw [h]; simp)).trans (h owed)

theorem sealed_iff {code : String} : Sealed code ↔ strict (.on .code []) code.toList = .on .code [] := by
  constructor
  · exact fun h => h []
  · intro h owed
    have hne : strict (.on .code []) code.toList ≠ .broken := by rw [h]; simp
    have hw := strict_within owed hne
    rwa [h] at hw

theorem sealed_empty : Sealed "" := fun _ => rfl

theorem Sealed.append {s t : String} (hs : Sealed s) (ht : Sealed t) : Sealed (s ++ t) := by
  intro owed
  rw [String.toList_append, strict_append, hs, ht]

theorem sealed_ite {c : Prop} [Decidable c] {s t : String} (hs : Sealed s) (ht : Sealed t) :
    Sealed (if c then s else t) := by
  split
  · exact hs
  · exact ht

/-- A character that means nothing to the scanner outside strings and comments. -/
def isPlain (c : Char) : Bool :=
  !(['\'', '"', '/', '(', ')', '[', ']', '{', '}'].contains c)

theorem inCode_plain {owed : List Char} {c : Char} (h : isPlain c = true) : inCode owed c = .on .code owed := by
  simp only [isPlain, List.contains_cons, List.contains_nil, Bool.not_or, Bool.and_eq_true, Bool.not_eq_true',
    beq_eq_false_iff_ne] at h
  obtain ⟨h1, h2, h3, h4, h5, h6, h7, h8, h9, -⟩ := h
  simp [inCode, h1, h2, h3, h4, h5, h6, h7, h8, h9]

theorem strict_plain {owed : List Char} {cs : List Char} (h : ∀ c ∈ cs, isPlain c = true) :
    strict (.on .code owed) cs = .on .code owed := by
  induction cs with
  | nil => rfl
  | cons c cs ih =>
    have hstep : strictStep (.on .code owed) c = inCode owed c := rfl
    rw [strict_cons, hstep, inCode_plain (h c List.mem_cons_self)]
    exact ih fun d hd => h d (List.mem_cons_of_mem _ hd)

theorem sealed_plain {s : String} (h : ∀ c ∈ s.toList, isPlain c = true) : Sealed s := fun _ => strict_plain h

theorem isPlain_of_isWordChar {c : Char} (h : Text.isWordChar c = true) : isPlain c = true := by
  simp only [isPlain, List.contains_cons, List.contains_nil, Bool.not_or, Bool.and_eq_true, Bool.not_eq_true',
    beq_eq_false_iff_ne]
  refine ⟨?_, ?_, ?_, ?_, ?_, ?_, ?_, ?_, ?_, trivial⟩ <;> rintro rfl <;> exact absurd h (by decide)

theorem sealed_joinWith {sep : String} (hsep : Sealed sep) :
    ∀ {ss : List String}, (∀ s ∈ ss, Sealed s) → Sealed (Text.joinWith sep ss)
  | [], _ => sealed_empty
  | [s], h => h s List.mem_cons_self
  | s :: _ :: _, h =>
    ((h s List.mem_cons_self).append hsep).append
      (sealed_joinWith hsep fun x hx => h x (List.mem_cons_of_mem _ hx))

/-! ## Code put together from pieces -/

/-- The state behind a sealed piece, which must stand in code. -/
def State.past : State → State
  | .on .code owed => .on .code owed
  | _ => .broken

/-- Reading the text from one state, whatever is open further out, leads to the other, unless that
is broken. -/
structure Woven (σ : State) (s : String) (σ' : State) : Prop where
  broken : σ = .broken → σ' = .broken
  reads : σ' ≠ .broken → ∀ outer, strict (σ.within outer) s.toList = σ'.within outer

namespace Woven
variable {σ σ' σ'' : State} {s t : String}

/-- Fixed text. -/
theorem lit {σ : State} (cs : List Char) : Woven σ (String.ofList cs) (strict σ cs) where
  broken h := by rw [h, strict_broken]
  reads h outer := by rw [String.toList_ofList, strict_within outer h]

/-- A sealed piece. -/
theorem code {σ : State} (h : Sealed s) : Woven σ s σ.past where
  broken hb := by rw [hb]; rfl
  reads hne outer := by
    rcases σ with ⟨_ | _ | _ | _ | _, owed⟩ | _
    · exact h _
    all_goals exact absurd rfl hne

theorem append (hs : Woven σ s σ') (ht : Woven σ' t σ'') : Woven σ (s ++ t) σ'' where
  broken hb := ht.broken (hs.broken hb)
  reads hne outer := by
    have hmid : σ' ≠ .broken := fun hb => hne (ht.broken hb)
    rw [String.toList_append, strict_append, hs.reads hmid, ht.reads hne]

/-- Fixed text behind what is there. -/
theorem addLit (hs : Woven σ s σ') (cs : List Char) : Woven σ (s ++ String.ofList cs) (strict σ' cs) :=
  hs.append (lit cs)

/-- A sealed piece behind what is there. -/
theorem addCode (hs : Woven σ s σ') (ht : Sealed t) : Woven σ (s ++ t) σ'.past := hs.append (code ht)

/-- A line in front of others. -/
theorem line {u : String} {us : List String} (hs : Woven σ s σ')
    (ht : Woven (strict σ' ['\n']) (Text.joinWith "\n" (u :: us)) σ'') :
    Woven σ (Text.joinWith "\n" (s :: u :: us)) σ'' :=
  (hs.append (lit ['\n'])).append ht

/-- What the fixed text alone leads back to code is sealed. -/
theorem sealed (h : Woven (.on .code []) s σ) (hσ : σ = .on .code []) : Sealed s := by
  subst hσ
  rw [sealed_iff]
  exact h.reads (by simp) []

end Woven

theorem sealed_lit (cs : List Char) (h : strict (.on .code []) cs = .on .code []) :
    Sealed (String.ofList cs) := (Woven.lit cs).sealed h

theorem sealed_wrap {code : String} (h : Sealed code) (outer inner : Order) :
    Sealed (Order.wrap code outer inner) := by
  unfold Order.wrap
  refine sealed_ite ?_ h
  exact (Woven.lit _ |>.addCode h |>.addLit _).sealed (by decide)

end Blockwright.Scan
