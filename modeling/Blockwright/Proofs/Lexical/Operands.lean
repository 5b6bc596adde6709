import Mathlib.Tactic.SplitIfs
import Blockwright.Number.Text
import Blockwright.Precedence
import Blockwright.Proofs.Lexical.Tokens
import Blockwright.Proofs.Number.Numerals
import Blockwright.Proofs.Operators.Shifts
import Blockwright.Proofs.Text.Indentation
import Blockwright.Text.Quoted
/-!
# Operands

An operand may stand wherever the lexer waits for one, and leaves it directly behind an operand. Names,
numbers, strings and what is put together from operands and fixed text are operands, which `Woven` makes a
computation on the fixed text alone. The one thing that stops the lexer in an operand is a carriage return,
which no string may hold.
-/

namespace Blockwright.Lexical

open Text Operators

/-! ## Places for operands -/

namespace Mode

/-- Where the lexer stands behind code. -/
def run? (m : Mode) (cs : List Char) : Option Mode := cs.foldlM (fun m c => (m.next? c).map Move.mode) m

@[simp] theorem run?_nil (m : Mode) : m.run? [] = some m := rfl

theorem run?_cons (m : Mode) (c : Char) (cs : List Char) :
    m.run? (c :: cs) = (m.next? c).bind fun move => move.mode.run? cs := by
  rw [run?, List.foldlM_cons, Option.bind_eq_bind, Option.bind_map]
  rfl

theorem run?_append (m : Mode) (cs ds : List Char) : m.run? (cs ++ ds) = (m.run? cs).bind fun m' => m'.run? ds :=
  List.foldlM_append

/-- The symbols that an operand may stand directly behind. -/
def openers : List (List Char) := [['('], ['['], [','], ['!'], ['-'], ['-', '-']]

/-- An operand may stand here. -/
def opens : Mode → Bool
  | .blank _ => true
  | .symbol cs => openers.contains cs
  | _ => false

/-- An operand ends directly here. -/
def closes : Mode → Bool
  | .leaf phase => phase.mayEnd
  | .literal => true
  | .symbol cs => cs = [')'] || cs = [']']
  | _ => false

end Mode

/-- What is known of where a lexer stands. -/
inductive Spot where
  /-- An operand may stand here. -/
  | opening
  | at (mode : Mode)
  /-- An operand ends directly here. -/
  | behind
  /-- Behind a point that follows an operand; it may belong to a number. -/
  | point
  /-- Nothing is known. -/
  | lost
deriving DecidableEq, Repr

namespace Spot

/-- The lexer may stand there. -/
def Holds : Spot → Mode → Prop
  | .opening, m => m.opens = true
  | .at m', m => m = m'
  | .behind, m => m.closes = true
  | .point, m => m = .symbol ['.'] ∨ m = .leaf .fraction
  | .lost, _ => True

/-- The characters that may stand in front of an operand within another one. -/
def signs : List Char := ['-', '!', ' ']

/-- The characters that operands begin with, but for those. -/
def isFront (c : Char) : Bool := isWordChar c || c == '\'' || c == '(' || c == '['

/-- The characters that operands are followed by, but for the point. -/
def followers : List Char := [' ', ')', ']', ',', ';', '(', '[']

/-- The letters that a word behind a point begins with. Two others would go on with a number. -/
def isMember (c : Char) : Bool := isLetter c && c != 'e' && c != 'E'

/-- What is known behind one more character. -/
def next : Spot → Char → Spot
  | .opening, c =>
    if signs.contains c then .opening
    else if isFront c then ((Mode.start? false c).map .at).getD .lost
    else .lost
  | .at m, c => if c = '\r' then .lost else ((m.next? c).map fun move => .at move.mode).getD .lost
  | .behind, c =>
    if c = '.' then .point
    else if followers.contains c then ((Mode.start? true c).map .at).getD .lost
    else .lost
  | .point, c => if isMember c then .at (.leaf .word) else .lost
  | .lost, _ => .lost

/-- What is known behind fixed text. -/
def read (σ : Spot) (cs : List Char) : Spot := cs.foldl next σ

@[simp] theorem read_lost (cs : List Char) : lost.read cs = lost := by
  induction cs with
  | nil => rfl
  | cons c cs ih => exact ih

/-- What is known behind an operand. -/
def past : Spot → Spot
  | .opening => .behind
  | .at m => if m.opens then .behind else .lost
  | _ => .lost

/-- An operand ends directly there. -/
def isBehind : Spot → Bool
  | .at m => m.closes
  | .behind => true
  | _ => false

end Spot

/-! ## Single characters -/

/-- The characters that symbols go on with. -/
def continuations : List Char := ['.', '=', '>', '+', '-', '*', '<', '&', '|', '?']

theorem mem_continuations {cs : List Char} (hcs : cs ≠ []) {c : Char} (h : startsSymbol (cs ++ [c]) = true) :
    c ∈ continuations := by
  obtain ⟨s, hs, hprefix⟩ := List.any_eq_true.1 h
  obtain ⟨more, rfl⟩ := List.isPrefixOf_iff_prefix.1 hprefix
  have hall : ∀ s ∈ symbols, ∀ c ∈ s.tail, c ∈ continuations := by
    have hcheck : symbols.all (fun s => s.tail.all fun c => continuations.contains c) = true := by decide
    intro s hs c hc
    simpa using List.all_eq_true.1 (List.all_eq_true.1 hcheck s hs) c hc
  obtain ⟨d, ds, rfl⟩ := List.exists_cons_of_ne_nil hcs
  exact hall _ hs c (by simp)

theorem isFront_of_mem_continuations {c : Char} (h : c ∈ continuations) : Spot.isFront c = false := by
  have hcheck : continuations.all (fun c => !Spot.isFront c) = true := by decide
  simpa using List.all_eq_true.1 hcheck c h

theorem start?_of_isFront {c : Char} (h : Spot.isFront c = true) (operand : Bool) :
    Mode.start? operand c = Mode.start? false c := by
  have hne : ∀ d, Spot.isFront d = false → c ≠ d := by
    rintro d hd rfl
    rw [h] at hd
    cases hd
  have hblank : ¬(c = ' ' || c = '\t' || endsLine c) = true := by
    simp [endsLine, hne ' ' (by decide), hne '\t' (by decide), hne '\n' (by decide), hne '\r' (by decide)]
  simp only [Mode.start?, if_neg hblank, if_neg (hne '/' (by decide))]

namespace Mode

variable {m : Mode} {c : Char}

/-- Where an operand may stand, its first character begins a token. -/
theorem next?_of_opens (h : m.opens = true) (hc : Spot.isFront c = true) : m.next? c = (start? false c).map .anew := by
  cases m with
  | blank operand => exact congrArg (Option.map Move.anew) (start?_of_isFront hc operand)
  | symbol cs =>
    have hmem : cs ∈ openers := List.contains_iff_mem.1 h
    have hopeners : ∀ cs ∈ openers, cs ≠ [] ∧ cs ≠ ['.'] ∧ cs ≠ ['?', '.'] ∧ cs ∈ symbols := by
      simp only [openers, List.forall_mem_cons]
      decide
    obtain ⟨hne, hpoint, hchoice, hcomplete⟩ := hopeners cs hmem
    have hstart : startsSymbol (cs ++ [c]) = false := Bool.eq_false_iff.2 fun hstart => by
      rw [isFront_of_mem_continuations (mem_continuations hne hstart)] at hc
      cases hc
    rw [next?]
    rw [hstart, if_neg Bool.false_ne_true, if_neg (by simp [hpoint]), if_pos (by simp [hcomplete, hchoice]),
      start?_of_isFront hc]
  | _ => cases h

/-- Behind a sign or a space an operand may stand wherever it may stand in front. -/
theorem next?_sign (h : m.opens = true) (hc : c ∈ Spot.signs) :
    ∃ move, m.next? c = some move ∧ move.mode.opens = true := by
  simp only [Spot.signs, List.mem_cons, List.not_mem_nil, or_false] at hc
  cases m with
  | blank operand => cases operand <;> rcases hc with rfl | rfl | rfl <;> exact ⟨_, rfl, by decide⟩
  | symbol cs =>
    have hmem : cs ∈ openers := List.contains_iff_mem.1 h
    simp only [openers, List.mem_cons, List.not_mem_nil, or_false] at hmem
    rcases hc with rfl | rfl | rfl <;> rcases hmem with rfl | rfl | rfl | rfl | rfl | rfl <;> exact ⟨_, rfl, by decide⟩
  | _ => cases h

/-- The places directly behind an operand. -/
def closers : List Mode := [
  .leaf .word, .leaf .whole, .leaf .fraction, .leaf .exponent, .literal, .symbol [')'], .symbol [']']]

theorem mem_closers (h : m.closes = true) : m ∈ closers := by
  cases m with
  | leaf phase => cases phase <;> first | decide | cases h
  | literal => decide
  | symbol cs =>
    simp only [closes, Bool.or_eq_true, decide_eq_true_eq] at h
    rcases h with rfl | rfl <;> decide
  | _ => cases h

theorem next?_of_closes (h : m.closes = true) (hc : c ∈ Spot.followers) : m.next? c = (start? true c).map .anew := by
  have hcheck : closers.all (fun m => Spot.followers.all fun c => m.next? c = (start? true c).map .anew) = true := by
    decide
  simpa using List.all_eq_true.1 (List.all_eq_true.1 hcheck m (mem_closers h)) c hc

/-- What stands behind a point that follows an operand: the point is a symbol, unless it belongs to a whole number. -/
theorem next?_point (h : m.closes = true) : ∃ move, m.next? '.' = some move ∧
    (m = .leaf .whole ∧ move = .on (.leaf .fraction) ∨ m ≠ .leaf .whole ∧ move = .anew (.symbol ['.'])) := by
  have hmem := mem_closers h
  simp only [closers, List.mem_cons, List.not_mem_nil, or_false] at hmem
  rcases hmem with rfl | rfl | rfl | rfl | rfl | rfl | rfl
  all_goals exact ⟨_, rfl, by decide⟩

theorem next?_member (hm : m = .symbol ['.'] ∨ m = .leaf .fraction) (hc : Spot.isMember c = true) :
    m.next? c = some (.anew (.leaf .word)) := by
  simp only [Spot.isMember, Bool.and_eq_true, bne_iff_ne] at hc
  obtain ⟨⟨hletter, he⟩, hE⟩ := hc
  have hword : isWordChar c = true := by simp [isWordChar, hletter]
  have hdigit : isDigit c = false := isDigit_of_isLetter hletter
  have hfront : Spot.isFront c = true := by simp [Spot.isFront, hword]
  have hstart : ∀ operand, start? operand c = some (.leaf .word) := by
    intro operand
    have hne : ∀ d, isWordChar d = false → c ≠ d := by
      rintro d hd rfl
      rw [hword] at hd
      cases hd
    simp [start?, endsLine, Phase.start?, hword, hdigit, hne ' ' (by decide), hne '\t' (by decide), hne '\n' (by decide),
      hne '\r' (by decide), hne '\'' (by decide), hne '"' (by decide), hne '/' (by decide)]
  rcases hm with rfl | rfl
  · have hlonger : startsSymbol (['.'] ++ [c]) = false := Bool.eq_false_iff.2 fun hlonger => by
      rw [isFront_of_mem_continuations (mem_continuations (by simp) hlonger)] at hfront
      cases hfront
    have hcomplete : ['.'] ∈ symbols := by decide
    rw [next?]
    rw [hlonger, hdigit, if_neg Bool.false_ne_true, if_neg (by simp), if_pos (by simp [hcomplete]), hstart]
    rfl
  · have hends : Phase.next? .fraction c = none := by simp [Phase.next?, hdigit, he, hE]
    rw [next?]
    rw [hends]
    dsimp only
    rw [if_pos (by simp [Phase.mayEnd]), hstart]
    rfl

end Mode

/-- What is known is right of one more character. -/
theorem Spot.exists_move {σ : Spot} {m : Mode} {c : Char} (hσ : σ.Holds m) (hne : σ.next c ≠ .lost) :
    ∃ move, m.next? c = some move ∧ c ≠ '\r' ∧ (σ.next c).Holds move.mode := by
  cases σ with
  | opening =>
    simp only [Spot.next] at hne ⊢
    split_ifs at hne ⊢ with hsign hfront
    · obtain ⟨move, hmove, hopens⟩ := Mode.next?_sign hσ (List.contains_iff_mem.1 hsign)
      refine ⟨move, hmove, ?_, hopens⟩
      rintro rfl
      exact absurd hsign (by decide)
    · have hnext := Mode.next?_of_opens hσ hfront
      cases hstart : Mode.start? false c with
      | none => exact absurd (by rw [hstart]; rfl) hne
      | some m' =>
        rw [hstart] at hnext
        refine ⟨_, hnext, ?_, rfl⟩
        rintro rfl
        exact absurd hfront (by decide)
    · exact absurd rfl hne
  | «at» m' =>
    obtain rfl : m = m' := hσ
    simp only [Spot.next] at hne ⊢
    split_ifs at hne ⊢ with hfeed
    · exact absurd rfl hne
    · cases hmove : m.next? c with
      | none => exact absurd (by rw [hmove]; rfl) hne
      | some move => exact ⟨move, rfl, hfeed, rfl⟩
  | behind =>
    simp only [Spot.next] at hne ⊢
    -- a point behind an operand may still belong to its number; anything else ends the operand
    split_ifs at hne ⊢ with hpoint hfollower
    · subst hpoint
      obtain ⟨move, hmove, hcases⟩ := Mode.next?_point hσ
      refine ⟨move, hmove, by decide, ?_⟩
      rcases hcases with ⟨-, rfl⟩ | ⟨-, rfl⟩
      · exact .inr rfl
      · exact .inl rfl
    · have hnext := Mode.next?_of_closes hσ (List.contains_iff_mem.1 hfollower)
      cases hstart : Mode.start? true c with
      | none => exact absurd (by rw [hstart]; rfl) hne
      | some m' =>
        rw [hstart] at hnext
        refine ⟨_, hnext, ?_, rfl⟩
        rintro rfl
        exact absurd hfollower (by decide)
    · exact absurd rfl hne
  | point =>
    simp only [Spot.next] at hne ⊢
    split_ifs at hne ⊢ with hmember
    · refine ⟨_, Mode.next?_member hσ hmember, ?_, rfl⟩
      rintro rfl
      exact absurd hmember (by decide)
    · exact absurd rfl hne
  | lost => exact absurd rfl hne

/-! ## Texts -/

/-- Through characters the lexer gets to where is known, unless a carriage return stops it. -/
structure Leads (m : Mode) (cs : List Char) (σ : Spot) : Prop where
  broken : '\r' ∈ cs → m.run? cs = none
  reaches : '\r' ∉ cs → ∃ m', m.run? cs = some m' ∧ σ.Holds m'

namespace Leads

variable {m : Mode} {cs ds : List Char} {σ σ' : Spot}

theorem nil (h : σ.Holds m) : Leads m [] σ := ⟨by simp, fun _ => ⟨m, rfl, h⟩⟩

theorem cons {c : Char} (move : Move) (hc : m.next? c = some move) (hne : c ≠ '\r') (h : Leads move.mode cs σ) :
    Leads m (c :: cs) σ where
  broken hmem := by
    rw [Mode.run?_cons, hc, Option.bind_some, h.broken ((List.mem_cons.1 hmem).resolve_left hne.symm)]
  reaches hno := by
    rw [Mode.run?_cons, hc, Option.bind_some]
    exact h.reaches fun hmem => hno (List.mem_cons_of_mem _ hmem)

theorem append (hcs : Leads m cs σ) (hds : ∀ m', σ.Holds m' → Leads m' ds σ') : Leads m (cs ++ ds) σ' where
  broken hmem := by
    rw [Mode.run?_append]
    by_cases hleft : '\r' ∈ cs
    · rw [hcs.broken hleft]
      rfl
    · obtain ⟨m', hrun, hm'⟩ := hcs.reaches hleft
      rw [hrun, Option.bind_some]
      exact (hds m' hm').broken ((List.mem_append.1 hmem).resolve_left hleft)
  reaches hno := by
    rw [List.mem_append, not_or] at hno
    obtain ⟨m', hrun, hm'⟩ := hcs.reaches hno.1
    rw [Mode.run?_append, hrun, Option.bind_some]
    exact (hds m' hm').reaches hno.2

theorem mono (h : Leads m cs σ) (hσ : ∀ m', σ.Holds m' → σ'.Holds m') : Leads m cs σ' where
  broken := h.broken
  reaches hno := by
    obtain ⟨m', hrun, hm'⟩ := h.reaches hno
    exact ⟨m', hrun, hσ m' hm'⟩

/-- Fixed text leads where it is computed to lead. -/
theorem lit (cs : List Char) (hσ : σ.Holds m) (hne : σ.read cs ≠ .lost) : Leads m cs (σ.read cs) := by
  induction cs generalizing σ m with
  | nil => exact nil hσ
  | cons c cs ih =>
    have hnext : σ.next c ≠ .lost := fun hlost => hne (by rw [Spot.read, List.foldl_cons, hlost]; exact Spot.read_lost cs)
    obtain ⟨move, hmove, hfeed, hholds⟩ := Spot.exists_move hσ hnext
    exact cons _ hmove hfeed (ih hholds hne)

end Leads

/-! ## Operands -/

/-- The code may stand wherever an operand may, and leads directly behind one. It does not begin in a way that an
exclamation mark in front would go on with. -/
structure IsOperand (code : String) : Prop where
  front : ∃ c cs, code.toList = c :: cs ∧ c ≠ '='
  leads : ∀ m : Mode, m.opens = true → Leads m code.toList .behind

/-- The code may stand wherever an operand may, and leads where is known, unless that is lost. -/
structure Woven (s : String) (σ : Spot) : Prop where
  front : σ ≠ .lost → ∃ c cs, s.toList = c :: cs ∧ c ≠ '='
  leads : σ ≠ .lost → ∀ m : Mode, m.opens = true → Leads m s.toList σ

namespace Woven

variable {s t : String} {σ : Spot}

/-- Fixed text. -/
theorem lit (c : Char) (cs : List Char) : Woven (String.ofList (c :: cs)) (Spot.opening.read (c :: cs)) where
  front hne := by
    refine ⟨c, cs, String.toList_ofList, ?_⟩
    rintro rfl
    exact hne (Spot.read_lost cs)
  leads hne m hm := by
    rw [String.toList_ofList]
    exact Leads.lit _ hm hne

/-- An operand. -/
theorem code (h : IsOperand s) : Woven s .behind := ⟨fun _ => h.front, fun _ => h.leads⟩

theorem append {σ' : Spot} (hs : Woven s σ) (hne : σ' ≠ .lost → σ ≠ .lost)
    (ht : σ' ≠ .lost → ∀ m, σ.Holds m → Leads m t.toList σ') : Woven (s ++ t) σ' where
  front hσ := by
    obtain ⟨c, cs, hcs, hc⟩ := hs.front (hne hσ)
    exact ⟨c, cs ++ t.toList, by rw [String.toList_append, hcs, List.cons_append], hc⟩
  leads hσ m hm := by
    rw [String.toList_append]
    exact (hs.leads (hne hσ) m hm).append (ht hσ)

/-- Fixed text behind what is there. -/
theorem addLit (hs : Woven s σ) (cs : List Char) : Woven (s ++ String.ofList cs) (σ.read cs) := by
  refine hs.append (fun hne hlost => hne (by rw [hlost, Spot.read_lost])) fun hne m hm => ?_
  rw [String.toList_ofList]
  exact Leads.lit cs hm hne

/-- An operand behind what is there. -/
theorem addCode (hs : Woven s σ) (ht : IsOperand t) : Woven (s ++ t) σ.past := by
  refine hs.append (fun hne hlost => hne (by rw [hlost]; rfl)) fun hne m hm => ?_
  cases σ with
  | opening => exact ht.leads m hm
  | «at» m' =>
    obtain rfl : m = m' := hm
    simp only [Spot.past] at hne ⊢
    split_ifs at hne ⊢ with hopens
    · exact ht.leads m hopens
    · exact absurd rfl hne
  | _ => exact absurd rfl hne

/-- What leads behind an operand is one. -/
theorem isOperand (h : Woven s σ) (hσ : σ.isBehind = true) : IsOperand s := by
  have hne : σ ≠ .lost := by
    rintro rfl
    cases hσ
  refine ⟨h.front hne, fun m hm => (h.leads hne m hm).mono fun m' hm' => ?_⟩
  cases σ with
  | «at» m'' =>
    obtain rfl : m' = m'' := hm'
    exact hσ
  | behind => exact hm'
  | _ => cases hσ

end Woven

theorem isOperand_lit (c : Char) (cs : List Char) (h : (Spot.opening.read (c :: cs)).isBehind = true) :
    IsOperand (String.ofList (c :: cs)) := (Woven.lit c cs).isOperand h

theorem isOperand_ite {c : Prop} [Decidable c] {s t : String} (hs : IsOperand s) (ht : IsOperand t) :
    IsOperand (if c then s else t) := by
  split
  · exact hs
  · exact ht

theorem IsOperand.ne_empty {code : String} (h : IsOperand code) : code ≠ "" := by
  rintro rfl
  obtain ⟨c, cs, hcs, -⟩ := h.front
  cases hcs

theorem isOperand_wrap {code : String} (h : IsOperand code) (outer inner : Order) :
    IsOperand (Order.wrap code outer inner) :=
  isOperand_ite ((Woven.lit _ _ |>.addCode h |>.addLit _).isOperand (by decide)) h

theorem isOperand_minus {code : String} (h : IsOperand code) : IsOperand ("-" ++ code) :=
  (Woven.lit _ _ |>.addCode h).isOperand (by decide)

/-- Operands with something between them that an operand may follow. -/
theorem isOperand_joinWith {sep : List Char} (hsep : (Spot.behind.read sep).past = .behind) :
    ∀ {ss : List String}, ss ≠ [] → (∀ s ∈ ss, IsOperand s) → IsOperand (joinWith (String.ofList sep) ss)
  | [], hne, _ => absurd rfl hne
  | [s], _, h => h s List.mem_cons_self
  | s :: t :: rest, _, h => by
    have hrest := isOperand_joinWith hsep (List.cons_ne_nil t rest) fun u hu => h u (List.mem_cons_of_mem _ hu)
    refine (Woven.code (h s List.mem_cons_self) |>.addLit sep |>.addCode hrest).isOperand ?_
    rw [hsep]
    rfl

/-! ## Words and numbers -/

theorem next?_leaf {phase phase' : Phase} {c : Char} (h : phase.next? c = some phase') :
    (Mode.leaf phase).next? c = some (.on (.leaf phase')) := by
  simp [Mode.next?, h]

theorem leads_of_scan {phase : Phase} {cs body : List Char} (h : scan phase cs = some (body, [])) :
    Leads (.leaf phase) cs .behind := by
  induction cs generalizing phase body with
  | nil =>
    refine Leads.nil ?_
    by_contra hend
    simp [scan, show phase.mayEnd = false from Bool.eq_false_iff.2 hend] at h
  | cons c cs ih =>
    rw [scan] at h
    cases hnext : phase.next? c with
    | none =>
      rw [hnext] at h
      dsimp only at h
      split at h <;> cases h
    | some phase' =>
      rw [hnext] at h
      obtain ⟨⟨body', after⟩, hrest, he⟩ := Option.map_eq_some_iff.1 h
      cases he
      refine Leads.cons _ (next?_leaf hnext) ?_ (ih hrest)
      rintro rfl
      cases phase <;> cases hnext

theorem isOperand_of_scan {c : Char} {cs body : List Char} {phase : Phase} (hstart : Phase.start? c = some phase)
    (h : scan phase cs = some (body, [])) : IsOperand (String.ofList (c :: cs)) := by
  have hword : isWordChar c = true := by
    by_contra hword
    have hdigit : isDigit c = false := Bool.eq_false_iff.2 fun hd => hword (Identifier.isWordChar_of_isDigit hd)
    simp [Phase.start?, hword, hdigit] at hstart
  have hne : ∀ d, isWordChar d = false → c ≠ d := by
    rintro d hd rfl
    rw [hword] at hd
    cases hd
  have hbegins : Mode.start? false c = some (.leaf phase) := by
    simp [Mode.start?, endsLine, hstart, hne ' ' (by decide), hne '\t' (by decide), hne '\n' (by decide),
      hne '\r' (by decide), hne '\'' (by decide), hne '"' (by decide), hne '/' (by decide)]
  refine ⟨⟨c, cs, String.toList_ofList, hne '=' (by decide)⟩, fun m hm => ?_⟩
  have hnext := Mode.next?_of_opens hm (c := c) (by simp [Spot.isFront, hword])
  rw [hbegins] at hnext
  rw [String.toList_ofList]
  exact Leads.cons _ hnext (hne '\r' (by decide)) (leads_of_scan h)

/-- Names and decimals. -/
theorem isOperand_of_isLeaf {s : String} (h : isLeaf s = true) : IsOperand s := by
  unfold isLeaf at h
  split at h
  · cases h
  · next c cs hs =>
    split at h
    · next phase hstart =>
      rw [← String.ofList_toList (s := s), hs]
      exact isOperand_of_scan hstart (beq_iff_eq.1 h)
    · cases h

theorem isOperand_of_isLegal {name : String} (h : Identifier.isLegal name = true) : IsOperand name :=
  isOperand_of_isLeaf (isLeaf_of_isLegal h)

theorem isOperand_ofInt (d : Int) : IsOperand (Text.ofInt d) :=
  isOperand_ite (isOperand_minus (isOperand_of_isLeaf (isLeaf_ofNat _))) (isOperand_of_isLeaf (isLeaf_ofNat _))

theorem isOperand_ofBool (b : Bool) : IsOperand (Text.ofBool b) :=
  isOperand_ite (isOperand_lit _ _ (by decide)) (isOperand_lit _ _ (by decide))

/-- The exponent of a number is read to its end. -/
theorem scan_exponent (width : Nat) (exponent : Int) (phase : Phase) (hphase : phase.next? 'e' = some .mark) :
    ∃ cs, 'e' :: (if exponent < 0 then '-' else '+') :: (Decimal.padded width exponent.natAbs).toList = cs ∧
      scan phase cs = some (cs, []) := by
  have hsign : Phase.next? .mark (if exponent < 0 then '-' else '+') = some .sign := by split <;> decide
  have hne : (Decimal.padded width exponent.natAbs).toList ≠ [] := by
    simp [Decimal.padded, Nat.toDigits_ne_nil]
  obtain ⟨d, ds, hdigits⟩ := List.exists_cons_of_ne_nil hne
  have hds : ∀ c ∈ d :: ds, isDigit c = true := by
    rw [← hdigits, Decimal.padded, String.toList_ofList]
    exact List.forall_mem_append.2 ⟨Double.isDigit_of_mem_zeros, Double.isDigit_of_mem_toDigits⟩
  have hfirst : Phase.next? .sign d = some .exponent := by simp [Phase.next?, hds d List.mem_cons_self]
  have hrest : scan .exponent (ds ++ []) = some (ds ++ [], []) := by
    rw [Double.scan_run (fun c hc => by simp [Phase.next?, hc]) fun c hc => hds c (List.mem_cons_of_mem _ hc)]
    rfl
  rw [List.append_nil] at hrest
  refine ⟨_, rfl, ?_⟩
  rw [hdigits]
  simp only [scan, hphase, hsign, hfirst, hrest, Option.map_some]

theorem isOperand_scientific (width value : Nat) (exponent : Int) :
    IsOperand (String.ofList (Double.scientific width (Nat.toDigits 10 value) exponent)) := by
  obtain ⟨d, ds, hdigits⟩ := List.exists_cons_of_ne_nil (Nat.toDigits_ne_nil (b := 10) (n := value))
  have hds : ∀ c ∈ d :: ds, isDigit c = true := hdigits ▸ Double.isDigit_of_mem_toDigits
  have hstart : Phase.start? d = some .whole := by simp [Phase.start?, hds d List.mem_cons_self]
  have hdigit : ∀ c, isDigit c = true → Phase.next? .fraction c = some .fraction := fun c hc => by simp [Phase.next?, hc]
  rw [hdigits]
  cases ds with
  | nil =>
    obtain ⟨cs, hcs, hscan⟩ := scan_exponent width exponent .whole rfl
    rw [Double.scientific, hcs]
    exact isOperand_of_scan hstart hscan
  | cons d' ds =>
    obtain ⟨cs, hcs, hscan⟩ := scan_exponent width exponent .fraction rfl
    have hfraction := Double.scan_run hdigit (fun c hc => hds c (List.mem_cons_of_mem _ hc)) cs
    rw [hscan] at hfraction
    have hpoint : scan .whole ('.' :: (d' :: ds ++ cs)) = some ('.' :: (d' :: ds ++ cs), []) := by
      rw [scan, show Phase.next? .whole '.' = some .fraction from rfl]
      dsimp only
      rw [hfraction]
      rfl
    rw [Double.scientific, hcs]
    · exact isOperand_of_scan hstart hpoint
    · exact List.cons_ne_nil d' ds

theorem isOperand_format (x : Double) : IsOperand x.format := by
  rw [Double.format]
  rcases x with _ | negative | ⟨negative, m, e⟩
  · exact isOperand_lit _ _ (by decide)
  · cases negative <;> exact isOperand_lit _ _ (by decide)
  · rw [Double.toText]
    refine isOperand_ite (isOperand_lit _ _ (by decide)) ?_
    extract_lets shortest digits exponent body
    have hbody : IsOperand (String.ofList body) := by
      unfold body
      split_ifs
      · exact isOperand_scientific _ _ _
      · obtain ⟨n, hn, hspells⟩ := Double.exists_positional shortest.value shortest.point
        rw [hn]
        exact isOperand_of_isLeaf (isLeaf_of_isDecimal (Double.isDecimal_chars hspells.proper))
    cases negative
    · simpa using hbody
    · exact isOperand_minus hbody

/-! ## Strings -/

theorem Leads.stop {m : Mode} (h : m.next? '\r' = none) (cs : List Char) (σ : Spot) : Leads m ('\r' :: cs) σ where
  broken _ := by rw [Mode.run?_cons, h, Option.bind_none]
  reaches hno := absurd List.mem_cons_self hno

theorem leads_quoted (cs : List Char) : Leads (.string '\'') (cs.flatMap quoteChar ++ ['\'']) .behind := by
  induction cs with
  | nil => exact Leads.cons (.on .literal) rfl (by decide) (.nil rfl)
  | cons c cs ih =>
    rw [List.flatMap_cons, List.append_assoc]
    have hescaped : ∀ d, d ≠ '\r' → Leads (.string '\'') ('\\' :: d :: (cs.flatMap quoteChar ++ ['\''])) .behind :=
      fun d hd => Leads.cons (.on (.escape '\'')) rfl (by decide) (Leads.cons (.on (.string '\'')) rfl hd ih)
    unfold quoteChar
    split_ifs with hslash hfeed hquote
    · exact hescaped _ (by decide)
    · exact hescaped _ (by decide)
    · exact hescaped _ (by decide)
    · by_cases hreturn : c = '\r'
      · subst hreturn
        exact Leads.stop rfl _ _
      · have hnext : (Mode.string '\'').next? c = some (.on (.string '\'')) := by
          simp [Mode.next?, endsLine, hslash, hfeed, hquote, hreturn]
        exact Leads.cons _ hnext hreturn ih

theorem isOperand_quote (text : String) : IsOperand (quote text) := by
  refine ⟨⟨'\'', _, String.toList_ofList, by decide⟩, fun m hm => ?_⟩
  rw [quote, String.toList_ofList]
  exact Leads.cons _ (Mode.next?_of_opens hm (by decide)) (by decide) (leads_quoted text.toList)

theorem isOperand_quoteLines (text : String) : IsOperand (quoteLines text) := by
  refine isOperand_joinWith (by decide) ?_ ?_
  · simp [splitOn, splitChars_ne_nil]
  · intro s hs
    obtain ⟨line, -, rfl⟩ := List.mem_map.1 hs
    exact isOperand_quote line

end Blockwright.Lexical
