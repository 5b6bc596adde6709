import Blockwright.Proofs.Operators.Printing
/-!
# The tokens of written expressions

Code is cut into the tokens it was written with, so that parsing the code of a tree gives the
tree back, its chains grouped to the left.
-/

namespace Blockwright.Operators

open Text

/-! ## Leaves -/

/-- Whether a text is one word or one number. -/
def isLeaf (s : String) : Bool :=
  match s.toList with
  | [] => false
  | c :: cs =>
    match Phase.start? c with
    | some phase => scan phase cs == some (cs, [])
    | none => false

/-- Whether a text is a decimal without a sign. -/
def isDecimal (s : String) : Bool :=
  match s.toList with
  | [] => false
  | c :: cs => isDigit c && scan .whole cs == some (cs, [])

theorem isLeaf_of_isDecimal {s : String} (h : isDecimal s = true) : isLeaf s = true := by
  unfold isDecimal at h
  unfold isLeaf
  cases hs : s.toList with
  | nil => rw [hs] at h; exact h
  | cons c cs =>
    rw [hs] at h
    simp only [Bool.and_eq_true] at h
    simp only [Phase.start?, h.1, if_true]
    exact h.2

theorem scan_word {cs : List Char} (h : cs.all isWordChar = true) : scan .word cs = some (cs, []) := by
  induction cs with
  | nil => rfl
  | cons c cs ih =>
    simp only [List.all_cons, Bool.and_eq_true] at h
    have hnext : Phase.next? .word c = some .word := by simp [Phase.next?, h.1]
    simp [scan, hnext, ih h.2]

theorem isDigit_of_isLetter {c : Char} (h : isLetter c = true) : isDigit c = false := by
  simp only [isLetter, isDigit, Bool.or_eq_true, Bool.and_eq_true, decide_eq_true_eq, Bool.and_eq_false_iff,
    decide_eq_false_iff_not, Char.le_def, UInt32.le_iff_toNat_le] at h ⊢
  have h9 : '9'.val.toNat = 57 := rfl
  have hA : 'A'.val.toNat = 65 := rfl
  have ha : 'a'.val.toNat = 97 := rfl
  omega

theorem isLeaf_of_isLegal {s : String} (h : Identifier.isLegal s = true) : isLeaf s = true := by
  unfold isLeaf
  unfold Identifier.isLegal at h
  cases hs : s.toList with
  | nil => rw [hs] at h; exact h
  | cons c cs =>
    rw [hs] at h
    simp only [Bool.and_eq_true] at h
    have hword : isWordChar c = true := by
      rcases Bool.or_eq_true _ _ |>.mp h.1 with hl | hu
      · simp [isWordChar, hl]
      · simp [isWordChar, hu]
    have hdigit : isDigit c = false := by
      rcases Bool.or_eq_true _ _ |>.mp h.1 with hl | hu
      · exact isDigit_of_isLetter hl
      · rw [beq_iff_eq.1 hu]; decide
    have hstart : Phase.start? c = some .word := by simp [Phase.start?, hword, hdigit]
    simp [hstart, scan_word h.2]

/-! ## Where a leaf ends -/

/-- What may follow code: a blank, a closing parenthesis or nothing. -/
def Ended (rest : List Char) : Prop := ∀ c ∈ rest.head?, c = ' ' ∨ c = ')'

theorem ended_nil : Ended [] := by simp [Ended]

theorem ended_blank (rest : List Char) : Ended (' ' :: rest) := by simp [Ended]

theorem ended_closing (rest : List Char) : Ended (')' :: rest) := by simp [Ended]

theorem scan_ended {phase : Phase} {rest : List Char} (hend : phase.mayEnd = true) (hrest : Ended rest) :
    scan phase rest = some ([], rest) := by
  cases rest with
  | nil => simp [scan, hend]
  | cons c rest =>
    -- neither a blank nor a parenthesis goes on with a word or a number
    have hnext : phase.next? c = none ∧ isWordChar c = false := by
      rcases hrest c rfl with rfl | rfl <;> cases phase <;> decide
    simp [scan, hnext.1, hnext.2, hend]

theorem scan_append {phase : Phase} {cs rest : List Char} (h : scan phase cs = some (cs, [])) (hrest : Ended rest) :
    scan phase (cs ++ rest) = some (cs, rest) := by
  induction cs generalizing phase with
  | nil =>
    unfold scan at h
    split at h
    · rename_i hend
      exact scan_ended hend hrest
    · cases h
  | cons c cs ih =>
    rw [List.cons_append]
    unfold scan at h ⊢
    split at h
    · obtain ⟨⟨body, after⟩, hr, he⟩ := Option.map_eq_some_iff.1 h
      cases he
      simp [ih hr]
    · split at h <;> cases h

/-! ## Steps of the lexer -/

theorem lex_blank (cs : List Char) : lex (' ' :: cs) = lex cs := by
  have hstart : Phase.start? ' ' = none := by decide
  rw [lex, hstart]
  rfl

theorem lex_symbol {c : Char} {rest after : List Char} {token : Token} (hstart : Phase.start? c = none)
    (hblank : c ≠ ' ') (h : symbol? (c :: rest) = some (token, after)) :
    lex (c :: rest) = (lex after).map (token :: ·) := by
  rw [lex, hstart]
  dsimp only
  rw [if_neg hblank]
  split
  · rename_i token' after' heq
    rw [h] at heq
    cases heq
    rfl
  · rename_i heq
    rw [h] at heq
    cases heq

theorem lex_leaf {s : String} (hs : isLeaf s = true) {rest : List Char} (hrest : Ended rest) :
    lex (s.toList ++ rest) = (lex rest).map (.leaf s :: ·) := by
  unfold isLeaf at hs
  split at hs
  · cases hs
  · rename_i c cs hcs
    split at hs
    · rename_i phase hstart
      have hscan := scan_append (beq_iff_eq.1 hs) hrest
      have htext : String.ofList (c :: cs) = s := by rw [← hcs, String.ofList_toList]
      rw [hcs, List.cons_append, lex, hstart]
      dsimp only
      split
      · rename_i body after heq
        rw [hscan] at heq
        cases heq
        rw [htext]
      · rename_i heq
        rw [hscan] at heq
        cases heq
    · cases hs

/-! ## Written code -/

/-- In front of what may follow it, code is cut into `ts`. -/
def Lexes (code : String) (ts : List Token) : Prop :=
  ∀ rest, Ended rest → lex (code.toList ++ rest) = (lex rest).map (ts ++ ·)

theorem lexes_leaf {s : String} (h : isLeaf s = true) : Lexes s [.leaf s] := fun _ hrest => lex_leaf h hrest

theorem Lexes.wrap {code : String} {ts : List Token} (h : Lexes code ts) (outer inner : Order) :
    Lexes (Order.wrap code outer inner) (wrapTokens ts outer inner) := by
  unfold Order.wrap wrapTokens
  split
  · intro rest _
    have hopening : lex ('(' :: (code.toList ++ ')' :: rest)) = _ := lex_symbol (by decide) (by decide) rfl
    have hclosing : lex (')' :: rest) = _ := lex_symbol (by decide) (by decide) rfl
    have hcode : ("(" ++ code ++ ")").toList ++ rest = '(' :: (code.toList ++ ')' :: rest) := by
      simp [String.toList_append]
    rw [hcode, hopening, h _ (ended_closing rest), hclosing]
    simp [Function.comp_def]
  · exact h

theorem lex_operator (op : Binary) (cs : List Char) :
    lex (op.symbol.toList ++ ' ' :: cs) = (lex cs).map (.binary op :: ·) := by
  rw [← lex_blank cs]
  cases op <;> exact lex_symbol (by decide) (by decide) rfl

theorem Lexes.binary {a b : String} {ts us : List Token} (ha : Lexes a ts) (hb : Lexes b us) (op : Binary) :
    Lexes (a ++ " " ++ op.symbol ++ " " ++ b) (ts ++ .binary op :: us) := by
  intro rest hrest
  have hcode : (a ++ " " ++ op.symbol ++ " " ++ b).toList ++ rest
      = a.toList ++ ' ' :: (op.symbol.toList ++ ' ' :: (b.toList ++ rest)) := by
    simp [String.toList_append]
  rw [hcode, ha _ (ended_blank _), lex_blank, lex_operator, hb rest hrest]
  simp [Function.comp_def]

theorem Lexes.choice {c y n : String} {cs ys ns : List Token} (hc : Lexes c cs) (hy : Lexes y ys) (hn : Lexes n ns) :
    Lexes (c ++ " ? " ++ y ++ " : " ++ n) (cs ++ .question :: (ys ++ .colon :: ns)) := by
  intro rest hrest
  have hcode : (c ++ " ? " ++ y ++ " : " ++ n).toList ++ rest
      = c.toList ++ ' ' :: '?' :: ' ' :: (y.toList ++ ' ' :: ':' :: ' ' :: (n.toList ++ rest)) := by
    simp [String.toList_append]
  have hquestion : ∀ more, lex ('?' :: more) = _ := fun more => lex_symbol (by decide) (by decide) rfl
  have hcolon : ∀ more, lex (':' :: more) = _ := fun more => lex_symbol (by decide) (by decide) rfl
  rw [hcode, hc _ (ended_blank _), lex_blank, hquestion, lex_blank]
  rw [hy _ (ended_blank _), lex_blank, hcolon, lex_blank, hn rest hrest]
  simp [Function.comp_def]

/-- A minus sign in front of code that starts with none. -/
theorem Lexes.minus {a : String} {ts : List Token} (h : Lexes a ts) {c : Char} {cs : List Char}
    (ha : a.toList = c :: cs) (hc : c ≠ '-') : Lexes ("-" ++ a) (.binary .sub :: ts) := by
  intro rest hrest
  have hcode : ("-" ++ a).toList ++ rest = '-' :: c :: (cs ++ rest) := by simp [String.toList_append, ha]
  have hsymbol : symbol? ('-' :: c :: (cs ++ rest)) = some (.binary .sub, c :: (cs ++ rest)) := by simp [symbol?, hc]
  have hlex := h rest hrest
  rw [ha, List.cons_append] at hlex
  rw [hcode, lex_symbol (by decide) (by decide) hsymbol, hlex]
  simp [Function.comp_def]

/-- An exclamation mark in front of code that starts with no equals sign. -/
theorem Lexes.bang {a : String} {ts : List Token} (h : Lexes a ts) {c : Char} {cs : List Char}
    (ha : a.toList = c :: cs) (hc : c ≠ '=') : Lexes ("!" ++ a) (.bang :: ts) := by
  intro rest hrest
  have hcode : ("!" ++ a).toList ++ rest = '!' :: c :: (cs ++ rest) := by simp [String.toList_append, ha]
  have hsymbol : symbol? ('!' :: c :: (cs ++ rest)) = some (.bang, c :: (cs ++ rest)) := by simp [symbol?, hc]
  have hlex := h rest hrest
  rw [ha, List.cons_append] at hlex
  rw [hcode, lex_symbol (by decide) (by decide) hsymbol, hlex]
  simp [Function.comp_def]

theorem head_of_isLeaf {s : String} (h : isLeaf s = true) : ∃ c cs, s.toList = c :: cs ∧ isWordChar c = true := by
  unfold isLeaf at h
  split at h
  · cases h
  · rename_i c cs hcs
    refine ⟨c, cs, hcs, ?_⟩
    by_cases hword : isWordChar c = true
    · exact hword
    · have hdigit : isDigit c = false := by
        apply Bool.eq_false_iff.2
        intro hd
        exact hword (Identifier.isWordChar_of_isDigit hd)
      simp [Phase.start?, hword, hdigit] at h

theorem wrap_of_parens {code : String} {outer inner : Order} (h : Order.needsParens outer inner = true) :
    (Order.wrap code outer inner).toList = '(' :: (code ++ ")").toList := by
  rw [Order.wrap, if_pos h]
  simp [String.toList_append]

theorem wrap_of_bare {code : String} {outer inner : Order} (h : ¬Order.needsParens outer inner = true) :
    Order.wrap code outer inner = code := by
  rw [Order.wrap, if_neg h]

namespace OpTree

/-- No second minus sign stands behind a minus sign. -/
theorem head_behind_minus {t : OpTree String} (h : ∀ s ∈ t.leaves, isLeaf s = true) :
    ∃ c cs, (Order.wrap t.code Order.unaryNegation t.order).toList = c :: cs ∧ c ≠ '-' := by
  by_cases hp : Order.needsParens Order.unaryNegation t.order = true
  · exact ⟨_, _, wrap_of_parens hp, by decide⟩
  · rw [wrap_of_bare hp]
    obtain ⟨s, rfl⟩ := bare_neg (Bool.eq_false_iff.2 hp)
    obtain ⟨c, cs, hcs, hword⟩ := head_of_isLeaf (h s List.mem_cons_self)
    refine ⟨c, cs, hcs, ?_⟩
    rintro rfl
    exact absurd hword (by decide)

/-- No equals sign stands behind a negation. -/
theorem head_behind_bang {t : OpTree String} (h : ∀ s ∈ t.leaves, isLeaf s = true) :
    ∃ c cs, (Order.wrap t.code Order.logicalNot t.order).toList = c :: cs ∧ c ≠ '=' := by
  by_cases hp : Order.needsParens Order.logicalNot t.order = true
  · exact ⟨_, _, wrap_of_parens hp, by decide⟩
  · rw [wrap_of_bare hp]
    rcases bare_not (Bool.eq_false_iff.2 hp) with ⟨s, rfl⟩ | ⟨a, rfl⟩
    · obtain ⟨c, cs, hcs, hword⟩ := head_of_isLeaf (h s List.mem_cons_self)
      refine ⟨c, cs, hcs, ?_⟩
      rintro rfl
      exact absurd hword (by decide)
    · refine ⟨'!', (Order.wrap a.code Order.logicalNot a.order).toList, ?_, by decide⟩
      simp [code, String.toList_append]

/-- Code is cut into the tokens of its tree. -/
theorem lexes_code {t : OpTree String} (h : ∀ s ∈ t.leaves, isLeaf s = true) : Lexes t.code t.tokens := by
  induction t with
  | leaf s => exact lexes_leaf (h s List.mem_cons_self)
  | neg a ih =>
    have ha : ∀ s ∈ a.leaves, isLeaf s = true := h
    obtain ⟨c, cs, hcs, hc⟩ := head_behind_minus ha
    exact ((ih ha).wrap _ _).minus hcs hc
  | not a ih =>
    have ha : ∀ s ∈ a.leaves, isLeaf s = true := h
    obtain ⟨c, cs, hcs, hc⟩ := head_behind_bang ha
    exact ((ih ha).wrap _ _).bang hcs hc
  | binary op a b iha ihb =>
    have ha := iha fun s hs => h s (List.mem_append_left _ hs)
    have hb := ihb fun s hs => h s (List.mem_append_right _ hs)
    exact (ha.wrap _ _).binary (hb.wrap _ _) op
  | choice c y n ihc ihy ihn =>
    have hc := ihc fun s hs => h s (List.mem_append_left _ hs)
    have hy := ihy fun s hs => h s (List.mem_append_right _ (List.mem_append_left _ hs))
    have hn := ihn fun s hs => h s (List.mem_append_right _ (List.mem_append_right _ hs))
    exact (hc.wrap _ _).choice (hy.wrap _ _) (hn.wrap _ _)

/-- Parsing the code of a tree gives the tree with its chains grouped to the left. -/
theorem parse_code {t : OpTree String} (h : ∀ s ∈ t.leaves, isLeaf s = true) : parse t.code = some t.grouped := by
  have hlex : lex t.code.toList = some t.tokens := by
    have hall := lexes_code h [] ended_nil
    rw [List.append_nil] at hall
    rw [hall, lex]
    simp
  have hread := t.readsBack.whole.eq [] (stops_nil 8)
  rw [List.append_nil] at hread
  simp [parse, hlex, hread]

end OpTree
end Blockwright.Operators
