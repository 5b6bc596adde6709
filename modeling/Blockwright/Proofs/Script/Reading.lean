import Blockwright.Proofs.Script.Parsing
/-!
# Written code is read back

An expression or a statement, written with parentheses where a sign or a use would otherwise take
only a part of it, is cut into its tokens and read as the same tree again.
-/

namespace Blockwright.Script

open Text

/-! ## Cutting code into tokens -/

theorem Token.follows_of_mark {t u : Token} (hu : u.isWordy = false) (hsign : t.isSign = false ∨ u.isSign = false) :
    t.follows u = true := by
  cases u <;> simp_all [Token.follows, Token.isWordy] <;> simp_all [Token.isSign]

theorem Token.mark_follows {t u : Token} (ht : t.isWordy = false) (hpoint : t = .dot → ∀ n, u ≠ .number n)
    (hsign : t.isSign = false ∨ u.isSign = false) : t.follows u = true := by
  cases u <;> simp_all [Token.follows, Token.isWordy] <;> simp_all [Token.isSign]

namespace Piece

/-- Anything but a word may stand in front of the pieces, a sign only if `behindSign` is set, and anything
but a word may stand behind them, a point only if `beforePoint` is set. -/
def Joins (behindSign beforePoint : Bool) (ps : List Piece) : Prop :=
  ∀ last qs, (∀ u ∈ last, u.isWordy = false ∧ (u.isSign = true → behindSign = true)) →
    (∀ u : Token, u.isSign = false → (beforePoint = true → ∀ n, u ≠ .number n) → apart (some u) qs = true) →
    apart last (ps ++ qs) = true

variable {ps qs : List Piece} {behindSign beforePoint : Bool}

theorem Joins.mono (h : Joins behindSign beforePoint ps) : Joins false false ps := by
  intro last qs hlast hqs
  refine h last qs (fun u hu => ⟨(hlast u hu).1, fun hsign => ?_⟩) fun u hu _ => hqs u hu (by simp)
  exact absurd ((hlast u hu).2 hsign) (by simp)

/-- Between two marks that are no signs. -/
theorem Joins.between (h : Joins behindSign beforePoint ps) {t v : Token} (ht : t.isWordy = false ∧ t.isSign = false)
    (hv : v.isWordy = false ∧ v ≠ .dot) (hqs : apart (some v) qs = true) : apart (some t) (ps ++ .token v :: qs) = true := by
  refine h.mono (some t) _ ?_ fun u hu _ => ?_
  · rintro u ⟨⟩
    exact ⟨ht.1, fun hno => absurd hno (by simp [ht.2])⟩
  · rw [apart, hqs, Bool.and_true, Option.all_some]
    exact Token.mark_follows hv.1 (fun hdot => absurd hdot hv.2) (.inr hu)

theorem Joins.parenthesized (h : Joins behindSign beforePoint ps) : Joins true true (parenthesized ps) := by
  intro last qs hlast hqs
  have hopening : last.all (Token.opening).follows = true :=
    (Option.all_eq_true _ _).2 fun u hu => Token.follows_of_mark (hlast u hu).1 (.inl rfl)
  have hinner := h.between (t := .opening) ⟨rfl, rfl⟩ (v := .closing) ⟨rfl, by simp⟩ (hqs .closing rfl (by simp))
  rw [Script.parenthesized, List.cons_append, List.append_assoc, List.singleton_append, apart, hopening, hinner]
  rfl

end Piece

theorem joins_grouped {a : Expr} (h : Piece.Joins a.isOperand a.isUse a.pieces) :
    Piece.Joins true false (a.grouped a.pieces) := by
  unfold Expr.grouped
  split
  · rename_i hoperand
    rw [hoperand] at h
    exact fun last qs hlast hqs => h last qs hlast fun u hu _ => hqs u hu (by simp)
  · exact fun last qs hlast hqs => h.parenthesized last qs hlast fun u hu _ => hqs u hu (by simp)

theorem joins_based {a : Expr} (h : Piece.Joins a.isOperand a.isUse a.pieces) :
    Piece.Joins true true (a.based a.pieces) := by
  unfold Expr.based
  split
  · rename_i huse
    have hoperand : a.isOperand = true := by cases a <;> first | rfl | exact huse
    rw [hoperand, huse] at h
    exact h
  · exact h.parenthesized

mutual

/-- No token of a written expression runs into the next one. -/
theorem joins : ∀ a : Expr, Piece.Joins a.isOperand a.isUse a.pieces
  | .number n => by
    intro last qs hlast hqs
    have hfollows : last.all (Token.number n).follows = true :=
      (Option.all_eq_true _ _).2 fun u hu => Token.follows_of_mark (hlast u hu).1 (.inl rfl)
    have hbehind : Piece.apart (some (.number n)) qs = true := hqs _ rfl fun hno => by cases hno
    rw [Expr.pieces, List.singleton_append, Piece.apart, hfollows, hbehind]
    rfl
  | .name x => by
    intro last qs hlast hqs
    have hfollows : last.all (Token.word x).follows = true :=
      (Option.all_eq_true _ _).2 fun u hu => Token.follows_of_mark (hlast u hu).1 (.inl rfl)
    have hbehind : Piece.apart (some (.word x)) qs = true := hqs _ rfl (by simp)
    rw [Expr.pieces, List.singleton_append, Piece.apart, hfollows, hbehind]
    rfl
  | .negative a => by
    intro last qs hlast hqs
    -- signs may not follow each other, so none stands in front of this one
    have hfollows : last.all (Token.minus).follows = true := by
      refine (Option.all_eq_true _ _).2 fun u hu => Token.follows_of_mark (hlast u hu).1 (.inr ?_)
      cases hsign : u.isSign with
      | false => rfl
      | true => exact absurd ((hlast u hu).2 hsign) (by simp [Expr.isOperand, Expr.isUse])
    have hbehind : Piece.apart (some .minus) (a.grouped a.pieces ++ qs) = true := by
      refine joins_grouped (joins a) _ _ ?_ fun u hu _ => hqs u hu fun hno => by cases hno
      rintro u ⟨⟩
      exact ⟨rfl, fun _ => rfl⟩
    rw [Expr.pieces, List.cons_append, Piece.apart, hfollows, hbehind]
    rfl
  | .sum a b => by
    intro last qs hlast hqs
    have hright : Piece.apart none (b.grouped b.pieces ++ qs) = true :=
      joins_grouped (joins b) none qs (by simp) fun u hu _ => hqs u hu fun hno => by cases hno
    rw [Expr.pieces, List.append_assoc]
    exact (joins a).mono last _ hlast fun u _ _ => hright
  | .difference a b => by
    intro last qs hlast hqs
    have hright : Piece.apart none (b.grouped b.pieces ++ qs) = true :=
      joins_grouped (joins b) none qs (by simp) fun u hu _ => hqs u hu fun hno => by cases hno
    rw [Expr.pieces, List.append_assoc]
    exact (joins a).mono last _ hlast fun u _ _ => hright
  | .member a property => by
    intro last qs hlast hqs
    have hbehind : Piece.apart (some (.word property)) qs = true := hqs _ rfl (by simp)
    rw [Expr.pieces, List.append_assoc]
    refine joins_based (joins a) last _ hlast fun u hu hn => ?_
    have hdot : (Token.dot).follows u = true := Token.mark_follows rfl (fun _ => hn rfl) (.inr hu)
    rw [List.cons_append, List.singleton_append, Piece.apart, Piece.apart, Option.all_some, hdot, hbehind]
    rfl
  | .item a index => by
    intro last qs hlast hqs
    -- the index stands between two brackets, which run into nothing
    have hinner := (joins index).between (t := .openingBracket) ⟨rfl, rfl⟩ (v := .closingBracket) ⟨rfl, by simp⟩
      (hqs .closingBracket rfl (by simp))
    rw [Expr.pieces, List.append_assoc]
    refine joins_based (joins a) last _ hlast fun u hu _ => ?_
    have hbracket : (Token.openingBracket).follows u = true := Token.mark_follows rfl (by simp) (.inr hu)
    rw [List.cons_append, List.append_assoc, List.singleton_append, Piece.apart, Option.all_some, hbracket, hinner]
    rfl
  | .call callee arguments => by
    intro last qs hlast hqs
    rw [Expr.pieces, List.append_assoc]
    refine joins_based (joins callee) last _ hlast fun u hu _ => ?_
    have hopening : (Token.opening).follows u = true := Token.mark_follows rfl (by simp) (.inr hu)
    have hinner : Piece.apart (some .opening) (argumentPieces arguments ++ .token .closing :: qs) = true := by
      cases arguments with
      | nil =>
        rw [argumentPieces, List.nil_append, Piece.apart, hqs .closing rfl (by simp)]
        rfl
      | cons b bs =>
        exact (joins_arguments (b :: bs) (List.cons_ne_nil _ _)).between ⟨rfl, rfl⟩ ⟨rfl, by simp⟩
          (hqs .closing rfl (by simp))
    rw [List.cons_append, List.append_assoc, List.singleton_append, Piece.apart, Option.all_some, hopening, hinner]
    rfl

theorem joins_arguments : ∀ as : List Expr, as ≠ [] → Piece.Joins false false (argumentPieces as)
  | [], hne => absurd rfl hne
  | [a], _ => (joins a).mono
  | a :: b :: as, _ => by
    intro last qs hlast hqs
    have hrest := joins_arguments (b :: as) (List.cons_ne_nil _ _) none qs (by simp) hqs
    rw [argumentPieces, List.append_assoc]
    refine (joins a).mono last _ hlast fun u hu _ => ?_
    have hcomma : (Token.comma).follows u = true := Token.mark_follows rfl (by simp) (.inr hu)
    rw [List.cons_append, List.cons_append, Piece.apart, Option.all_some, hcomma]
    exact hrest

end

/-! ## Proper pieces -/

theorem inline_parenthesized {ps : List Piece} (h : ∀ p ∈ ps, p.Inline) : ∀ p ∈ parenthesized ps, p.Inline := by
  simp only [parenthesized, List.forall_mem_cons, List.forall_mem_append]
  exact ⟨⟨trivial, by decide⟩, h, ⟨trivial, by decide⟩, by simp⟩

theorem inline_grouped {a : Expr} (h : ∀ p ∈ a.pieces, p.Inline) : ∀ p ∈ a.grouped a.pieces, p.Inline := by
  unfold Expr.grouped
  split
  · exact h
  · exact inline_parenthesized h

theorem inline_based {a : Expr} (h : ∀ p ∈ a.pieces, p.Inline) : ∀ p ∈ a.based a.pieces, p.Inline := by
  unfold Expr.based
  split
  · exact h
  · exact inline_parenthesized h

mutual

/-- An expression stands on one line, and no brace is in it. -/
theorem inline_pieces : ∀ a : Expr, (∀ x ∈ a.words, Identifier.isLegal x = true) → ∀ p ∈ a.pieces, p.Inline
  | .number n, _ => by
    simp only [Expr.pieces, List.forall_mem_cons]
    exact ⟨⟨trivial, by simp⟩, by simp⟩
  | .name x, h => by
    simp only [Expr.pieces, List.forall_mem_cons]
    exact ⟨⟨h x (List.mem_singleton_self x), by simp⟩, by simp⟩
  | .negative a, h => by
    simp only [Expr.pieces, List.forall_mem_cons]
    exact ⟨⟨trivial, by decide⟩, inline_grouped (inline_pieces a h)⟩
  | .sum a b, h => by
    simp only [Expr.words, List.forall_mem_append] at h
    simp only [Expr.pieces, List.forall_mem_append, List.forall_mem_cons]
    exact ⟨inline_pieces a h.1, rfl, ⟨trivial, by decide⟩, rfl, inline_grouped (inline_pieces b h.2)⟩
  | .difference a b, h => by
    simp only [Expr.words, List.forall_mem_append] at h
    simp only [Expr.pieces, List.forall_mem_append, List.forall_mem_cons]
    exact ⟨inline_pieces a h.1, rfl, ⟨trivial, by decide⟩, rfl, inline_grouped (inline_pieces b h.2)⟩
  | .member a property, h => by
    simp only [Expr.words, List.forall_mem_cons] at h
    simp only [Expr.pieces, List.forall_mem_append, List.forall_mem_cons]
    exact ⟨inline_based (inline_pieces a h.2), ⟨trivial, by decide⟩, ⟨h.1, by simp⟩, by simp⟩
  | .item a index, h => by
    simp only [Expr.words, List.forall_mem_append] at h
    simp only [Expr.pieces, List.forall_mem_append, List.forall_mem_cons]
    exact ⟨inline_based (inline_pieces a h.1), ⟨trivial, by decide⟩, inline_pieces index h.2, ⟨trivial, by decide⟩, by simp⟩
  | .call callee arguments, h => by
    simp only [Expr.words, List.forall_mem_append] at h
    simp only [Expr.pieces, List.forall_mem_append, List.forall_mem_cons]
    exact ⟨inline_based (inline_pieces callee h.1), ⟨trivial, by decide⟩, inline_argumentPieces arguments h.2,
      ⟨trivial, by decide⟩, by simp⟩

theorem inline_argumentPieces : ∀ as : List Expr, (∀ x ∈ argumentWords as, Identifier.isLegal x = true) →
    ∀ p ∈ argumentPieces as, p.Inline
  | [], _ => by simp [argumentPieces]
  | [a], h => inline_pieces a fun x hx => h x (List.mem_append_left _ hx)
  | a :: b :: as, h => by
    rw [argumentWords, List.forall_mem_append] at h
    simp only [argumentPieces, List.forall_mem_append, List.forall_mem_cons]
    exact ⟨inline_pieces a h.1, ⟨trivial, by decide⟩, rfl, inline_argumentPieces (b :: as) h.2⟩

end

theorem proper_pieces (a : Expr) (h : ∀ x ∈ a.words, Identifier.isLegal x = true) : ∀ p ∈ a.pieces, p.Proper :=
  fun p hp => (inline_pieces a h p hp).proper

/-! ## Expressions and statements -/

namespace Expr

/-- The code of an expression as it is written. -/
def code (a : Expr) : String := Piece.codeOf a.pieces

/-- The code of an expression behind a sign. -/
def groupedCode (a : Expr) : String := Piece.codeOf (a.grouped a.pieces)

/-- The tree of code that is one expression. -/
def ofCode? (code : String) : Option Expr := (tokens? code.toList).bind Expr.parse

/-- Written code of an expression is read as that expression. -/
theorem ofCode?_code {a : Expr} (h : ∀ x ∈ a.words, Identifier.isLegal x = true) : ofCode? a.code = some a := by
  have hapart : Piece.apart none a.pieces = true := by
    have hjoins := joins a none [] (by simp) fun _ _ _ => rfl
    rwa [List.append_nil] at hjoins
  have hread : readExpr (a.tokens ++ []) = some (a, []) :=
    readExpr_tokens a (by simp [EndsUse]) (by simp [EndsTerms])
  rw [List.append_nil, tokens] at hread
  rw [ofCode?, code, tokens?_codeOf (proper_pieces a h) hapart, Option.bind_some, parse, hread]

variable (a b : Expr)

theorem code_number (n : Nat) : (number n).code = ofNat n := by simp [code, pieces, Piece.codeOf, Piece.code, Token.text]

theorem code_name (x : String) : (name x).code = x := by simp [code, pieces, Piece.codeOf, Piece.code, Token.text]

theorem code_negative : (negative a).code = "-" ++ a.groupedCode := rfl

theorem code_sum : (sum a b).code = a.code ++ " + " ++ b.groupedCode := by
  simp only [code, pieces, Piece.codeOf_append, Piece.codeOf, String.append_assoc]
  rfl

theorem code_difference : (difference a b).code = a.code ++ " - " ++ b.groupedCode := by
  simp only [code, pieces, Piece.codeOf_append, Piece.codeOf, String.append_assoc]
  rfl

variable {a} in
theorem codeOf_based (h : a.isUse = true) : Piece.codeOf (a.based a.pieces) = a.code := by rw [based, if_pos h, code]

variable {a} in
theorem code_member (h : a.isUse = true) (property : String) : (member a property).code = a.code ++ "." ++ property := by
  rw [code, pieces, Piece.codeOf_append, codeOf_based h]
  simp [Piece.codeOf, Piece.code, Token.text, String.append_assoc]

variable {a} in
theorem code_item (h : a.isUse = true) : (item a b).code = a.code ++ "[" ++ b.code ++ "]" := by
  rw [code, pieces, Piece.codeOf_append, codeOf_based h]
  simp [code, Piece.codeOf, Piece.codeOf_append, Piece.code, Token.text, String.append_assoc]

theorem codeOf_argumentPieces : ∀ arguments : List Expr,
    Piece.codeOf (argumentPieces arguments) = joinWith ", " (arguments.map code)
  | [] => rfl
  | [_] => rfl
  | a :: b :: rest => by
    have hrest := codeOf_argumentPieces (b :: rest)
    rw [List.map_cons] at hrest
    simp only [argumentPieces, Piece.codeOf_append, Piece.codeOf, hrest, List.map_cons, joinWith, String.append_assoc]
    rfl

variable {a} in
theorem code_call (h : a.isUse = true) (arguments : List Expr) :
    (call a arguments).code = a.code ++ "(" ++ joinWith ", " (arguments.map code) ++ ")" := by
  rw [code, pieces, Piece.codeOf_append, codeOf_based h, ← codeOf_argumentPieces]
  simp [Piece.codeOf, Piece.codeOf_append, Piece.code, Token.text, String.append_assoc]

variable {a} in
theorem groupedCode_of_isOperand (h : a.isOperand = true) : a.groupedCode = a.code := by
  rw [groupedCode, grouped, if_pos h, code]

variable {a} in
theorem groupedCode_of_not_isOperand (h : a.isOperand = false) : a.groupedCode = "(" ++ a.code ++ ")" := by
  have hno : ¬a.isOperand = true := by simp [h]
  rw [groupedCode, grouped, if_neg hno, parenthesized]
  simp [code, Piece.codeOf, Piece.codeOf_append, Piece.code, Token.text, String.append_assoc]

end Expr

namespace Statement

/-- A statement as it is written. -/
def pieces : Statement → List Piece
  | .expression a => a.pieces ++ [.token .semicolon, .blank "\n"]
  | .assignment target value =>
    target.pieces ++ .space :: .token .equals :: .space :: (value.pieces ++ [.token .semicolon, .blank "\n"])

/-- The words in a statement. -/
def words : Statement → List String
  | .expression a => a.words
  | .assignment target value => target.words ++ value.words

/-- The code of a statement as it is written, which is a line. -/
def code (s : Statement) : String := Piece.codeOf s.pieces

/-- The tree of code that is one statement. -/
def ofCode? (code : String) : Option Statement := (tokens? code.toList).bind Statement.parse

theorem code_expression (a : Expr) : (expression a).code = a.code ++ ";\n" := by
  simp only [code, pieces, Expr.code, Piece.codeOf_append, Piece.codeOf]
  rfl

theorem code_assignment (target value : Expr) :
    (assignment target value).code = target.code ++ " = " ++ value.code ++ ";\n" := by
  simp only [code, pieces, Expr.code, Piece.codeOf_append, Piece.codeOf, String.append_assoc]
  rfl

end Statement

/-- A mark behind an expression that is neither a sign nor a point, or blank space. -/
theorem apart_behind (a : Expr) {t : Token} (ht : t.isWordy = false ∧ t ≠ .dot) {qs : List Piece}
    (hqs : Piece.apart (some t) qs = true) : Piece.apart none (a.pieces ++ .token t :: qs) = true := by
  refine (joins a).mono none _ (by simp) fun u hu _ => ?_
  rw [Piece.apart, Option.all_some, Token.mark_follows ht.1 (fun hdot => absurd hdot ht.2) (.inr hu), hqs]
  rfl

theorem proper_line : (Piece.blank "\n").Proper := ⟨by decide, by simp [isCodeBlank]⟩

/-- Written code of a statement is read as that statement. -/
theorem Statement.ofCode?_code {s : Statement} (h : ∀ x ∈ s.words, Identifier.isLegal x = true) :
    ofCode? s.code = some s := by
  cases s with
  | expression a =>
    have hproper : ∀ p ∈ (expression a).pieces, p.Proper := by
      simp only [pieces, List.forall_mem_append, List.forall_mem_cons]
      exact ⟨proper_pieces a h, trivial, proper_line, by simp⟩
    have hapart : Piece.apart none (expression a).pieces = true := apart_behind a ⟨rfl, by simp⟩ rfl
    have htokens : Piece.tokensOf (expression a).pieces = a.tokens ++ [Token.semicolon] := Piece.tokensOf_append _ _
    have hread : readExpr (a.tokens ++ [Token.semicolon]) = some (a, [.semicolon]) :=
      readExpr_tokens a (by simp [EndsUse]) (by simp [EndsTerms])
    rw [ofCode?, code, tokens?_codeOf hproper hapart, Option.bind_some, htokens, parse, hread]
  | assignment target value =>
    simp only [words, List.forall_mem_append] at h
    have hproper : ∀ p ∈ (assignment target value).pieces, p.Proper := by
      simp only [pieces, List.forall_mem_append, List.forall_mem_cons]
      exact ⟨proper_pieces target h.1, Piece.proper_space, trivial, Piece.proper_space, proper_pieces value h.2, trivial,
        proper_line, by simp⟩
    have hvalue : Piece.apart none (value.pieces ++ [Piece.token .semicolon, .blank "\n"]) = true :=
      apart_behind value ⟨rfl, by simp⟩ rfl
    have hapart : Piece.apart none (assignment target value).pieces = true :=
      (joins target).mono none _ (by simp) fun _ _ _ => hvalue
    have htokens : Piece.tokensOf (assignment target value).pieces =
        target.tokens ++ Token.equals :: (value.tokens ++ [Token.semicolon]) := by
      simp [pieces, Piece.tokensOf_append, Piece.tokensOf, Piece.space, Expr.tokens]
    have htarget : readExpr (target.tokens ++ Token.equals :: (value.tokens ++ [Token.semicolon])) =
        some (target, .equals :: (value.tokens ++ [Token.semicolon])) :=
      readExpr_tokens target (by simp [EndsUse]) (by simp [EndsTerms])
    have hread : readExpr (value.tokens ++ [Token.semicolon]) = some (value, [.semicolon]) :=
      readExpr_tokens value (by simp [EndsUse]) (by simp [EndsTerms])
    rw [ofCode?, code, tokens?_codeOf hproper hapart, Option.bind_some, htokens, parse, htarget]
    simp only [hread]

end Blockwright.Script
