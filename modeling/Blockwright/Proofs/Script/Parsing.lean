import Blockwright.Proofs.Script.Pieces
/-!
# Parsing written expressions

The tokens of a written expression are read as that expression, and what stands behind it is left
over, unless it is something that is done or added to it.
-/

namespace Blockwright.Script

/-- The tokens of an expression as it is written. -/
def Expr.tokens (a : Expr) : List Token := Piece.tokensOf a.pieces

/-- The tokens of arguments as they are written. -/
def argumentTokens (arguments : List Expr) : List Token := Piece.tokensOf (argumentPieces arguments)

theorem tokensOf_parenthesized (ps : List Piece) :
    Piece.tokensOf (parenthesized ps) = .opening :: (Piece.tokensOf ps ++ [Token.closing]) := by
  simp [parenthesized, Piece.tokensOf, Piece.tokensOf_append]

/-- What follows does nothing to an operand. -/
def EndsUse (rest : List Token) : Prop := ∀ t ∈ rest.head?, t ≠ .dot ∧ t ≠ .openingBracket ∧ t ≠ .opening

theorem uses_end {steps : Nat} (hsteps : 1 ≤ steps) (a : Expr) {rest : List Token} (h : EndsUse rest) :
    uses steps a rest = some (a, rest) := by
  obtain ⟨steps, rfl⟩ := Nat.exists_eq_add_of_le' hsteps
  cases rest with
  | nil => rfl
  | cons t ts =>
    have ht := h t rfl
    cases t <;> simp_all [uses]

/-- What follows adds nothing to an expression. -/
def EndsTerms (rest : List Token) : Prop := ∀ t ∈ rest.head?, t ≠ .plus ∧ t ≠ .minus

theorem terms_end {steps : Nat} (hsteps : 1 ≤ steps) (a : Expr) {rest : List Token} (h : EndsTerms rest) :
    terms steps a rest = some (a, rest) := by
  obtain ⟨steps, rfl⟩ := Nat.exists_eq_add_of_le' hsteps
  cases rest with
  | nil => rfl
  | cons t ts =>
    have ht := h t rfl
    cases t <;> simp_all [terms]

/-- With enough steps the tokens of an expression are read as the expression, up to what follows; those of
a use are also read where more is done to it. -/
structure Reads (a : Expr) : Prop where
  whole : ∀ rest steps, EndsUse rest → 2 * (a.tokens ++ rest).length + 1 ≤ steps →
    ∃ steps', 2 * rest.length + 1 ≤ steps' ∧ expression steps (a.tokens ++ rest) = terms steps' a rest
  use : a.isUse = true → ∀ rest steps, 2 * (a.tokens ++ rest).length ≤ steps →
    ∃ steps', 2 * rest.length + 1 ≤ steps' ∧ operand steps (a.tokens ++ rest) = uses steps' a rest

namespace Reads

variable {a : Expr} {rest : List Token} {steps : Nat}

/-- An expression is over at a closing mark, a comma, a semicolon, or a sign of equality. -/
theorem ended (h : Reads a) (huse : EndsUse rest) (hterms : EndsTerms rest)
    (hsteps : 2 * (a.tokens ++ rest).length + 1 ≤ steps) : expression steps (a.tokens ++ rest) = some (a, rest) := by
  obtain ⟨steps', hsteps', hread⟩ := h.whole rest steps huse hsteps
  rw [hread]
  exact terms_end (by omega) a hterms

theorem inParens (h : Reads a) (hsteps : 2 * (Piece.tokensOf (parenthesized a.pieces) ++ rest).length ≤ steps) :
    ∃ steps', 2 * rest.length + 1 ≤ steps' ∧
      operand steps (Piece.tokensOf (parenthesized a.pieces) ++ rest) = uses steps' a rest := by
  rw [tokensOf_parenthesized] at hsteps ⊢
  simp only [List.length_append, List.length_cons, List.length_nil] at hsteps
  obtain ⟨steps, rfl⟩ := Nat.exists_eq_add_of_le' (show 1 ≤ steps by omega)
  have hread : expression steps (a.tokens ++ .closing :: rest) = some (a, .closing :: rest) :=
    h.ended (by simp [EndsUse]) (by simp [EndsTerms]) (by
      simp only [Expr.tokens, List.length_append, List.length_cons]
      omega)
  refine ⟨steps, by omega, ?_⟩
  have hshape : Token.opening :: (Piece.tokensOf a.pieces ++ [Token.closing]) ++ rest =
      .opening :: (a.tokens ++ .closing :: rest) := by simp [Expr.tokens]
  rw [hshape, operand, hread]

theorem based (h : Reads a) (hsteps : 2 * (Piece.tokensOf (a.based a.pieces) ++ rest).length ≤ steps) :
    ∃ steps', 2 * rest.length + 1 ≤ steps' ∧
      operand steps (Piece.tokensOf (a.based a.pieces) ++ rest) = uses steps' a rest := by
  unfold Expr.based at hsteps ⊢
  split at hsteps
  · rename_i huse
    rw [if_pos huse]
    exact h.use huse rest steps hsteps
  · rename_i huse
    rw [if_neg huse]
    exact h.inParens hsteps

theorem grouped (h : Reads a) (hrest : EndsUse rest)
    (hsteps : 2 * (Piece.tokensOf (a.grouped a.pieces) ++ rest).length ≤ steps) :
    operand steps (Piece.tokensOf (a.grouped a.pieces) ++ rest) = some (a, rest) := by
  have hover : ∀ {ts}, (∃ steps', 2 * rest.length + 1 ≤ steps' ∧ operand steps ts = uses steps' a rest) →
      operand steps ts = some (a, rest) := by
    rintro ts ⟨steps', hsteps', hread⟩
    rw [hread]
    exact uses_end (by omega) a hrest
  unfold Expr.grouped at hsteps ⊢
  split at hsteps
  · rename_i hoperand
    rw [if_pos hoperand]
    by_cases huse : a.isUse = true
    · exact hover (h.use huse rest steps hsteps)
    · cases a with
      | number n =>
        obtain ⟨steps, rfl⟩ := Nat.exists_eq_add_of_le' (show 1 ≤ steps by
          simp [Expr.pieces, Piece.tokensOf] at hsteps
          omega)
        rfl
      | _ => simp_all [Expr.isOperand, Expr.isUse]
  · rename_i hoperand
    rw [if_neg hoperand]
    exact hover (h.inParens hsteps)

/-- A use is a whole expression where nothing more is done to it. -/
theorem ofUse (huse : a.isUse = true)
    (h : ∀ rest steps, 2 * (a.tokens ++ rest).length ≤ steps →
      ∃ steps', 2 * rest.length + 1 ≤ steps' ∧ operand steps (a.tokens ++ rest) = uses steps' a rest) : Reads a := by
  refine ⟨fun rest steps hrest hsteps => ?_, fun _ => h⟩
  have hpos : 1 ≤ a.tokens.length := by
    cases a <;> simp [Expr.isUse] at huse <;> simp [Expr.tokens, Expr.pieces, Piece.tokensOf, Piece.tokensOf_append] <;> omega
  rw [List.length_append] at hsteps
  obtain ⟨steps, rfl⟩ := Nat.exists_eq_add_of_le' (show 1 ≤ steps by omega)
  obtain ⟨steps', hsteps', hread⟩ := h rest steps (by
    rw [List.length_append]
    omega)
  refine ⟨steps, by omega, ?_⟩
  rw [expression, hread, uses_end (by omega) a hrest]

/-- An expression with another operand behind it. -/
theorem joined {a b c : Expr} {t : Token} (ha : Reads a) (hb : Reads b) (hc : c.isUse = false)
    (ht : EndsUse [t]) (htokens : c.tokens = a.tokens ++ t :: Piece.tokensOf (b.grouped b.pieces))
    (hterms : ∀ steps rest ts, operand steps ts = some (b, rest) → terms (steps + 1) a (t :: ts) = terms steps c rest) :
    Reads c := by
  refine ⟨fun rest steps hrest hsteps => ?_, fun huse => by simp [hc] at huse⟩
  rw [htokens, List.append_assoc, List.cons_append] at hsteps ⊢
  obtain ⟨steps', hsteps', hread⟩ := ha.whole (t :: (Piece.tokensOf (b.grouped b.pieces) ++ rest)) steps ht hsteps
  rw [List.length_cons] at hsteps'
  obtain ⟨steps', rfl⟩ := Nat.exists_eq_add_of_le' (show 1 ≤ steps' by omega)
  have hright : operand steps' (Piece.tokensOf (b.grouped b.pieces) ++ rest) = some (b, rest) :=
    hb.grouped hrest (by omega)
  rw [List.length_append] at hsteps'
  exact ⟨steps', by omega, hread.trans (hterms _ _ _ hright)⟩

/-- An expression with something done to it. -/
theorem used {a c : Expr} {behind : List Token} (ha : Reads a) (hc : c.isUse = true)
    (htokens : c.tokens = Piece.tokensOf (a.based a.pieces) ++ behind) (hbehind : behind ≠ [])
    (huses : ∀ steps rest, 2 * (behind ++ rest).length ≤ steps → uses (steps + 1) a (behind ++ rest) = uses steps c rest) :
    Reads c := by
  refine .ofUse hc fun rest steps hsteps => ?_
  rw [htokens, List.append_assoc] at hsteps ⊢
  obtain ⟨steps', hsteps', hread⟩ := ha.based hsteps
  obtain ⟨steps', rfl⟩ := Nat.exists_eq_add_of_le' (show 1 ≤ steps' by omega)
  have hpos := List.length_pos_iff.2 hbehind
  refine ⟨steps', ?_, hread.trans (huses _ _ (by omega))⟩
  rw [List.length_append] at hsteps'
  omega

end Reads

/-- No expression begins with a closing parenthesis. -/
theorem head_tokens : ∀ a : Expr, ∃ t ts, a.tokens = t :: ts ∧ t ≠ .closing
  | .number n => ⟨.number n, [], rfl, by simp⟩
  | .name x => ⟨.word x, [], rfl, by simp⟩
  | .negative a => ⟨.minus, Piece.tokensOf (a.grouped a.pieces), rfl, by simp⟩
  | .sum a b => by
    obtain ⟨t, ts, htokens, ht⟩ := head_tokens a
    exact ⟨t, _, (Piece.tokensOf_append _ _).trans (congrArg (· ++ _) htokens), ht⟩
  | .difference a b => by
    obtain ⟨t, ts, htokens, ht⟩ := head_tokens a
    exact ⟨t, _, (Piece.tokensOf_append _ _).trans (congrArg (· ++ _) htokens), ht⟩
  | .member a property => head_of_based (.token .dot :: [.token (.word property)]) (head_tokens a)
  | .item a index =>
    head_of_based (Piece.token .openingBracket :: (index.pieces ++ [Piece.token .closingBracket])) (head_tokens a)
  | .call callee arguments =>
    head_of_based (Piece.token .opening :: (argumentPieces arguments ++ [Piece.token .closing])) (head_tokens callee)
where
  head_of_based {a : Expr} (ps : List Piece) (h : ∃ t ts, a.tokens = t :: ts ∧ t ≠ .closing) :
      ∃ t ts, Piece.tokensOf (a.based a.pieces ++ ps) = t :: ts ∧ t ≠ .closing := by
    rw [Piece.tokensOf_append]
    unfold Expr.based
    split
    · obtain ⟨t, ts, htokens, ht⟩ := h
      exact ⟨t, _, congrArg (· ++ _) htokens, ht⟩
    · exact ⟨.opening, _, congrArg (· ++ _) (tokensOf_parenthesized _), by simp⟩

theorem head_argumentTokens (a : Expr) (as : List Expr) : ∃ t ts, argumentTokens (a :: as) = t :: ts ∧ t ≠ .closing := by
  obtain ⟨t, ts, htokens, ht⟩ := head_tokens a
  cases as with
  | nil => exact ⟨t, ts, htokens, ht⟩
  | cons b as => exact ⟨t, _, (Piece.tokensOf_append _ _).trans (congrArg (· ++ _) htokens), ht⟩

/-- The arguments of a call are read, with the parenthesis behind them. -/
def ReadsArguments (as : List Expr) : Prop :=
  ∀ rest steps, 2 * (argumentTokens as ++ .closing :: rest).length + 2 ≤ steps →
    arguments steps (argumentTokens as ++ .closing :: rest) = some (as, rest)

mutual

/-- The tokens of a written expression are read as the expression. -/
theorem reads : ∀ a : Expr, Reads a
  | .number n => by
    refine ⟨fun rest steps _ hsteps => ?_, fun huse => by cases huse⟩
    have htokens : (Expr.number n).tokens = [.number n] := rfl
    rw [htokens, List.cons_append, List.length_cons, List.nil_append] at hsteps
    obtain ⟨steps, rfl⟩ := Nat.exists_eq_add_of_le' (show 2 ≤ steps by omega)
    exact ⟨steps + 1, by omega, rfl⟩
  | .name x => by
    refine .ofUse rfl fun rest steps hsteps => ?_
    have htokens : (Expr.name x).tokens = [.word x] := rfl
    rw [htokens, List.cons_append, List.length_cons, List.nil_append] at hsteps
    obtain ⟨steps, rfl⟩ := Nat.exists_eq_add_of_le' (show 1 ≤ steps by omega)
    exact ⟨steps, by omega, rfl⟩
  | .negative a => by
    refine ⟨fun rest steps hrest hsteps => ?_, fun huse => by cases huse⟩
    have htokens : (Expr.negative a).tokens = .minus :: Piece.tokensOf (a.grouped a.pieces) := rfl
    rw [htokens, List.cons_append, List.length_cons] at hsteps
    obtain ⟨steps, rfl⟩ := Nat.exists_eq_add_of_le' (show 2 ≤ steps by omega)
    have hread : operand steps (Piece.tokensOf (a.grouped a.pieces) ++ rest) = some (a, rest) :=
      (reads a).grouped hrest (by omega)
    rw [List.length_append] at hsteps
    refine ⟨steps + 1, by omega, ?_⟩
    rw [htokens, List.cons_append, expression, operand, hread]
    rfl
  | .sum a b => by
    refine (reads a).joined (t := .plus) (reads b) rfl (by simp [EndsUse]) ?_ fun steps rest ts hread => by rw [terms, hread]
    simp [Expr.tokens, Expr.pieces, Piece.tokensOf, Piece.tokensOf_append, Piece.space]
  | .difference a b => by
    refine (reads a).joined (t := .minus) (reads b) rfl (by simp [EndsUse]) ?_ fun steps rest ts hread => by rw [terms, hread]
    simp [Expr.tokens, Expr.pieces, Piece.tokensOf, Piece.tokensOf_append, Piece.space]
  | .member a property => by
    refine (reads a).used rfl (Piece.tokensOf_append _ _) (List.cons_ne_nil _ _) fun steps rest _ => ?_
    rw [Piece.tokensOf, Piece.tokensOf, Piece.tokensOf, List.cons_append, List.cons_append, List.nil_append, uses]
  | .item a index => by
    refine (reads a).used rfl (Piece.tokensOf_append _ _) (List.cons_ne_nil _ _) fun steps rest hsteps => ?_
    have hbehind : Piece.tokensOf (.token .openingBracket :: (index.pieces ++ [Piece.token .closingBracket])) ++ rest =
        .openingBracket :: (index.tokens ++ .closingBracket :: rest) := by
      simp [Expr.tokens, Piece.tokensOf, Piece.tokensOf_append]
    rw [hbehind, List.length_cons] at hsteps
    have hread : expression steps (index.tokens ++ .closingBracket :: rest) = some (index, .closingBracket :: rest) :=
      (reads index).ended (by simp [EndsUse]) (by simp [EndsTerms]) (by omega)
    rw [hbehind, uses, hread]
  | .call callee [] => by
    refine (reads callee).used rfl (Piece.tokensOf_append _ _) (List.cons_ne_nil _ _) fun steps rest _ => ?_
    rw [argumentPieces, List.nil_append, Piece.tokensOf, Piece.tokensOf, Piece.tokensOf, List.cons_append, List.cons_append,
      List.nil_append, uses]
  | .call callee (a :: as) => by
    refine (reads callee).used rfl (Piece.tokensOf_append _ _) (List.cons_ne_nil _ _) fun steps rest hsteps => ?_
    have hbehind : Piece.tokensOf (.token .opening :: (argumentPieces (a :: as) ++ [Piece.token .closing])) ++ rest =
        .opening :: (argumentTokens (a :: as) ++ .closing :: rest) := by
      simp [argumentTokens, Piece.tokensOf, Piece.tokensOf_append]
    rw [hbehind, List.length_cons] at hsteps
    have hread := readsArguments (a :: as) (List.cons_ne_nil _ _) rest steps (by omega)
    rw [hbehind, uses, hread]
    -- with an argument this is not the call without any
    intro ts hts
    obtain ⟨t, us, htokens, ht⟩ := head_argumentTokens a as
    rw [htokens] at hts
    exact ht (List.cons.inj hts).1

/-- The tokens of written arguments are read as the arguments. -/
theorem readsArguments : ∀ as : List Expr, as ≠ [] → ReadsArguments as
  | [], hne => absurd rfl hne
  | [a], _ => by
    intro rest steps hsteps
    obtain ⟨steps, rfl⟩ := Nat.exists_eq_add_of_le' (show 1 ≤ steps by omega)
    have hread : expression steps (a.tokens ++ .closing :: rest) = some (a, .closing :: rest) :=
      (reads a).ended (by simp [EndsUse]) (by simp [EndsTerms]) (by
        rw [show argumentTokens [a] = a.tokens from rfl] at hsteps
        omega)
    rw [show argumentTokens [a] = a.tokens from rfl, arguments, hread]
  | a :: b :: as, _ => by
    intro rest steps hsteps
    have htokens : argumentTokens (a :: b :: as) ++ .closing :: rest =
        a.tokens ++ .comma :: (argumentTokens (b :: as) ++ .closing :: rest) := by
      simp [argumentTokens, argumentPieces, Expr.tokens, Piece.tokensOf, Piece.tokensOf_append, Piece.space]
    rw [htokens] at hsteps ⊢
    obtain ⟨steps, rfl⟩ := Nat.exists_eq_add_of_le' (show 1 ≤ steps by omega)
    have hread : expression steps (a.tokens ++ .comma :: (argumentTokens (b :: as) ++ .closing :: rest)) = some (a, _) :=
      (reads a).ended (by simp [EndsUse]) (by simp [EndsTerms]) (by omega)
    rw [List.length_append, List.length_cons] at hsteps
    have hmore := readsArguments (b :: as) (List.cons_ne_nil _ _) rest steps (by omega)
    rw [arguments, hread]
    exact congrArg (Option.map _) hmore

end

theorem readExpr_tokens (a : Expr) {rest : List Token} (huse : EndsUse rest) (hterms : EndsTerms rest) :
    readExpr (a.tokens ++ rest) = some (a, rest) := (reads a).ended huse hterms (Nat.le_refl _)

end Blockwright.Script
