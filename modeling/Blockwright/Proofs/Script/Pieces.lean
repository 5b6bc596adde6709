import Blockwright.Proofs.Operators.Lexing
import Blockwright.Proofs.Script.Syntax
/-!
# Written code

Code that is written from tokens with blank space between some of them. It is cut into the same
tokens again, whatever the names in it are, as long as no token runs into the next one.
-/

namespace Blockwright.Script

open Text

namespace Token

/-- A token as it is written. -/
def text : Token → String
  | .word x => x
  | .number n => ofNat n
  | .plus => "+"
  | .minus => "-"
  | .equals => "="
  | .dot => "."
  | .comma => ","
  | .semicolon => ";"
  | .opening => "("
  | .closing => ")"
  | .openingBracket => "["
  | .closingBracket => "]"
  | .openingBrace => "\x7b"
  | .closingBrace => "\x7d"

/-- Whether a token is made of word characters. -/
def isWordy : Token → Bool
  | .word _ | .number _ => true
  | _ => false

/-- A word is an identifier. -/
def Proper : Token → Prop
  | .word x => Identifier.isLegal x = true
  | _ => True

/-- Whether a token may stand directly behind another one. -/
def follows (t : Token) : Token → Bool
  | .word _ => !t.isWordy
  | .number _ => !t.isWordy && t != .dot
  | u => !(u.isSign && t.isSign)

end Token

/-- A piece of code: a token, or blank space. -/
inductive Piece where
  | token (t : Token)
  | blank (s : String)

namespace Piece

/-- The code of a piece. -/
def code : Piece → String
  | .token t => t.text
  | .blank s => s

/-- A word is an identifier, and blank space is blank but not empty. -/
def Proper : Piece → Prop
  | .token t => t.Proper
  | .blank s => s ≠ "" ∧ ∀ c ∈ s.toList, isCodeBlank c = true

/-- The code of pieces one after the other. -/
def codeOf : List Piece → String
  | [] => ""
  | p :: ps => p.code ++ codeOf ps

/-- The tokens of pieces. -/
def tokensOf : List Piece → List Token
  | [] => []
  | .token t :: ps => t :: tokensOf ps
  | .blank _ :: ps => tokensOf ps

/-- Whether no token runs into the next one, behind a last token if there is one. -/
def apart : Option Token → List Piece → Bool
  | _, [] => true
  | last, .token t :: ps => last.all t.follows && apart (some t) ps
  | _, .blank _ :: ps => apart none ps

theorem codeOf_append (ps qs : List Piece) : codeOf (ps ++ qs) = codeOf ps ++ codeOf qs := by
  induction ps with
  | nil => simp [codeOf]
  | cons p ps ih => simp [codeOf, ih, String.append_assoc]

theorem tokensOf_append (ps qs : List Piece) : tokensOf (ps ++ qs) = tokensOf ps ++ tokensOf qs := by
  induction ps with
  | nil => rfl
  | cons p ps ih => cases p <;> simp [tokensOf, ih]

end Piece

/-! ## Scanning -/

theorem not_isWordChar_of_isCodeBlank {c : Char} (h : isCodeBlank c = true) : isWordChar c = false := by
  simp only [isCodeBlank, Bool.or_eq_true, beq_iff_eq] at h
  rcases h with (((rfl | rfl) | rfl) | rfl) | rfl <;> decide

theorem scan_wordChars {cs : List Char} (h : ∀ c ∈ cs, isWordChar c = true) (tokens : List Token) (word : List Char) :
    cs.foldlM Scanner.step { tokens, word } = some { tokens, word := word ++ cs } := by
  induction cs generalizing word with
  | nil => simp
  | cons c cs ih =>
    rw [List.foldlM_cons, Scanner.step, if_pos (h c List.mem_cons_self)]
    simpa using ih (fun d hd => h d (List.mem_cons_of_mem _ hd)) (word ++ [c])

/-- An identifier starts with no digit. -/
theorem head_of_isLegal {x : String} (h : Identifier.isLegal x = true) : ∃ c cs, x.toList = c :: cs ∧ isDigit c = false := by
  unfold Identifier.isLegal at h
  cases hx : x.toList with
  | nil =>
    rw [hx] at h
    cases h
  | cons c cs =>
    rw [hx] at h
    simp only [Bool.and_eq_true, Bool.or_eq_true, beq_iff_eq] at h
    refine ⟨c, cs, rfl, ?_⟩
    rcases h.1 with hletter | rfl
    · exact Operators.isDigit_of_isLetter hletter
    · decide

/-- What is written for a word or a number is one run of word characters, which is this token. -/
theorem ofWord?_text {t : Token} (h : t.Proper) (hwordy : t.isWordy = true) :
    Token.ofWord? t.text.toList = some t ∧ t.text.toList ≠ [] ∧ (∀ c ∈ t.text.toList, isWordChar c = true) := by
  cases t with
  | word x =>
    obtain ⟨c, cs, hx, hdigit⟩ := head_of_isLegal h
    have hword : String.ofList (c :: cs) = x := by rw [← hx, String.ofList_toList]
    have hchars : ∀ d ∈ x.toList, isWordChar d = true := Identifier.isWordChar_of_mem h
    rw [hx] at hchars
    rw [Token.text, hx]
    exact ⟨by simp [Token.ofWord?, hdigit, hword], List.cons_ne_nil _ _, hchars⟩
  | number n =>
    have htext : (Token.number n).text.toList = Nat.toDigits 10 n := by rw [Token.text, ofNat, String.toList_ofList]
    have hdigits : ∀ c ∈ Nat.toDigits 10 n, isDigit c = true := fun c hc => Identifier.isDigit_of_mem_toDigits hc
    have hvalue : Nat.ofDigitChars 10 (Nat.toDigits 10 n) 0 = n := Nat.ofDigitChars_toDigits (by decide) (by decide)
    rw [htext]
    refine ⟨?_, Nat.toDigits_ne_nil, fun c hc => Identifier.isWordChar_of_isDigit (hdigits c hc)⟩
    cases hcs : Nat.toDigits 10 n with
    | nil => exact absurd hcs Nat.toDigits_ne_nil
    | cons c cs =>
      rw [hcs] at hdigits hvalue
      simp [Token.ofWord?, hdigits c List.mem_cons_self, hvalue, hcs]
  | _ => cases hwordy

/-- Every other token is one character. -/
theorem text_mark {t : Token} (hmark : t.isWordy = false) :
    ∃ c, t.text.toList = [c] ∧ isWordChar c = false ∧ isCodeBlank c = false ∧ Token.ofMark? c = some t := by
  cases t with
  | word x => cases hmark
  | number n => cases hmark
  | _ => exact ⟨_, rfl, by decide, by decide, rfl⟩

namespace Scanner

/-- The scanner behind tokens, the last one of which may be directly behind it. -/
def behind (tokens : List Token) : Option Token → Scanner
  | none => { tokens }
  | some t =>
    if t.isWordy then { tokens, word := t.text.toList } else { tokens := t :: tokens, behindSign := t.isSign }

theorem ended?_behind (tokens : List Token) {last : Option Token} (h : ∀ t ∈ last, t.Proper) :
    (behind tokens last).ended? = some (last.toList ++ tokens) := by
  cases last with
  | none => rfl
  | some t =>
    cases hwordy : t.isWordy with
    | true =>
      obtain ⟨hword, hne, -⟩ := ofWord?_text (h t rfl) hwordy
      have hne' : t.text ≠ "" := by simpa using hne
      simp [behind, hwordy, ended?, hword, hne']
    | false => simp [behind, hwordy, ended?]

theorem step_blank {tokens : List Token} {last : Option Token} (h : ∀ t ∈ last, t.Proper) {c : Char}
    (hc : isCodeBlank c = true) : step (behind tokens last) c = some (behind (last.toList ++ tokens) none) := by
  rw [step, if_neg (by simp [not_isWordChar_of_isCodeBlank hc]), ended?_behind tokens h]
  exact if_pos hc

theorem scan_blank {tokens : List Token} {last : Option Token} (h : ∀ t ∈ last, t.Proper) {cs : List Char}
    (hne : cs ≠ []) (hcs : ∀ c ∈ cs, isCodeBlank c = true) :
    cs.foldlM step (behind tokens last) = some (behind (last.toList ++ tokens) none) := by
  induction cs generalizing tokens last with
  | nil => exact absurd rfl hne
  | cons c cs ih =>
    rw [List.foldlM_cons, step_blank h (hcs c List.mem_cons_self), Option.bind_eq_bind, Option.bind_some]
    cases cs with
    | nil => rfl
    | cons d cs =>
      have hrest := @ih (last.toList ++ tokens) none (by simp) (by simp) fun e he => hcs e (List.mem_cons_of_mem _ he)
      simpa using hrest

theorem scan_token {tokens : List Token} {last : Option Token} (h : ∀ t ∈ last, t.Proper) {t : Token} (ht : t.Proper)
    (hfollows : last.all t.follows = true) :
    t.text.toList.foldlM step (behind tokens last) = some (behind (last.toList ++ tokens) (some t)) := by
  cases hwordy : t.isWordy with
  | true =>
    -- a word or a number begins behind a mark or behind blank space
    have hnone : ∃ behindSign, behind tokens last = { tokens := last.toList ++ tokens, behindSign } := by
      cases last with
      | none => exact ⟨false, rfl⟩
      | some u =>
        have hmark : u.isWordy = false := by
          cases u with
          | word x => simp [Token.follows, hwordy] at hfollows
          | number n => simp [Token.follows, hwordy] at hfollows
          | _ => rfl
        exact ⟨u.isSign, by simp [behind, hmark]⟩
    obtain ⟨behindSign, hbehind⟩ := hnone
    obtain ⟨-, hne, hchars⟩ := ofWord?_text ht hwordy
    rw [hbehind, behind, if_pos hwordy]
    cases hcs : t.text.toList with
    | nil => exact absurd hcs hne
    | cons c cs =>
      rw [hcs] at hchars
      rw [List.foldlM_cons, step, if_pos (hchars c List.mem_cons_self)]
      exact scan_wordChars (fun d hd => hchars d (List.mem_cons_of_mem _ hd)) _ [c]
  | false =>
    obtain ⟨c, htext, hword, hblank, hmark⟩ := text_mark hwordy
    have hsign : (t.isSign && (behind tokens last).behindSign) = false := by
      cases last with
      | none => simp [behind]
      | some u =>
        cases u <;> simp_all [behind, Token.follows, Token.isWordy, Token.isSign]
    have hpoint : (decide (t = .dot) && (behind tokens last).word.head?.any isDigit) = false := by
      cases last with
      | none => simp [behind]
      | some u =>
        cases u with
        | word x =>
          obtain ⟨c, cs, hx, hdigit⟩ := head_of_isLegal (h _ rfl)
          simp [behind, Token.isWordy, Token.text, hx, hdigit]
        | number n =>
          have hdot : t ≠ .dot := by simpa [Token.follows, hwordy] using hfollows
          simp [hdot]
        | _ => simp [behind, Token.isWordy]
    have hlast : behind (last.toList ++ tokens) (some t) =
        { tokens := t :: (last.toList ++ tokens), behindSign := t.isSign } := by
      simp [behind, hwordy]
    rw [htext, List.foldlM_cons, step, if_neg (by simp [hword]), ended?_behind tokens h, hlast]
    simp [hblank, hmark, hsign, hpoint]

/-- Scanning written code finds its tokens. -/
theorem scan_codeOf {ps : List Piece} (hps : ∀ p ∈ ps, p.Proper) (tokens : List Token) {last : Option Token}
    (h : ∀ t ∈ last, t.Proper) (hapart : Piece.apart last ps = true) :
    ((Piece.codeOf ps).toList.foldlM step (behind tokens last)).bind ended? =
      some ((Piece.tokensOf ps).reverse ++ (last.toList ++ tokens)) := by
  induction ps generalizing tokens last with
  | nil => exact ended?_behind tokens h
  | cons p ps ih =>
    have hrest : ∀ q ∈ ps, q.Proper := fun q hq => hps q (List.mem_cons_of_mem _ hq)
    have hp := hps p List.mem_cons_self
    rw [Piece.codeOf, String.toList_append, List.foldlM_append]
    cases p with
    | token t =>
      rw [Piece.apart, Bool.and_eq_true] at hapart
      have hlast : ∀ u ∈ some t, u.Proper := by
        rintro u ⟨⟩
        exact hp
      rw [Piece.code, scan_token h hp hapart.1, Option.bind_eq_bind, Option.bind_some, ih hrest _ hlast hapart.2]
      simp [Piece.tokensOf]
    | blank s =>
      rw [Piece.apart] at hapart
      rw [Piece.code, scan_blank h (by simpa using hp.1) hp.2, Option.bind_eq_bind, Option.bind_some,
        ih hrest _ (by simp) hapart]
      simp [Piece.tokensOf]

end Scanner

/-- Written code is cut into its tokens. -/
theorem tokens?_codeOf {ps : List Piece} (hps : ∀ p ∈ ps, p.Proper) (hapart : Piece.apart none ps = true) :
    tokens? (Piece.codeOf ps).toList = some (Piece.tokensOf ps) := by
  have hnone : ∀ t ∈ (none : Option Token), t.Proper := by simp
  have hscan := Scanner.scan_codeOf hps [] hnone hapart
  rw [tokens?]
  exact (congrArg (Option.map List.reverse) hscan).trans (by simp)

/-! ## Written trees -/

/-- A single space. -/
def Piece.space : Piece := .blank " "

theorem Piece.proper_space : Piece.space.Proper := ⟨by decide, by simp [isCodeBlank]⟩

namespace Piece

/-- A single space, or a token that is no brace in front of lines. -/
def Inline : Piece → Prop
  | .token t => t.Proper ∧ t ≠ .openingBrace
  | .blank s => s = " "

theorem Inline.proper : ∀ {p : Piece}, p.Inline → p.Proper
  | .token _, h => h.1
  | .blank _, h => by
    cases h
    exact proper_space

/-- Neither a brace in front of lines nor a line feed is in the code of such a piece. -/
theorem Inline.plain {p : Piece} (h : p.Inline) : ∀ c ∈ p.code.toList, c ≠ '\x7b' ∧ c ≠ '\n' := by
  intro c hc
  cases p with
  | token t =>
    cases hwordy : t.isWordy with
    | true =>
      have hchar := (ofWord?_text h.1 hwordy).2.2 c hc
      constructor <;> rintro rfl <;> exact absurd hchar (by decide)
    | false =>
      obtain ⟨d, htext, -, hblank, hmark⟩ := text_mark hwordy
      rw [code, htext, List.mem_singleton] at hc
      subst hc
      constructor
      · rintro rfl
        exact h.2 (Option.some.inj hmark).symm
      · rintro rfl
        exact absurd hblank (by decide)
  | blank s =>
    cases h
    have hspace : c = ' ' := by simpa [code] using hc
    subst hspace
    decide

theorem plain_codeOf {ps : List Piece} (h : ∀ p ∈ ps, p.Inline) : ∀ c ∈ (codeOf ps).toList, c ≠ '\x7b' ∧ c ≠ '\n' := by
  induction ps with
  | nil => simp [codeOf]
  | cons p ps ih =>
    rw [List.forall_mem_cons] at h
    rw [codeOf, String.toList_append, List.forall_mem_append]
    exact ⟨h.1.plain, ih h.2⟩

end Piece

/-- In parentheses. -/
def parenthesized (ps : List Piece) : List Piece := .token .opening :: (ps ++ [.token .closing])

namespace Expr

/-- Whether an expression is a name, or what is done to something. -/
def isUse : Expr → Bool
  | .name _ | .member _ _ | .item _ _ | .call _ _ => true
  | _ => false

/-- Whether an expression is a use or a number. -/
def isOperand (a : Expr) : Bool :=
  match a with
  | .number _ => true
  | _ => a.isUse

/-- An expression behind a sign. -/
def grouped (a : Expr) (ps : List Piece) : List Piece := if a.isOperand then ps else parenthesized ps

/-- An expression to which something is done. -/
def based (a : Expr) (ps : List Piece) : List Piece := if a.isUse then ps else parenthesized ps

end Expr

mutual

/-- An expression as it is written. -/
def Expr.pieces : Expr → List Piece
  | .number n => [.token (.number n)]
  | .name x => [.token (.word x)]
  | .negative a => .token .minus :: a.grouped a.pieces
  | .sum a b => a.pieces ++ .space :: .token .plus :: .space :: b.grouped b.pieces
  | .difference a b => a.pieces ++ .space :: .token .minus :: .space :: b.grouped b.pieces
  | .member a property => a.based a.pieces ++ [.token .dot, .token (.word property)]
  | .item a index => a.based a.pieces ++ .token .openingBracket :: (index.pieces ++ [.token .closingBracket])
  | .call callee arguments =>
    callee.based callee.pieces ++ .token .opening :: (argumentPieces arguments ++ [.token .closing])

/-- Arguments as they are written. -/
def argumentPieces : List Expr → List Piece
  | [] => []
  | [a] => a.pieces
  | a :: b :: rest => a.pieces ++ .token .comma :: .space :: argumentPieces (b :: rest)

end

mutual

/-- The words in an expression. -/
def Expr.words : Expr → List String
  | .number _ => []
  | .name x => [x]
  | .negative a => a.words
  | .sum a b | .difference a b | .item a b => a.words ++ b.words
  | .member a property => property :: a.words
  | .call callee arguments => callee.words ++ argumentWords arguments

/-- The words in arguments. -/
def argumentWords : List Expr → List String
  | [] => []
  | a :: rest => a.words ++ argumentWords rest

end

theorem argumentWords_append (as bs : List Expr) : argumentWords (as ++ bs) = argumentWords as ++ argumentWords bs := by
  induction as with
  | nil => rfl
  | cons a as ih => rw [List.cons_append, argumentWords, argumentWords, ih, List.append_assoc]

end Blockwright.Script
