import Blockwright.Proofs.Script.Reading
import Blockwright.Proofs.Text.Indentation
/-!
# Functions and the bodies of helpers

A function that declares variables and gives back a value is read back from its code, under
whatever indentation this was written. A helper's body has a mark for its name and two spaces in front of
each line between its braces. Filled in and indented anew it is the code of a function, as this is written
under the new indentation.
-/

/-! ## Written functions -/

namespace Blockwright.Script

open Text

theorem proper_word {x : String} (h : Identifier.isLegal x = true) : (Piece.token (.word x)).Proper := h

/-! ## Parameters -/

/-- Parameters as they are written. -/
def parameterPieces : List String → List Piece
  | [] => []
  | [x] => [.token (.word x)]
  | x :: y :: rest => .token (.word x) :: .token .comma :: .space :: parameterPieces (y :: rest)

theorem codeOf_parameterPieces : ∀ parameters : List String,
    Piece.codeOf (parameterPieces parameters) = joinWith ", " parameters
  | [] => rfl
  | [x] => by simp [parameterPieces, Piece.codeOf, Piece.code, Token.text, joinWith]
  | x :: y :: rest => by
    have hrest := codeOf_parameterPieces (y :: rest)
    simp only [parameterPieces, Piece.codeOf, hrest, joinWith, String.append_assoc]
    rfl

theorem readParameters_tokens : ∀ (x : String) (parameters : List String) (rest : List Token),
    readParameters (Piece.tokensOf (parameterPieces (x :: parameters)) ++ .closing :: rest) = some (x :: parameters, rest)
  | x, [], rest => rfl
  | x, y :: parameters, rest => by
    have hmore := readParameters_tokens y parameters rest
    simp only [parameterPieces, Piece.tokensOf, Piece.space, List.cons_append, readParameters, hmore]
    rfl

theorem apart_parameterPieces {qs : List Piece} (hqs : Piece.apart (some .closing) qs = true) :
    ∀ (x : String) (parameters : List String) {last : Option Token}, (∀ t ∈ last, t.isWordy = false) →
      Piece.apart last (parameterPieces (x :: parameters) ++ .token .closing :: qs) = true
  | x, parameters, last, hlast => by
    have hword : last.all (Token.word x).follows = true :=
      (Option.all_eq_true _ _).2 fun u hu => Token.follows_of_mark (hlast u hu) (.inl rfl)
    cases parameters with
    | nil =>
      rw [parameterPieces, List.singleton_append, Piece.apart, hword, Piece.apart, hqs]
      rfl
    | cons y parameters =>
      have hrest : Piece.apart none (parameterPieces (y :: parameters) ++ .token .closing :: qs) = true :=
        apart_parameterPieces hqs y parameters (by simp)
      rw [parameterPieces, List.cons_append, Piece.apart, hword]
      exact hrest

theorem proper_parameterPieces : ∀ {parameters : List String}, (∀ x ∈ parameters, Identifier.isLegal x = true) →
    ∀ p ∈ parameterPieces parameters, p.Proper
  | [], _ => by simp [parameterPieces]
  | [x], h => by
    simp only [parameterPieces, List.forall_mem_cons]
    exact ⟨h x (List.mem_singleton_self x), by simp⟩
  | x :: y :: rest, h => by
    rw [List.forall_mem_cons] at h
    simp only [parameterPieces, List.forall_mem_cons]
    exact ⟨h.1, trivial, Piece.proper_space, proper_parameterPieces h.2⟩

/-! ## Bodies -/

/-- A line of a function's body behind its indentation, with the line feed in front. -/
def linePieces (indent : String) (ps : List Piece) : List Piece := .blank ("\n" ++ indent) :: (ps ++ [.token .semicolon])

theorem tokensOf_linePieces (indent : String) (ps : List Piece) :
    Piece.tokensOf (linePieces indent ps) = Piece.tokensOf ps ++ [Token.semicolon] := Piece.tokensOf_append _ _

/-- Whatever is in front of a line is apart from it, and an expression at its end from the semicolon. -/
theorem apart_linePieces (last : Option Token) (indent : String) {ps qs : List Piece} (a : Expr)
    (hps : ∀ rest, Piece.apart none (ps ++ rest) = Piece.apart none rest) (hqs : Piece.apart (some .semicolon) qs = true) :
    Piece.apart last (linePieces indent (ps ++ a.pieces) ++ qs) = true := by
  rw [linePieces, List.cons_append, Piece.apart, List.append_assoc, List.append_assoc, hps]
  exact apart_behind a ⟨rfl, by simp⟩ hqs

theorem proper_linePieces {indent : String} (hindent : ∀ c ∈ indent.toList, isCodeBlank c = true) {ps : List Piece}
    (h : ∀ p ∈ ps, p.Proper) : ∀ p ∈ linePieces indent ps, p.Proper := by
  have hblank : (Piece.blank ("\n" ++ indent)).Proper := by
    refine ⟨by simp, fun c hc => ?_⟩
    rw [String.toList_append, List.mem_append] at hc
    exact hc.elim (proper_line.2 c) (hindent c)
  simp only [linePieces, List.forall_mem_cons, List.forall_mem_append]
  exact ⟨hblank, h, trivial, by simp⟩

namespace Function

/-- A declaration in front of its value. -/
def declarationPieces (x : String) : List Piece :=
  [.token (.word "var"), .space, .token (.word x), .space, .token .equals, .space]

/-- A result in front of its value. -/
def resultPieces : List Piece := [.token (.word "return"), .space]

/-- The body of a function as it is written, with the brace behind it. -/
def bodyPieces (indent : String) : List (String × Expr) → Expr → List Piece
  | [], result => linePieces indent (resultPieces ++ result.pieces) ++ [.blank "\n", .token .closingBrace]
  | (x, value) :: rest, result => linePieces indent (declarationPieces x ++ value.pieces) ++ bodyPieces indent rest result

variable (indent : String) (declarations : List (String × Expr)) (result : Expr)

theorem tokensOf_bodyPieces_nil :
    Piece.tokensOf (bodyPieces indent [] result) = .word "return" :: (result.tokens ++ [Token.semicolon, .closingBrace]) := by
  simp [bodyPieces, resultPieces, tokensOf_linePieces, Piece.tokensOf_append, Piece.tokensOf, Piece.space, Expr.tokens]

theorem tokensOf_bodyPieces_cons (x : String) (value : Expr) :
    Piece.tokensOf (bodyPieces indent ((x, value) :: declarations) result) =
      .word "var" :: .word x :: .equals :: (value.tokens ++ .semicolon ::
        Piece.tokensOf (bodyPieces indent declarations result)) := by
  simp [bodyPieces, declarationPieces, tokensOf_linePieces, Piece.tokensOf_append, Piece.tokensOf, Piece.space, Expr.tokens]

theorem readBody_tokens {steps : Nat} (hsteps : declarations.length ≤ steps) :
    readBody steps (Piece.tokensOf (bodyPieces indent declarations result)) = some (declarations, result) := by
  induction declarations generalizing steps with
  | nil =>
    have hread : readExpr (result.tokens ++ [Token.semicolon, .closingBrace]) = some (result, [.semicolon, .closingBrace]) :=
      readExpr_tokens result (by simp [EndsUse]) (by simp [EndsTerms])
    rw [tokensOf_bodyPieces_nil, readBody, hread]
  | cons d rest ih =>
    obtain ⟨x, value⟩ := d
    rw [List.length_cons] at hsteps
    obtain ⟨steps, rfl⟩ := Nat.exists_eq_add_of_le' (show 1 ≤ steps by omega)
    have hread : readExpr (value.tokens ++ .semicolon :: Piece.tokensOf (bodyPieces indent rest result)) =
        some (value, .semicolon :: Piece.tokensOf (bodyPieces indent rest result)) :=
      readExpr_tokens value (by simp [EndsUse]) (by simp [EndsTerms])
    rw [tokensOf_bodyPieces_cons, readBody, hread]
    simp only [ih (show rest.length ≤ steps by omega)]
    rfl

theorem length_declarations : declarations.length ≤ (Piece.tokensOf (bodyPieces indent declarations result)).length := by
  induction declarations with
  | nil => simp
  | cons d rest ih =>
    rw [tokensOf_bodyPieces_cons indent rest result d.1 d.2]
    simp only [List.length_cons, List.length_append]
    omega

theorem apart_bodyPieces (last : Option Token) : Piece.apart last (bodyPieces indent declarations result) = true := by
  induction declarations generalizing last with
  | nil => exact apart_linePieces last indent result (fun _ => rfl) rfl
  | cons d rest ih => exact apart_linePieces last indent d.2 (fun _ => rfl) (ih _)

variable {indent declarations result} in
theorem proper_bodyPieces (hindent : ∀ c ∈ indent.toList, isCodeBlank c = true)
    (hdeclarations : ∀ d ∈ declarations, Identifier.isLegal d.1 = true ∧ ∀ x ∈ d.2.words, Identifier.isLegal x = true)
    (hresult : ∀ x ∈ result.words, Identifier.isLegal x = true) :
    ∀ p ∈ bodyPieces indent declarations result, p.Proper := by
  induction declarations with
  | nil =>
    simp only [bodyPieces, List.forall_mem_append, List.forall_mem_cons]
    refine ⟨proper_linePieces hindent ?_, proper_line, trivial, by simp⟩
    simp only [resultPieces, List.forall_mem_append, List.forall_mem_cons]
    exact ⟨⟨proper_word (by decide), Piece.proper_space, by simp⟩, proper_pieces result hresult⟩
  | cons d rest ih =>
    rw [List.forall_mem_cons] at hdeclarations
    simp only [bodyPieces, List.forall_mem_append]
    refine ⟨proper_linePieces hindent ?_, ih hdeclarations.2⟩
    simp only [declarationPieces, List.forall_mem_append, List.forall_mem_cons]
    exact ⟨⟨proper_word (by decide), Piece.proper_space, hdeclarations.1.1, Piece.proper_space, trivial,
        Piece.proper_space, by simp⟩,
      proper_pieces d.2 hdeclarations.1.2⟩

/-! ## Functions -/

/-- A function as it is written under an indentation. -/
def pieces (indent : String) (f : Function) : List Piece :=
  .token (.word "function") :: .space :: .token (.word f.name) :: .token .opening :: (parameterPieces f.parameters
    ++ .token .closing :: .space :: .token .openingBrace :: bodyPieces indent f.declarations f.result)

/-- The code of a function as it is written under an indentation. -/
def code (indent : String) (f : Function) : String := Piece.codeOf (f.pieces indent)

/-- The tree of code that is one function. -/
def ofCode? (code : String) : Option Function := (tokens? code.toList).bind Function.parse

/-- All words of the function are identifiers. -/
structure IsLegal (f : Function) : Prop where
  name : Identifier.isLegal f.name = true
  parameters : ∀ x ∈ f.parameters, Identifier.isLegal x = true
  declarations : ∀ d ∈ f.declarations, Identifier.isLegal d.1 = true ∧ ∀ x ∈ d.2.words, Identifier.isLegal x = true
  result : ∀ x ∈ f.result.words, Identifier.isLegal x = true

/-- Written code of a function with parameters is read as that function. -/
theorem ofCode?_code {f : Function} (hlegal : f.IsLegal) (hparameters : f.parameters ≠ []) {indent : String}
    (hindent : ∀ c ∈ indent.toList, isCodeBlank c = true) : ofCode? (f.code indent) = some f := by
  obtain ⟨name, parameters, declarations, result⟩ := f
  obtain ⟨x, parameters, rfl⟩ := List.exists_cons_of_ne_nil hparameters
  have hproper : ∀ p ∈ pieces indent ⟨name, x :: parameters, declarations, result⟩, p.Proper := by
    simp only [pieces, List.forall_mem_append, List.forall_mem_cons]
    exact ⟨proper_word (by decide), Piece.proper_space, hlegal.name, trivial,
      proper_parameterPieces hlegal.parameters, trivial, Piece.proper_space, trivial, proper_bodyPieces hindent hlegal.declarations hlegal.result⟩
  have hbody : Piece.apart (some .closing) (.space :: .token .openingBrace :: bodyPieces indent declarations result) = true :=
    apart_bodyPieces indent declarations result _
  have hapart : Piece.apart none (pieces indent ⟨name, x :: parameters, declarations, result⟩) = true :=
    apart_parameterPieces hbody x parameters (by simp [Token.isWordy])
  have htokens : Piece.tokensOf (pieces indent ⟨name, x :: parameters, declarations, result⟩) =
      .word "function" :: .word name :: .opening :: (Piece.tokensOf (parameterPieces (x :: parameters)) ++
        .closing :: .openingBrace :: Piece.tokensOf (bodyPieces indent declarations result)) := by
    simp [pieces, Piece.tokensOf, Piece.tokensOf_append, Piece.space]
  rw [ofCode?, code, tokens?_codeOf hproper hapart, Option.bind_some, htokens, parse, readParameters_tokens]
  simp only [readBody_tokens indent declarations result (length_declarations indent declarations result)]
  rfl

end Function
end Blockwright.Script

namespace Blockwright.Text

/-! ## Lines -/

theorem splitChars_append {sep : Char} {piece : List Char} (h : sep ∉ piece) (rest : List Char) :
    splitChars sep (piece ++ sep :: rest) = piece :: splitChars sep rest := by
  induction piece with
  | nil => simp [splitChars]
  | cons c cs ih =>
    rw [List.mem_cons, not_or] at h
    rw [List.cons_append, splitChars, if_neg (Ne.symm h.1), ih h.2]

theorem splitChars_intercalate {sep : Char} {piece : List Char} {pieces : List (List Char)}
    (h : ∀ p ∈ piece :: pieces, sep ∉ p) : splitChars sep ([sep].intercalate (piece :: pieces)) = piece :: pieces := by
  induction pieces generalizing piece with
  | nil =>
    rw [show [sep].intercalate [piece] = piece by simp [List.intercalate]]
    exact (splitChars_eq_singleton_iff sep piece).2 (h piece List.mem_cons_self)
  | cons next pieces ih =>
    rw [List.forall_mem_cons] at h
    have hcut : [sep].intercalate (piece :: next :: pieces) = piece ++ sep :: [sep].intercalate (next :: pieces) := by
      simp [List.intercalate]
    rw [hcut, splitChars_append h.1, ih h.2]

/-- Lines that are put together are the lines of the text. -/
theorem splitOn_joinWith {line : String} {lines : List String} (h : ∀ l ∈ line :: lines, '\n' ∉ l.toList) :
    splitOn '\n' (joinWith "\n" (line :: lines)) = line :: lines := by
  have hchars : ∀ p ∈ (line :: lines).map String.toList, '\n' ∉ p := by
    intro p hp
    obtain ⟨l, hl, rfl⟩ := List.mem_map.1 hp
    exact h l hl
  rw [splitOn, toList_joinWith]
  have hsplit : splitChars '\n' (['\n'].intercalate ((line :: lines).map String.toList)) = (line :: lines).map String.toList :=
    splitChars_intercalate hchars
  rw [show "\n".toList = ['\n'] from rfl, hsplit, List.map_map]
  exact (List.map_congr_left fun l _ => String.ofList_toList).trans (List.map_id _)

/-! ## Indented lines -/

theorem indented_flush (unit : String) {line : String} (h : line.toList.head? ≠ some ' ') : indented unit line = line := by
  cases hline : line.toList with
  | nil =>
    rw [indented, hline]
    simpa [indentedChars, leadingSpaces] using (String.toList_eq_nil_iff.1 hline).symm
  | cons c cs =>
    have hc : c ≠ ' ' := by simpa [hline] using h
    rw [indented, hline, indentedChars_of_no_pair _ (fun hspace => absurd hspace hc), ← hline, String.ofList_toList]

/-- A line at the first level. -/
theorem indented_level (unit : String) {line : String} (h : line.toList.head? ≠ some ' ') :
    indented unit ("  " ++ line) = unit ++ line := by
  have hchars : ("  " ++ line).toList = ' ' :: ' ' :: line.toList := String.toList_append
  have hflush : String.ofList (indentedChars unit.toList line.toList) = line := indented_flush unit h
  rw [indented, hchars, indentedChars_pair, String.ofList_append, String.ofList_toList, hflush]

/-! ## Marks -/

/-- What holds no first character of the mark is passed over. -/
theorem replaceAfter_append {f : Char} {cs : List Char} (h : f ∉ cs) (fs put rest : List Char) :
    replaceAfter (f :: fs) put 0 (cs ++ rest) = cs ++ replaceAfter (f :: fs) put 0 rest := by
  induction cs with
  | nil => rfl
  | cons c cs ih =>
    rw [List.mem_cons, not_or] at h
    have hno : (f :: fs).isPrefixOf (c :: (cs ++ rest)) = false := by simp [List.isPrefixOf, h.1]
    rw [List.cons_append, replaceAfter, if_neg (by simp [hno]), ih h.2, List.cons_append]

theorem replaceAfter_mark {f : Char} (fs put rest : List Char) :
    replaceAfter (f :: fs) put 0 (f :: (fs ++ rest)) = put ++ replaceAfter (f :: fs) put 0 rest := by
  have hyes : (f :: fs).isPrefixOf (f :: (fs ++ rest)) = true := List.isPrefixOf_iff_prefix.2 (List.prefix_append _ rest)
  rw [replaceAfter, if_pos hyes, Scan.replaceAfter_drop]
  simp

end Blockwright.Text

namespace Blockwright.Emit

open Text

/-- A body with one mark, behind which a brace at the end of the first line is the only one that opens. -/
theorem replaceAll_functionMark (name : String) {front back : List Char} (hfront : '\x7b' ∉ front)
    {more : List Char} (hback : '\x7b' ∉ back) (hmore : '\x7b' ∉ more) :
    replaceAfter functionMark.toList name.toList 0 (front ++ functionMark.toList ++ back ++ '\x7b' :: '\n' :: more) =
      front ++ name.toList ++ back ++ '\x7b' :: '\n' :: more := by
  have hmark : functionMark.toList = '\x7b' :: ("functionName\x7d".toList) := rfl
  have hbrace : functionMark.toList.isPrefixOf ('\x7b' :: '\n' :: more) = false := rfl
  have hlines : replaceAfter functionMark.toList name.toList 0 ('\n' :: more) = '\n' :: more := by
    have hno : '\x7b' ∉ '\n' :: more := by simpa using hmore
    have hall := replaceAfter_append hno "functionName\x7d".toList name.toList []
    rwa [List.append_nil, replaceAfter, List.append_nil] at hall
  have hopen : replaceAfter functionMark.toList name.toList 0 ('\x7b' :: '\n' :: more) = '\x7b' :: '\n' :: more := by
    rw [replaceAfter, if_neg (by simp [hbrace]), hlines]
  have hbehind : replaceAfter functionMark.toList name.toList 0 (back ++ '\x7b' :: '\n' :: more) =
      back ++ '\x7b' :: '\n' :: more := by
    rw [hmark, replaceAfter_append hback, ← hmark, hopen]
  rw [List.append_assoc, List.append_assoc, hmark, replaceAfter_append hfront, List.cons_append, replaceAfter_mark, ← hmark,
    hbehind]
  simp

/-- The code of a helper whose lines between the braces are all at the first level. -/
theorem helperCode_lines (indent name : String) {parameters : String} {lines : List String}
    (hparameters : ∀ c ∈ parameters.toList, c ≠ '\x7b' ∧ c ≠ '\n') (hname : '\n' ∉ name.toList)
    (hlines : ∀ line ∈ lines, line.toList.head? ≠ some ' ' ∧ ∀ c ∈ line.toList, c ≠ '\x7b' ∧ c ≠ '\n') :
    helperCode indent name (joinWith "\n" (("function " ++ functionMark ++ "(" ++ parameters ++ ") \x7b") ::
        (lines.map ("  " ++ ·) ++ ["\x7d"]))) =
      joinWith "\n" (("function " ++ name ++ "(" ++ parameters ++ ") \x7b") :: (lines.map (indent ++ ·) ++ ["\x7d"])) := by
  obtain ⟨next, rest, hnext⟩ : ∃ next rest, lines.map ("  " ++ ·) ++ ["\x7d"] = next :: rest := by
    cases lines <;> exact ⟨_, _, rfl⟩
  have hmore : ∀ line ∈ next :: rest, '\x7b' ∉ line.toList ∧ '\n' ∉ line.toList := by
    rw [← hnext]
    simp only [List.forall_mem_append, List.forall_mem_map, List.forall_mem_cons]
    refine ⟨fun line hline => ?_, ⟨by decide, by decide⟩, by simp⟩
    have hchars := (hlines line hline).2
    rw [String.toList_append, List.mem_append, List.mem_append, not_or, not_or]
    exact ⟨⟨by decide, fun hmem => (hchars _ hmem).1 rfl⟩, by decide, fun hmem => (hchars _ hmem).2 rfl⟩
  have hbraces : '\x7b' ∉ (joinWith "\n" (next :: rest)).toList := by
    intro hmem
    rcases mem_joinWith hmem with hfeed | ⟨line, hline, hbrace⟩
    · exact absurd hfeed (by decide)
    · exact (hmore line hline).1 hbrace
  have hfilled : replaceAll functionMark name (joinWith "\n" (("function " ++ functionMark ++ "(" ++ parameters ++ ") \x7b") ::
      (next :: rest))) = joinWith "\n" (("function " ++ name ++ "(" ++ parameters ++ ") \x7b") :: (next :: rest)) := by
    have hback : '\x7b' ∉ "(".toList ++ parameters.toList ++ ") ".toList := by
      simp only [List.mem_append, not_or]
      exact ⟨⟨by decide, fun hmem => (hparameters _ hmem).1 rfl⟩, by decide⟩
    have hchars := replaceAll_functionMark name (show '\x7b' ∉ "function ".toList by decide) hback hbraces
    rw [replaceAll, joinWith, joinWith]
    refine String.toList_injective ?_
    simpa [String.toList_append] using hchars
  have hheader : ∀ line ∈ ("function " ++ name ++ "(" ++ parameters ++ ") \x7b") :: (next :: rest), '\n' ∉ line.toList := by
    refine List.forall_mem_cons.2 ⟨?_, fun line hline => (hmore line hline).2⟩
    simp only [String.toList_append, List.mem_append, not_or]
    exact ⟨⟨⟨⟨by decide, hname⟩, by decide⟩, fun hmem => (hparameters _ hmem).2 rfl⟩, by decide⟩
  have hflush : indented indent ("function " ++ name ++ "(" ++ parameters ++ ") \x7b") =
      "function " ++ name ++ "(" ++ parameters ++ ") \x7b" :=
    indented_flush indent (by simp [String.toList_append])
  have hlevel : (lines.map ("  " ++ ·)).map (indented indent) = lines.map (indent ++ ·) := by
    rw [List.map_map]
    exact List.map_congr_left fun line hline => indented_level indent (hlines line hline).1
  have hclosing : indented indent "\x7d" = "\x7d" := indented_flush indent (by decide)
  rw [hnext, helperCode_eq_reindent, hfilled, reindent_eq_joinWith, splitOn_joinWith hheader, ← hnext, List.map_cons, hflush,
    List.map_append, hlevel, List.map_singleton, hclosing]

end Blockwright.Emit

namespace Blockwright.Script.Function

open Text Emit

/-- The lines of a function with its declarations and its result. -/
def linesOf (declarations : List (String × Expr)) (result : Expr) : List String :=
  declarations.map (fun d => "var " ++ d.1 ++ " = " ++ d.2.code ++ ";") ++ ["return " ++ result.code ++ ";"]

/-- The body of the function as a helper, which has a mark for the name. -/
def body (f : Function) : List String :=
  ("function " ++ functionMark ++ "(" ++ joinWith ", " f.parameters ++ ") \x7b") ::
    ((linesOf f.declarations f.result).map ("  " ++ ·) ++ ["\x7d"])

theorem plain_of_isLegal {x : String} (h : Identifier.isLegal x = true) : ∀ c ∈ x.toList, c ≠ '\x7b' ∧ c ≠ '\n' := by
  intro c hc
  have hchar := Identifier.isWordChar_of_mem h c hc
  constructor <;> rintro rfl <;> exact absurd hchar (by decide)

theorem joinWith_cons {line : String} {lines : List String} (h : lines ≠ []) :
    joinWith "\n" (line :: lines) = line ++ "\n" ++ joinWith "\n" lines := by
  obtain ⟨next, rest, rfl⟩ := List.exists_cons_of_ne_nil h
  rfl

theorem codeOf_bodyPieces (indent : String) (declarations : List (String × Expr)) (result : Expr) :
    Piece.codeOf (bodyPieces indent declarations result) =
      "\n" ++ joinWith "\n" ((linesOf declarations result).map (indent ++ ·) ++ ["\x7d"]) := by
  induction declarations with
  | nil =>
    refine String.toList_injective ?_
    simp [bodyPieces, linesOf, linePieces, resultPieces, Piece.codeOf, Piece.codeOf_append, Piece.code, Piece.space, Token.text,
      joinWith, Expr.code]
  | cons d rest ih =>
    have hlines : (linesOf (d :: rest) result).map (indent ++ ·) ++ ["\x7d"] =
        (indent ++ ("var " ++ d.1 ++ " = " ++ d.2.code ++ ";")) :: ((linesOf rest result).map (indent ++ ·) ++ ["\x7d"]) := rfl
    rw [hlines, joinWith_cons (by simp), bodyPieces, Piece.codeOf_append, ih]
    refine String.toList_injective ?_
    simp [linePieces, declarationPieces, Piece.codeOf, Piece.codeOf_append, Piece.code, Piece.space, Token.text, Expr.code]

/-- A line of a function is neither indented nor broken, and no brace is in it. -/
theorem plain_linesOf {f : Function} (hlegal : f.IsLegal) : ∀ line ∈ linesOf f.declarations f.result,
    line.toList.head? ≠ some ' ' ∧ ∀ c ∈ line.toList, c ≠ '\x7b' ∧ c ≠ '\n' := by
  have hcode : ∀ a : Expr, (∀ x ∈ a.words, Identifier.isLegal x = true) → ∀ c ∈ a.code.toList, c ≠ '\x7b' ∧ c ≠ '\n' :=
    fun a ha => Piece.plain_codeOf (inline_pieces a ha)
  simp only [linesOf, List.forall_mem_append, List.forall_mem_map, List.forall_mem_cons, String.toList_append]
  refine ⟨fun d hd => ⟨by simp, ?_⟩, ⟨by simp, ⟨by simp, hcode _ hlegal.result⟩, by simp⟩, by simp⟩
  obtain ⟨hname, hvalue⟩ := hlegal.declarations d hd
  exact ⟨⟨⟨⟨by simp, plain_of_isLegal hname⟩, by simp⟩, hcode _ hvalue⟩, by simp⟩

/-- A helper whose body is that of a function has the code of this function, as it is written under the
indentation of the pass. -/
theorem helperCode_body {f : Function} (hlegal : f.IsLegal) (indent : String) :
    helperCode indent f.name (joinWith "\n" f.body) = f.code indent := by
  have hparameters : ∀ c ∈ (joinWith ", " f.parameters).toList, c ≠ '\x7b' ∧ c ≠ '\n' := by
    intro c hc
    rcases mem_joinWith hc with hcomma | ⟨x, hx, hmem⟩
    · have hmark : c = ',' ∨ c = ' ' := by simpa using hcomma
      rcases hmark with rfl | rfl <;> decide
    · exact plain_of_isLegal (hlegal.parameters x hx) c hmem
  have hname : '\n' ∉ f.name.toList := fun hmem => (plain_of_isLegal hlegal.name _ hmem).2 rfl
  rw [body, helperCode_lines indent f.name hparameters hname (plain_linesOf hlegal), joinWith_cons (by simp), code, pieces]
  refine String.toList_injective ?_
  simp [Piece.codeOf, Piece.codeOf_append, Piece.code, Piece.space, Token.text, codeOf_parameterPieces, codeOf_bodyPieces]

end Blockwright.Script.Function
