import Mathlib.Data.List.Basic
import Mathlib.Data.List.TakeWhile
import Mathlib.Tactic.SplitIfs
import Blockwright.Text.Encoding
import Blockwright.Text.Quoted
/-!
# String literals read back

A reader of JavaScript's single-quoted literals, as strict code has them: it decodes the escapes and
stops behind the closing quote. A quoted text reads back without its line feeds, which are written as
continuations of the line; any other line terminator stands there as it is, and then the text is no
literal. So exactly the texts of one line read back as they were.

Code is taken for a literal by its quotes alone: a quote at either end and none in between without a
backslash in front. Every quoted text is of that form.
-/

namespace Blockwright.Text

/-- The characters that end a line of a program. -/
def isLineTerminator (c : Char) : Bool := c = '\n' || c = '\r' || c = '\u2028' || c = '\u2029'

/-- The units of 16 bits that a code point is made of. -/
def units (n : Nat) : List Nat :=
  if n < 0x10000 then [n] else [0xD800 + (n - 0x10000) / 0x400, 0xDC00 + (n - 0x10000) % 0x400]

/-- The value of a string with these characters. -/
def stringValue (cs : List Char) : List Nat := cs.flatMap fun c => units c.toNat

namespace Literal

/-! ## The reader -/

/-- Where the reader is inside a literal. -/
inductive Place where
  | plain
  /-- Behind a backslash. -/
  | escape
  /-- Behind a backslash and a carriage return, to which a line feed would belong. -/
  | continued
  /-- Behind `\0`, which no digit may follow. -/
  | zero
  /-- In an escape by number, with so many digits to come. -/
  | digits (left value : Nat)
  /-- Behind `\u`. -/
  | unicode
  /-- In an escape by number between braces. -/
  | braced (value : Option Nat)
deriving DecidableEq

/-- What a character does at a place. -/
inductive Step where
  /-- It may not stand there. -/
  | refuse
  /-- It ends the literal. -/
  | close
  /-- The reader goes on, with these units read. -/
  | go (value : List Nat) (next : Place)
deriving DecidableEq

/-- The letters that stand for control characters behind a backslash. -/
def controls : List (Char × Nat) := [('b', 8), ('t', 9), ('n', 10), ('v', 11), ('f', 12), ('r', 13)]

/-- A character outside an escape. -/
def plainStep (c : Char) : Step :=
  if c = '\'' then .close
  else if c = '\\' then .go [] .escape
  else if isLineTerminator c then .refuse
  else .go (units c.toNat) .plain

/-- A character behind a backslash; a line terminator continues the line and stands for nothing. -/
def escapeStep (c : Char) : Step :=
  if c = '\r' then .go [] .continued
  else if isLineTerminator c then .go [] .plain
  else if c = 'x' then .go [] (.digits 2 0)
  else if c = 'u' then .go [] .unicode
  else if c = '0' then .go [0] .zero
  else if isDigit c then .refuse
  else .go (units ((controls.lookup c).getD c.toNat)) .plain

/-- A digit of an escape by number. -/
def digitStep (left value : Nat) (c : Char) : Step :=
  match hexValue? c with
  | none => .refuse
  | some d => if left ≤ 1 then .go [value * 16 + d] .plain else .go [] (.digits (left - 1) (value * 16 + d))

/-- A character between braces, where a code point is spelled. -/
def bracedStep (value : Option Nat) (c : Char) : Step :=
  if c = '\x7d' then
    match value with
    | none => .refuse
    | some n => .go (units n) .plain
  else
    match hexValue? c with
    | none => .refuse
    | some d => if value.getD 0 * 16 + d ≤ 0x10FFFF then .go [] (.braced (some (value.getD 0 * 16 + d))) else .refuse

/-- What a character does. -/
def step : Place → Char → Step
  | .plain, c => plainStep c
  | .escape, c => escapeStep c
  | .continued, c => if c = '\n' then .go [] .plain else plainStep c
  | .zero, c => if isDigit c then .refuse else plainStep c
  | .digits left value, c => digitStep left value c
  | .unicode, c => if c = '\x7b' then .go [] (.braced none) else digitStep 4 0 c
  | .braced value, c => bracedStep value c

/-- Reads on from a place: the value up to the closing quote, and what follows it. -/
def read : Place → List Char → Option (List Nat × List Char)
  | _, [] => none
  | place, c :: cs =>
    match step place c with
    | .refuse => none
    | .close => some ([], cs)
    | .go value next => (read next cs).map fun r => (value ++ r.1, r.2)

end Literal

/-- Reads the literal that some code begins with: its value, and what follows it. -/
def readLiteral? (code : String) : Option (List Nat × List Char) :=
  match code.toList with
  | '\'' :: cs => Literal.read .plain cs
  | _ => none

example : readLiteral? "'\\x41\\u0042\\u\x7b43\x7d\\\r\n\\n\\'' + x" = some ([65, 66, 67, 10, 39], " + x".toList) := by decide

/-! ## Quoted texts -/

/-- The line terminators that stand in a literal as they are. -/
def isStray (c : Char) : Bool := isLineTerminator c && c != '\n'

/-- What is left of a text when its lines are continued. -/
def joinedLines (cs : List Char) : List Char := cs.filter (· ≠ '\n')

namespace Literal

theorem read_go {place next : Place} {c : Char} {value : List Nat} (h : step place c = .go value next) (cs : List Char) :
    read place (c :: cs) = (read next cs).map fun r => (value ++ r.1, r.2) := by simp only [read, h]

/-- A character that is escaped by a backslash in front of it. -/
theorem read_escaped {c : Char} {value : List Nat} (h : escapeStep c = .go value .plain) (cs : List Char) :
    read .plain ('\\' :: c :: cs) = (read .plain cs).map fun r => (value ++ r.1, r.2) := by
  have hbackslash : step .plain '\\' = .go [] .escape := rfl
  have hescaped : step .escape c = .go value .plain := h
  rw [read_go hbackslash, read_go hescaped, Option.map_map]
  rfl

/-- The characters written for one character add its value, a line feed adds nothing, and any other line
terminator is refused. -/
theorem read_quoteChar (c : Char) (cs : List Char) : read .plain (quoteChar c ++ cs) =
    if isStray c then none else (read .plain cs).map fun r => (stringValue (joinedLines [c]) ++ r.1, r.2) := by
  unfold quoteChar
  by_cases hbackslash : c = '\\'
  · subst hbackslash
    exact read_escaped (by decide) cs
  by_cases hfeed : c = '\n'
  · subst hfeed
    exact read_escaped (by decide) cs
  by_cases hquote : c = '\''
  · subst hquote
    exact read_escaped (by decide) cs
  -- the character is written as it is
  have hstep : step .plain c = if isStray c then .refuse else .go (units c.toNat) .plain := by
    simp [step, plainStep, isStray, hbackslash, hfeed, hquote]
  have hvalue : stringValue (joinedLines [c]) = units c.toNat := by simp [joinedLines, stringValue, hfeed]
  rw [if_neg hbackslash, if_neg hfeed, if_neg hquote, hvalue]
  by_cases hstray : isStray c = true
  · rw [if_pos hstray] at hstep ⊢
    simp only [List.singleton_append, read, hstep]
  · rw [if_neg hstray] at hstep ⊢
    exact read_go hstep cs

/-- The characters written for a text, with a closing quote behind them. -/
theorem read_flatMap_quoteChar (cs rest : List Char) : read .plain (cs.flatMap quoteChar ++ '\'' :: rest) =
    if cs.any isStray then none else some (stringValue (joinedLines cs), rest) := by
  induction cs with
  | nil => rfl
  | cons c cs ih =>
    rw [List.flatMap_cons, List.append_assoc, read_quoteChar, ih, List.any_cons]
    cases isStray c with
    | true => rfl
    | false =>
      cases cs.any isStray with
      | true => rfl
      | false =>
        have hvalue : stringValue (joinedLines (c :: cs)) = stringValue (joinedLines [c]) ++ stringValue (joinedLines cs) := by
          unfold stringValue joinedLines
          rw [← List.singleton_append, List.filter_append, List.flatMap_append]
        rw [hvalue]
        rfl

end Literal

/-! ## Values -/

theorem feed_mem_units (n : Nat) : 10 ∈ units n ↔ n = 10 := by
  unfold units
  split
  · simp [eq_comm]
  · simp
    omega

theorem feed_mem_stringValue (cs : List Char) : 10 ∈ stringValue cs ↔ '\n' ∈ cs := by
  simp only [stringValue, List.mem_flatMap, feed_mem_units]
  constructor
  · rintro ⟨c, hc, hfeed⟩
    have hc' : c = '\n' := Char.toNat_inj.1 hfeed
    exact hc' ▸ hc
  · exact fun h => ⟨'\n', h, rfl⟩

/-- Only a text without line feeds is left as it was. -/
theorem stringValue_joinedLines_eq_iff (cs : List Char) :
    stringValue (joinedLines cs) = stringValue cs ↔ '\n' ∉ cs := by
  have hnone : '\n' ∉ joinedLines cs := by simp [joinedLines]
  constructor
  · intro heq
    rwa [← feed_mem_stringValue, heq, feed_mem_stringValue] at hnone
  · intro hno
    have hsame : joinedLines cs = cs := List.filter_eq_self.2 fun c hc => by simpa using ne_of_mem_of_not_mem hc hno
    rw [hsame]

theorem any_isStray (cs : List Char) :
    (cs.any isStray = false ∧ '\n' ∉ cs) ↔ ∀ c ∈ cs, isLineTerminator c = false := by
  constructor
  · rintro ⟨hstray, hfeed⟩ c hc
    have hne : c ≠ '\n' := ne_of_mem_of_not_mem hc hfeed
    have hno := List.any_eq_false.1 hstray c hc
    simpa [isStray, hne] using hno
  · intro h
    refine ⟨List.any_eq_false.2 fun c hc => by simp [isStray, h c hc], fun hfeed => ?_⟩
    exact absurd (h '\n' hfeed) (by decide)

theorem readLiteral_quote_eq (text : String) : readLiteral? (quote text) =
    if text.toList.any isStray then none else some (stringValue (joinedLines text.toList), []) := by
  unfold readLiteral? quote
  rw [String.toList_ofList]
  exact Literal.read_flatMap_quoteChar text.toList []

/-- A quoted text is read to its end and gives the text without its line feeds, unless another line
terminator stands in it; then it is no literal. It gives the text as it was exactly when the text has no
line terminator at all. -/
theorem readLiteral_quote (text : String) :
    (readLiteral? (quote text) = if text.toList.any isStray then none
      else some (stringValue (joinedLines text.toList), [])) ∧
    (readLiteral? (quote text) = some (stringValue text.toList, []) ↔ ∀ c ∈ text.toList, isLineTerminator c = false) := by
  refine ⟨readLiteral_quote_eq text, ?_⟩
  rw [readLiteral_quote_eq, ← any_isStray]
  cases text.toList.any isStray with
  | true => simp
  | false => simp [stringValue_joinedLines_eq_iff]

/-- A text of two lines reads back as one line when a line feed parts them, and not at all when a carriage
return does. -/
theorem two_lines_read_back :
    readLiteral? (quote "a\nb") = some (stringValue "ab".toList, []) ∧ readLiteral? (quote "a\rb") = none ∧
      ¬ ∀ text, readLiteral? (quote text) = some (stringValue text.toList, []) := by
  have hfeed : readLiteral? (quote "a\nb") = some (stringValue "ab".toList, []) := by decide
  have hreturn : readLiteral? (quote "a\rb") = none := by decide
  refine ⟨hfeed, hreturn, fun hall => ?_⟩
  rw [hall] at hreturn
  cases hreturn

/-! ## Literals recognised in code -/

/-- What may stand between the quotes of a literal: characters other than the quote, and quotes with a backslash in front. -/
inductive LiteralBody : List Char → Prop
  | nil : LiteralBody []
  | char {c : Char} {cs : List Char} (ne : c ≠ '\'') (rest : LiteralBody cs) : LiteralBody (c :: cs)
  | escaped {cs : List Char} (rest : LiteralBody cs) : LiteralBody ('\\' :: '\'' :: cs)

/-- Code that is one literal with white space around it. -/
def IsLiteral (code : String) : Prop :=
  ∃ before body after, (∀ c ∈ before, isCodeBlank c = true) ∧ LiteralBody body ∧ (∀ c ∈ after, isCodeBlank c = true) ∧
    code.toList = before ++ '\'' :: (body ++ '\'' :: after)

theorem literalBody_cons {c : Char} {cs : List Char} :
    LiteralBody (c :: cs) ↔ c ≠ '\'' ∧ LiteralBody cs ∨ c = '\\' ∧ ∃ rest, cs = '\'' :: rest ∧ LiteralBody rest := by
  constructor
  · rintro (_ | ⟨hne, hrest⟩ | hrest)
    · exact .inl ⟨hne, hrest⟩
    · exact .inr ⟨rfl, _, rfl, hrest⟩
  · rintro (⟨hne, hrest⟩ | ⟨rfl, rest, rfl, hrest⟩)
    · exact .char hne hrest
    · exact .escaped hrest

/-- Behind a backslash a quote may come first. -/
theorem quotesEscaped_eq_true_iff {prev : Char} {cs : List Char} :
    quotesEscaped prev cs = true ↔ LiteralBody cs ∨ prev = '\\' ∧ ∃ rest, cs = '\'' :: rest ∧ LiteralBody rest := by
  induction cs generalizing prev with
  | nil => exact iff_of_true rfl (.inl .nil)
  | cons c cs ih =>
    rw [quotesEscaped, Bool.and_eq_true, ih, literalBody_cons]
    by_cases hc : c = '\''
    · subst hc
      simp
    · simp [hc]

theorem exists_trimChars (p : Char → Bool) (cs : List Char) :
    ∃ before after, (∀ c ∈ before, p c = true) ∧ (∀ c ∈ after, p c = true) ∧ cs = before ++ (trimChars p cs ++ after) := by
  refine ⟨cs.takeWhile p, ((cs.dropWhile p).reverse.takeWhile p).reverse, fun c hc => List.mem_takeWhile_imp hc,
    fun c hc => List.mem_takeWhile_imp (List.mem_reverse.1 hc), ?_⟩
  rw [trimChars, ← List.reverse_append, List.takeWhile_append_dropWhile, List.reverse_reverse,
    List.takeWhile_append_dropWhile]

theorem trimChars_append {p : Char → Bool} {before after cs : List Char} {c d : Char} (hbefore : ∀ c ∈ before, p c = true)
    (hafter : ∀ c ∈ after, p c = true) (hc : p c = false) (hd : p d = false) :
    trimChars p (before ++ c :: (cs ++ d :: after)) = c :: (cs ++ [d]) := by
  have hreverse : (c :: (cs ++ d :: after)).reverse = after.reverse ++ d :: (cs.reverse ++ [c]) := by simp
  rw [trimChars, List.dropWhile_append_of_pos hbefore, List.dropWhile_cons_of_neg (by simp [hc]), hreverse,
    List.dropWhile_append_of_pos fun c hc => hafter c (List.mem_reverse.1 hc), List.dropWhile_cons_of_neg (by simp [hd])]
  simp

/-- Code is taken for a literal exactly when it is one. -/
theorem isQuoted_eq_true_iff (code : String) : isQuoted code = true ↔ IsLiteral code := by
  unfold isQuoted
  constructor
  · intro h
    obtain ⟨before, after, hbefore, hafter, hcode⟩ := exists_trimChars isCodeBlank code.toList
    split at h
    · rename_i rest htrim
      obtain ⟨hlast, hbody⟩ := Bool.and_eq_true_iff.1 h
      refine ⟨before, rest.dropLast, after, hbefore, ?_, hafter, ?_⟩
      · -- the body stands behind a quote, so it begins with none
        exact (quotesEscaped_eq_true_iff.1 hbody).resolve_right fun hno => absurd hno.1 (by decide)
      · have hclosing : rest.dropLast ++ ['\''] = rest := List.dropLast_append_getLast? _ (by simpa using hlast)
        rw [htrim, ← hclosing] at hcode
        simpa using hcode
    · cases h
  · rintro ⟨before, body, after, hbefore, hbody, hafter, hcode⟩
    rw [hcode, trimChars_append hbefore hafter (by decide) (by decide)]
    simp [quotesEscaped_eq_true_iff.2 (.inl hbody)]

theorem LiteralBody.append {cs ds : List Char} (h : LiteralBody cs) (h' : LiteralBody ds) : LiteralBody (cs ++ ds) := by
  induction h with
  | nil => exact h'
  | char hne _ ih => exact .char hne ih
  | escaped _ ih => exact .escaped ih

theorem literalBody_quoteChar (c : Char) : LiteralBody (quoteChar c) := by
  unfold quoteChar
  split_ifs with hback hfeed hquote
  · exact .char (by decide) (.char (by decide) .nil)
  · exact .char (by decide) (.char (by decide) .nil)
  · exact .escaped .nil
  · exact .char hquote .nil

/-- Every quoted text is recognised, also one that is no literal because of a carriage return in it. -/
theorem isLiteral_quote (text : String) : IsLiteral (quote text) := by
  have hbody : LiteralBody (text.toList.flatMap quoteChar) := by
    induction text.toList with
    | nil => exact .nil
    | cons c cs ih => exact (literalBody_quoteChar c).append ih
  exact ⟨[], _, [], by simp, hbody, by simp, by rw [quote, String.toList_ofList]; rfl⟩

end Blockwright.Text
