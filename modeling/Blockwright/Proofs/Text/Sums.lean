import Blockwright.Emit.Texts
import Blockwright.Proofs.Text.Indentation
import Blockwright.Proofs.Text.Literals
/-!
# Sums of string literals read back

A reader of sums of literals with white space between them. It keeps every literal as it is written
and as it reads. A text that is written line by line is such a sum: one literal a line, and between
two lines the literal of a line feed, so that the values put one after the other are the text.
-/

namespace Blockwright.Text

/-! ## The reader -/

/-- The line terminators that the language lets stand in a literal as they are. Older versions of it
refuse them there. -/
def isSeparator (c : Char) : Bool := c = '\u2028' || c = '\u2029'

namespace Literal

/-- Whether a place is outside every escape. -/
def Place.isPlain : Place → Bool
  | .plain | .continued | .zero => true
  | _ => false

/-- What a character does where separators may stand in a literal. -/
def currentStep (place : Place) (c : Char) : Step :=
  if isSeparator c && place.isPlain then .go (units c.toNat) .plain else step place c

end Literal

/-- A literal of a sum, as it is written and as it reads. -/
structure Addend where
  code : List Char
  value : List Nat
deriving DecidableEq

/-- Puts what stands in front of the rest of a literal to the first addend. -/
def Addend.extend (c : Char) (value : List Nat) : List Addend → List Addend
  | [] => []
  | a :: rest => ⟨c :: a.code, value ++ a.value⟩ :: rest

/-- Where a reader is in a sum. -/
inductive Spot where
  /-- In front of a literal. -/
  | before
  | inside (place : Literal.Place)
  /-- Behind a literal, where the sum may end. -/
  | behind
deriving DecidableEq

/-- The literals of a sum, read on from a spot; inside a literal, its rest comes first. -/
def addends (rules : Literal.Place → Char → Literal.Step) : Spot → List Char → Option (List Addend)
  | .behind, [] => some []
  | _, [] => none
  | .before, c :: cs =>
    if isCodeBlank c then addends rules .before cs
    else if c = '\'' then (addends rules (.inside .plain) cs).map (Addend.extend c [])
    else none
  | .inside place, c :: cs =>
    match rules place c with
    | .refuse => none
    | .close => (addends rules .behind cs).map (⟨[c], []⟩ :: ·)
    | .go value next => (addends rules (.inside next) cs).map (Addend.extend c value)
  | .behind, c :: cs =>
    if isCodeBlank c then addends rules .behind cs
    else if c = '+' then addends rules .before cs
    else none

/-- The literals of code that is a sum of them. -/
def addends? (rules : Literal.Place → Char → Literal.Step) (code : String) : Option (List Addend) :=
  addends rules .before code.toList

/-- The value of code that no operator beside it can tear apart: one literal, or a sum of literals in
parentheses. -/
def atom? (rules : Literal.Place → Char → Literal.Step) (code : String) : Option (List Nat) :=
  match code.toList with
  | '(' :: cs =>
    if cs.getLast? = some ')' then (addends rules .before cs.dropLast).map (·.flatMap (·.value)) else none
  | cs =>
    match addends rules .before cs with
    | some [a] => some a.value
    | _ => none

example : atom? Literal.step "('a' +\n'\\'b')" = some [97, 39, 98] ∧ atom? Literal.step "'a' + 'b'" = none := by decide

/-! ## Lines -/

namespace Literal

/-- The rules that a quoted text relies on. -/
structure Reads (rules : Place → Char → Step) : Prop where
  close : rules .plain '\'' = .close
  escape : rules .plain '\\' = .go [] .escape
  feed : rules .escape 'n' = .go [10] .plain

theorem reads_step : Reads step := ⟨rfl, rfl, rfl⟩

theorem reads_currentStep : Reads currentStep := ⟨rfl, rfl, rfl⟩

/-- A character is read as itself from what is written for it. -/
def Returns (rules : Place → Char → Step) (c : Char) : Prop :=
  (quoteChar c = [c] ∧ rules .plain c = .go (units c.toNat) .plain) ∨
    (quoteChar c = ['\\', c] ∧ rules .escape c = .go (units c.toNat) .plain)

theorem quoteChar_of_ne {c : Char} (hback : c ≠ '\\') (hfeed : c ≠ '\n') (hquote : c ≠ '\'') : quoteChar c = [c] := by
  simp [quoteChar, hback, hfeed, hquote]

/-- Every character of a line returns, unless the line ends there. -/
theorem returns_step {c : Char} (h : isLineTerminator c = false) : Returns step c := by
  by_cases hback : c = '\\'
  · subst hback
    exact .inr ⟨rfl, rfl⟩
  by_cases hquote : c = '\''
  · subst hquote
    exact .inr ⟨rfl, rfl⟩
  have hfeed : c ≠ '\n' := by
    rintro rfl
    exact absurd h (by decide)
  exact .inl ⟨quoteChar_of_ne hback hfeed hquote, by simp [step, plainStep, hback, hquote, h]⟩

theorem returns_currentStep {c : Char} (hfeed : c ≠ '\n') (hreturn : c ≠ '\r') : Returns currentStep c := by
  by_cases hseparator : isSeparator c = true
  · have hplain : c ≠ '\\' ∧ c ≠ '\'' := by
      constructor <;> rintro rfl <;> exact absurd hseparator (by decide)
    exact .inl ⟨quoteChar_of_ne hplain.1 hfeed hplain.2, by simp [currentStep, hseparator, Place.isPlain]⟩
  · -- the two versions of the language differ in separators only
    have hsame : ∀ place, currentStep place c = step place c := fun place => by simp [currentStep, hseparator]
    have hline : isLineTerminator c = false := by
      simp only [isSeparator, Bool.or_eq_true, decide_eq_true_eq, not_or] at hseparator
      simp [isLineTerminator, hfeed, hreturn, hseparator]
    simpa only [Returns, hsame] using returns_step hline

end Literal

section
variable {rules : Literal.Place → Char → Literal.Step}

theorem addends_quoteChar (hrules : Literal.Reads rules) {c : Char} (h : Literal.Returns rules c) {cs rest : List Char}
    {value : List Nat} {more : List Addend} (hrest : addends rules (.inside .plain) rest = some (⟨cs, value⟩ :: more)) :
    addends rules (.inside .plain) (quoteChar c ++ rest) = some (⟨quoteChar c ++ cs, units c.toNat ++ value⟩ :: more) := by
  rcases h with ⟨hplain, hstep⟩ | ⟨hescaped, hstep⟩
  · simp [hplain, addends, hstep, hrest, Addend.extend]
  · simp [hescaped, addends, hrules.escape, hstep, hrest, Addend.extend]

/-- What is written for a line, with a closing quote behind it, reads as the line. -/
theorem addends_line (hrules : Literal.Reads rules) {line : List Char} (h : ∀ c ∈ line, Literal.Returns rules c)
    {rest : List Char} {more : List Addend} (hrest : addends rules .behind rest = some more) :
    addends rules (.inside .plain) (line.flatMap quoteChar ++ '\'' :: rest) =
      some (⟨line.flatMap quoteChar ++ ['\''], stringValue line⟩ :: more) := by
  induction line with
  | nil => simp [addends, hrules.close, hrest, stringValue]
  | cons c line ih =>
    have hline := ih fun d hd => h d (List.mem_cons_of_mem _ hd)
    have hc := addends_quoteChar hrules (h c List.mem_cons_self) hline
    simpa [stringValue, List.append_assoc] using hc

/-- The literal that is written for a line. -/
def lineAddend (line : List Char) : Addend := ⟨'\'' :: (line.flatMap quoteChar ++ ['\'']), stringValue line⟩

/-- The literal of a line feed, which stands between two lines. -/
def feedAddend : Addend := ⟨['\'', '\\', 'n', '\''], [10]⟩

/-- The literals that are written for lines. -/
def lineAddends (lines : List (List Char)) : List Addend := (lines.map lineAddend).intersperse feedAddend

theorem addends_lineAddend (hrules : Literal.Reads rules) {line : List Char} (h : ∀ c ∈ line, Literal.Returns rules c)
    {rest : List Char} {more : List Addend} (hrest : addends rules .behind rest = some more) :
    addends rules .before ((lineAddend line).code ++ rest) = some (lineAddend line :: more) := by
  have hblank : isCodeBlank '\'' = false := by decide
  simp only [lineAddend, List.cons_append, List.append_assoc]
  rw [addends, hblank]
  simp [addends_line hrules h hrest, Addend.extend]

/-- Behind a line the literal of a line feed goes on with the sum, and the next literal may follow. -/
theorem addends_feed (hrules : Literal.Reads rules) {rest : List Char} {more : List Addend}
    (hrest : addends rules .before rest = some more) :
    addends rules .behind (" + '\\n' +\n".toList ++ rest) = some (feedAddend :: more) := by
  have hcode : " + '\\n' +\n".toList ++ rest = ' ' :: '+' :: ' ' :: '\'' :: '\\' :: 'n' :: '\'' :: ' ' :: '+' :: '\n' :: rest := rfl
  have hspace : isCodeBlank ' ' = true := by decide
  have hfeed : isCodeBlank '\n' = true := by decide
  have hplus : isCodeBlank '+' = false := by decide
  have hquote : isCodeBlank '\'' = false := by decide
  rw [hcode]
  simp [addends, hspace, hfeed, hplus, hquote, hrules.escape, hrules.feed, hrules.close, hrest, Addend.extend, feedAddend]

theorem addends_lines (hrules : Literal.Reads rules) {lines : List (List Char)} (hne : lines ≠ [])
    (h : ∀ line ∈ lines, ∀ c ∈ line, Literal.Returns rules c) :
    addends rules .before (" + '\\n' +\n".toList.intercalate (lines.map fun line => (lineAddend line).code)) =
      some (lineAddends lines) := by
  induction lines with
  | nil => exact absurd rfl hne
  | cons line lines ih =>
    have hline := h line List.mem_cons_self
    cases lines with
    | nil =>
      have hlast : addends rules .behind [] = some [] := rfl
      simpa [List.intercalate, lineAddends] using addends_lineAddend hrules hline hlast
    | cons next lines =>
      have hrest := ih (by simp) fun line' hline' => h line' (List.mem_cons_of_mem _ hline')
      have hall := addends_lineAddend hrules hline (addends_feed hrules hrest)
      simpa [List.intercalate, lineAddends] using hall

end

/-! ## Values -/

/-- The values of the literals written for lines, one after the other. -/
theorem value_lineAddends (lines : List (List Char)) :
    (lineAddends lines).flatMap (·.value) = stringValue (['\n'].intercalate lines) := by
  induction lines with
  | nil => rfl
  | cons line lines ih =>
    cases lines with
    | nil => simp [lineAddends, lineAddend, List.intercalate]
    | cons next lines =>
      have hcons : lineAddends (line :: next :: lines) = lineAddend line :: feedAddend :: lineAddends (next :: lines) := rfl
      have htext : ['\n'].intercalate (line :: next :: lines) = line ++ '\n' :: ['\n'].intercalate (next :: lines) := by
        simp [List.intercalate]
      rw [hcons, htext, List.flatMap_cons, List.flatMap_cons, ih]
      simp [stringValue, lineAddend, feedAddend, units]

/-! ## The lines of the literals -/

theorem mem_quoteChar {c d : Char} (h : c ∈ quoteChar d) : c = d ∨ c = '\\' := by
  unfold quoteChar at h
  split_ifs at h <;> grind

theorem mem_lineAddends {a : Addend} {lines : List (List Char)} (h : a ∈ lineAddends lines) :
    a = feedAddend ∨ ∃ line ∈ lines, a = lineAddend line := by
  induction lines with
  | nil => cases h
  | cons line lines ih =>
    cases lines with
    | nil => exact .inr ⟨line, List.mem_cons_self, List.mem_singleton.1 h⟩
    | cons next lines =>
      rcases List.mem_cons.1 h with rfl | h
      · exact .inr ⟨line, List.mem_cons_self, rfl⟩
      rcases List.mem_cons.1 h with rfl | h
      · exact .inl rfl
      rcases ih h with hfeed | ⟨line', hline', ha⟩
      · exact .inl hfeed
      · exact .inr ⟨line', List.mem_cons_of_mem _ hline', ha⟩

/-- A line terminator in a literal stands in one of the lines. -/
theorem mem_of_lineAddends {a : Addend} {lines : List (List Char)} (ha : a ∈ lineAddends lines) {c : Char} (hc : c ∈ a.code)
    (hline : isLineTerminator c = true) : ∃ line ∈ lines, c ∈ line := by
  rcases mem_lineAddends ha with rfl | ⟨line, hmem, rfl⟩
  · have hnone : feedAddend.code.any isLineTerminator = false := by decide
    exact absurd hline (List.any_eq_false.1 hnone c hc)
  · refine ⟨line, hmem, ?_⟩
    have hquote : c ≠ '\'' := by
      rintro rfl
      exact absurd hline (by decide)
    have hback : c ≠ '\\' := by
      rintro rfl
      exact absurd hline (by decide)
    simp only [lineAddend, List.mem_cons, List.mem_append, List.mem_flatMap, List.not_mem_nil, or_false, hquote,
      false_or] at hc
    obtain ⟨d, hd, hcd⟩ := hc
    rcases mem_quoteChar hcd with rfl | hslash
    · exact hd
    · exact absurd hslash hback

/-! ## Texts of several lines -/

theorem toList_quoteLines (text : String) : (quoteLines text).toList =
    " + '\\n' +\n".toList.intercalate ((splitChars '\n' text.toList).map fun line => (lineAddend line).code) := by
  have hcode : (String.toList ∘ quote) ∘ String.ofList = fun line => (lineAddend line).code := by
    funext line
    simp [quote, lineAddend]
  rw [quoteLines, toList_joinWith, splitOn, List.map_map, List.map_map, hcode]

/-- The code of a text has a line feed exactly when the text has one. -/
theorem feed_mem_quoteLines (text : String) : '\n' ∈ (quoteLines text).toList ↔ '\n' ∈ text.toList := by
  obtain ⟨line, lines, hsplit⟩ := exists_splitChars '\n' text.toList
  cases lines with
  | nil =>
    have hone : splitChars '\n' text.toList = [text.toList] := by
      rw [hsplit, eq_of_splitChars_eq_singleton hsplit]
    have hno : '\n' ∉ text.toList := (splitChars_eq_singleton_iff '\n' text.toList).1 hone
    refine iff_of_false ?_ hno
    rw [toList_quoteLines, hone]
    intro hfeed
    have hcode : '\n' ∈ (lineAddend text.toList).code := by simpa [List.intercalate] using hfeed
    have hlines : lineAddend text.toList ∈ lineAddends [text.toList] := List.mem_singleton_self _
    obtain ⟨line', hline', hmem⟩ := mem_of_lineAddends hlines hcode (by decide)
    exact hno (List.mem_singleton.1 hline' ▸ hmem)
  | cons next lines =>
    refine iff_of_true ?_ ?_
    · rw [toList_quoteLines, hsplit]
      simp [List.intercalate]
    · have hcs := intercalate_splitChars '\n' text.toList
      rw [hsplit] at hcs
      rw [← hcs]
      simp [List.intercalate]

theorem addends_quoteLines {rules : Literal.Place → Char → Literal.Step} (hrules : Literal.Reads rules) {text : String}
    (h : ∀ c ∈ text.toList, c ≠ '\n' → Literal.Returns rules c) :
    addends? rules (quoteLines text) = some (lineAddends (splitChars '\n' text.toList)) := by
  rw [addends?, toList_quoteLines]
  refine addends_lines hrules (splitChars_ne_nil _ _) fun line hline c hc => ?_
  obtain ⟨hmem, hfeed⟩ := mem_of_mem_splitChars hline hc
  exact h c hmem hfeed

/-- Parentheses around a sum make it an atom, and without them only a single literal is one. -/
theorem atom_textCode {rules : Literal.Place → Char → Literal.Step} {text : String}
    (h : addends? rules (quoteLines text) = some (lineAddends (splitChars '\n' text.toList))) :
    atom? rules (if '\n' ∈ text.toList then "(" ++ quoteLines text ++ ")" else quoteLines text) =
      some (stringValue text.toList) := by
  have hvalue := value_lineAddends (splitChars '\n' text.toList)
  rw [intercalate_splitChars] at hvalue
  by_cases hfeed : '\n' ∈ text.toList
  · have hcode : ("(" ++ quoteLines text ++ ")").toList = '(' :: ((quoteLines text).toList ++ [')']) := by
      simp [String.toList_append]
    rw [addends?] at h
    simp [hfeed, atom?, hcode, h, hvalue]
  · have hone := (splitChars_eq_singleton_iff '\n' text.toList).2 hfeed
    have hcode : (quoteLines text).toList = '\'' :: (text.toList.flatMap quoteChar ++ ['\'']) := by
      rw [toList_quoteLines, hone]
      simp [List.intercalate, lineAddend]
    rw [addends?, hone] at h
    rw [if_neg hfeed, atom?, hcode]
    rw [hcode] at h
    simp [h, lineAddends, lineAddend]

/-- The code of a text without carriage returns is a sum of literals whose values, one after the other,
are the text. A literal goes over no line; the separators that the text has itself stand in it as they
are, and without them older versions of the language read the same. A block of several lines puts the
sum in parentheses exactly when the text has a line feed, and is an atom either way. -/
theorem quoteLines_reads_back (text : String) (hreturn : '\r' ∉ text.toList) :
    ∃ literals, addends? Literal.currentStep (quoteLines text) = some literals ∧
      literals.flatMap (·.value) = stringValue text.toList ∧
      (∀ a ∈ literals, ∀ c ∈ a.code, isLineTerminator c = true → isSeparator c = true ∧ c ∈ text.toList) ∧
      ((∀ c ∈ text.toList, isSeparator c = false) → addends? Literal.step (quoteLines text) = some literals) ∧
      ∀ s : Site, s.head.field "TEXT" = text → ∃ code, Emit.textMultiline s = pure (.value code Order.atomic) ∧
        code = (if '\n' ∈ text.toList then "(" ++ quoteLines text ++ ")" else quoteLines text) ∧
        atom? Literal.currentStep code = some (stringValue text.toList) := by
  have hall : ∀ c ∈ text.toList, c ≠ '\n' → Literal.Returns Literal.currentStep c := fun c hc hfeed =>
    Literal.returns_currentStep hfeed (ne_of_mem_of_not_mem hc hreturn)
  have hsum := addends_quoteLines Literal.reads_currentStep hall
  have hvalue := value_lineAddends (splitChars '\n' text.toList)
  rw [intercalate_splitChars] at hvalue
  refine ⟨_, hsum, hvalue, ?_, ?_, ?_⟩
  · intro a ha c hc hline
    obtain ⟨line, hmem, hcline⟩ := mem_of_lineAddends ha hc hline
    obtain ⟨htext, hfeed⟩ := mem_of_mem_splitChars hmem hcline
    have hcr : c ≠ '\r' := ne_of_mem_of_not_mem htext hreturn
    refine ⟨?_, htext⟩
    simpa [isLineTerminator, isSeparator, hfeed, hcr] using hline
  · intro hold
    refine addends_quoteLines Literal.reads_step fun c hc hfeed => Literal.returns_step ?_
    have hcr : c ≠ '\r' := ne_of_mem_of_not_mem hc hreturn
    simpa [isLineTerminator, isSeparator, hfeed, hcr] using hold c hc
  · rintro s rfl
    refine ⟨_, ?_, rfl, atom_textCode hsum⟩
    simp only [Emit.textMultiline, List.contains_iff_mem, feed_mem_quoteLines]

/-- A text that holds what separates its own lines. -/
theorem separator_reads_back : '\r' ∉ "a' + '\\n' +\n\\".toList ∧
    ∃ literals, addends? Literal.currentStep (quoteLines "a' + '\\n' +\n\\") = some literals ∧
      literals.flatMap (·.value) = stringValue "a' + '\\n' +\n\\".toList := by
  have hreturn : '\r' ∉ "a' + '\\n' +\n\\".toList := by decide
  obtain ⟨literals, hsum, hvalue, -⟩ := quoteLines_reads_back _ hreturn
  exact ⟨hreturn, literals, hsum, hvalue⟩

end Blockwright.Text
