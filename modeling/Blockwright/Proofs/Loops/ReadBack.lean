import Blockwright.Proofs.Loops.Headers
import Blockwright.Proofs.Number.Wholes
import Blockwright.Proofs.Operators.Lexing
import Blockwright.Proofs.Script.Bodies
import Blockwright.Proofs.Text.CommentLines
/-!
# Headers of loops are read back

Words and numerals hold no semicolon and no line feed, so neither does any part of a header. A header that
is written with them is cut where its lines and its parts end, and each part is read as what it was
written from. Comments in front of the header and what stands behind it make no difference.
-/

namespace Blockwright.Loops

open Operators Text

/-! ## Plain texts -/

/-- A character of a word or a number. -/
def isLeafChar (c : Char) : Bool := isWordChar c || ['.', '+', '-'].contains c

theorem isLeafChar_of_isWordChar {c : Char} (h : isWordChar c = true) : isLeafChar c = true := by simp [isLeafChar, h]

theorem isLeafChar_of_start? {c : Char} {phase : Phase} (h : Phase.start? c = some phase) : isLeafChar c = true := by
  unfold Phase.start? at h
  split at h
  · exact isLeafChar_of_isWordChar (Identifier.isWordChar_of_isDigit ‹_›)
  · split at h
    · exact isLeafChar_of_isWordChar ‹_›
    · cases h

theorem isLeafChar_of_next? {c : Char} {phase phase' : Phase} (h : phase.next? c = some phase') : isLeafChar c = true := by
  have hdigit : isDigit c = true → isWordChar c = true := Identifier.isWordChar_of_isDigit
  have hmark : c = 'e' ∨ c = 'E' → isWordChar c = true := by rintro (rfl | rfl) <;> decide
  have hleaf : isWordChar c = true ∨ c ∈ ['.', '+', '-'] := by
    cases phase <;> simp only [Phase.next?] at h <;> split_ifs at h <;> simp_all
  simpa [isLeafChar] using hleaf

theorem isLeafChar_of_scan {phase : Phase} {cs : List Char} (h : scan phase cs = some (cs, [])) :
    ∀ c ∈ cs, isLeafChar c = true := by
  induction cs generalizing phase with
  | nil => simp
  | cons c cs ih =>
    rw [scan] at h
    split at h
    · rename_i phase' hphase
      obtain ⟨r, hr, heq⟩ := Option.map_eq_some_iff.1 h
      obtain ⟨hbody, hrest⟩ := Prod.mk.inj heq
      have hscan : scan phase' cs = some (cs, []) := by
        rw [hr, ← (List.cons.inj hbody).2, ← hrest]
      exact List.forall_mem_cons.2 ⟨isLeafChar_of_next? hphase, ih hscan⟩
    · split at h <;> cases h

theorem isLeafChar_of_isLeaf {s : String} (h : isLeaf s = true) : ∀ c ∈ s.toList, isLeafChar c = true := by
  unfold isLeaf at h
  split at h
  · cases h
  · rename_i c cs hs
    rw [hs]
    split at h
    · rename_i phase hphase
      exact List.forall_mem_cons.2 ⟨isLeafChar_of_start? hphase, isLeafChar_of_scan (beq_iff_eq.1 h)⟩
    · cases h

/-- No line and no part of a header ends inside the text. -/
def Plain (s : String) : Prop := ∀ c ∈ s.toList, c ≠ ';' ∧ c ≠ '\n'

theorem plain_of_all {s : String} (h : (s.toList.all fun c => c != ';' && c != '\n') = true) : Plain s := by
  simpa [Plain] using h

theorem plain_append {s t : String} : Plain (s ++ t) ↔ Plain s ∧ Plain t := by
  simp only [Plain, String.toList_append, List.forall_mem_append]

theorem plain_leaf {s : String} (h : isLeaf s = true) : Plain s := by
  intro c hc
  have hleaf := isLeafChar_of_isLeaf h c hc
  constructor <;> rintro rfl <;> exact absurd hleaf (by decide)

theorem plain_wrap {s : String} (h : Plain s) (outer inner : Order) : Plain (Order.wrap s outer inner) := by
  unfold Order.wrap
  split
  · have hparens : Plain "(" ∧ Plain ")" := ⟨plain_of_all (by decide), plain_of_all (by decide)⟩
    exact plain_append.2 ⟨plain_append.2 ⟨hparens.1, h⟩, hparens.2⟩
  · exact h

theorem plain_code {t : OpTree String} (h : ∀ s ∈ t.leaves, isLeaf s = true) : Plain t.code := by
  have hblank : Plain " " := plain_of_all (by decide)
  induction t with
  | leaf s => exact plain_leaf (h s List.mem_cons_self)
  | neg a ih =>
    have hminus : Plain "-" := plain_of_all (by decide)
    exact plain_append.2 ⟨hminus, plain_wrap (ih h) _ _⟩
  | not a ih =>
    have hbang : Plain "!" := plain_of_all (by decide)
    exact plain_append.2 ⟨hbang, plain_wrap (ih h) _ _⟩
  | binary op a b iha ihb =>
    have hsymbol : Plain op.symbol := plain_of_all (by cases op <;> decide)
    simp only [OpTree.leaves, List.forall_mem_append] at h
    simp only [OpTree.code, plain_append]
    exact ⟨⟨⟨⟨plain_wrap (iha h.1) _ _, hblank⟩, hsymbol⟩, hblank⟩, plain_wrap (ihb h.2) _ _⟩
  | choice c y n ihc ihy ihn =>
    have hquestion : Plain " ? " := plain_of_all (by decide)
    have hcolon : Plain " : " := plain_of_all (by decide)
    simp only [OpTree.leaves, List.forall_mem_append] at h
    simp only [OpTree.code, plain_append]
    exact ⟨⟨⟨⟨plain_wrap (ihc h.1) _ _, hquestion⟩, plain_wrap (ihy h.2.1) _ _⟩, hcolon⟩, plain_wrap (ihn h.2.2) _ _⟩

theorem enclosed?_append (opening closing : String) (cs : List Char) :
    enclosed? opening closing (opening.toList ++ (cs ++ closing.toList)) = some cs := by
  simp [enclosed?, dropStart?_append]

/-! ## Parts of lines -/

namespace Atom

/-- The atom is written with a word or a number. -/
def Proper (a : Atom) : Prop := isLeaf a.leaf = true

variable {a : Atom}

theorem ofTree?_tree (a : Atom) : ofTree? a.tree = some a := by
  obtain ⟨negative, leaf⟩ := a
  cases negative <;> rfl

theorem grouped_tree (a : Atom) : a.tree.grouped = a.tree := by
  obtain ⟨negative, leaf⟩ := a
  cases negative <;> rfl

theorem leaves_tree (a : Atom) : a.tree.leaves = [a.leaf] := by
  obtain ⟨negative, leaf⟩ := a
  cases negative <;> rfl

theorem isLeaf_tree (h : a.Proper) : ∀ s ∈ a.tree.leaves, isLeaf s = true := by
  rw [leaves_tree, List.forall_mem_singleton]
  exact h

theorem ofChars?_code (h : a.Proper) : ofChars? a.code.toList = some a := by
  rw [ofChars?, code, String.ofList_toList, OpTree.parse_code (isLeaf_tree h), grouped_tree]
  exact ofTree?_tree a

theorem plain (h : a.Proper) : Plain a.code := plain_code (isLeaf_tree h)

theorem code_eq (a : Atom) : a.code = (if a.negative then "-" else "") ++ a.leaf := by
  have hbare : Order.wrap a.leaf Order.unaryNegation Order.atomic = a.leaf := wrap_of_bare (by decide)
  obtain ⟨negative, leaf⟩ := a
  cases negative
  · exact String.empty_append.symm
  · exact congrArg ("-" ++ ·) hbare

/-- Beside an operator an atom stands without parentheses. -/
theorem wrap_code (a : Atom) (op : Binary) : Order.wrap a.tree.code op.order a.tree.order = a.code := by
  obtain ⟨hleaf, hneg, -⟩ := OpTree.needsParens_tighter op
  obtain ⟨negative, leaf⟩ := a
  cases negative
  · exact wrap_of_bare (Bool.eq_false_iff.1 hleaf)
  · exact wrap_of_bare (Bool.eq_false_iff.1 hneg)

end Atom

namespace Test

/-- The condition is written with words and numbers. -/
def Proper : Test → Prop
  | .atMost a b | .atLeast a b | .above a b => a.Proper ∧ b.Proper
  | .choice c y n => c.Proper ∧ y.Proper ∧ n.Proper

theorem isLeaf_tree : ∀ {t : Test}, t.Proper → ∀ s ∈ t.tree.leaves, isLeaf s = true
  | .atMost a b, h | .atLeast a b, h | .above a b, h => List.forall_mem_append.2 ⟨a.isLeaf_tree h.1, b.isLeaf_tree h.2⟩
  | .choice _ _ _, h => List.forall_mem_append.2 ⟨isLeaf_tree h.1,
    List.forall_mem_append.2 ⟨isLeaf_tree h.2.1, isLeaf_tree h.2.2⟩⟩

theorem grouped_tree (t : Test) : t.tree.grouped = t.tree := by
  induction t with
  | choice c y n ihc ihy ihn => simp only [tree, OpTree.grouped, ihc, ihy, ihn]
  | _ a b => simp [tree, OpTree.grouped, Binary.isAssociative, Atom.grouped_tree]

theorem ofTree?_tree (t : Test) : ofTree? t.tree = some t := by
  induction t with
  | choice c y n ihc ihy ihn => simp [tree, ofTree?, ihc, ihy, ihn]
  | _ a b => simp [tree, ofTree?, Atom.ofTree?_tree]

theorem ofChars?_code {t : Test} (h : t.Proper) : ofChars? t.code.toList = some t := by
  rw [ofChars?, code, String.ofList_toList, OpTree.parse_code (isLeaf_tree h), grouped_tree]
  exact ofTree?_tree t

theorem plain {t : Test} (h : t.Proper) : Plain t.code := plain_code (isLeaf_tree h)

theorem code_binary (op : Binary) (a b : Atom) :
    (OpTree.binary op a.tree b.tree).code = a.code ++ " " ++ op.symbol ++ " " ++ b.code := by
  rw [OpTree.code, Atom.wrap_code, Atom.wrap_code]

theorem code_atMost (a b : Atom) : (atMost a b).code = a.code ++ " <= " ++ b.code := by
  simp only [code, tree, code_binary, Binary.symbol, String.append_assoc]
  rfl

theorem code_atLeast (a b : Atom) : (atLeast a b).code = a.code ++ " >= " ++ b.code := by
  simp only [code, tree, code_binary, Binary.symbol, String.append_assoc]
  rfl

theorem code_above (a b : Atom) : (above a b).code = a.code ++ " > " ++ b.code := by
  simp only [code, tree, code_binary, Binary.symbol, String.append_assoc]
  rfl

/-- A choice among comparisons is written without parentheses. -/
theorem code_choice {c y n : Test} (hc : c.tree.order = Order.relational) (hy : y.tree.order = Order.relational)
    (hn : n.tree.order = Order.relational) : (choice c y n).code = c.code ++ " ? " ++ y.code ++ " : " ++ n.code := by
  have hbare : ∀ t : Test, t.tree.order = Order.relational → Order.wrap t.tree.code Order.conditional t.tree.order = t.code :=
    fun t ht => ht ▸ wrap_of_bare (by decide)
  rw [code, tree, OpTree.code, hbare c hc, hbare y hy, hbare n hn]

end Test

namespace Change

/-- What is done is written with a word or a number. -/
def Proper : Change → Prop
  | .set a | .size a | .add a | .subtract a => a.Proper
  | .increment | .decrement => True

/-- A call is no atom. -/
theorem ofChars?_call (cs : List Char) : Atom.ofChars? ("Math.abs(".toList ++ cs) = none := by
  have hpoint : lex ('.' :: ("abs(".toList ++ cs)) = none := by
    have hstart : Phase.start? '.' = none := by decide
    rw [lex, hstart]
    dsimp only
    rw [if_neg (by decide)]
    split
    · rename_i token after heq
      cases heq
    · rfl
  have hlex : lex ('M' :: ("ath".toList ++ '.' :: ("abs(".toList ++ cs))) = none := by
    have hscan : scan .word ("ath".toList ++ '.' :: ("abs(".toList ++ cs)) = some ("ath".toList, '.' :: ("abs(".toList ++ cs)) :=
    rfl
    have hstart : Phase.start? 'M' = some .word := by decide
    rw [lex, hstart]
    dsimp only
    split
    · rename_i body after heq
      rw [hscan] at heq
      cases heq
      rw [hpoint]
      rfl
    · rfl
  have hcode : "Math.abs(".toList ++ cs = 'M' :: ("ath".toList ++ '.' :: ("abs(".toList ++ cs)) := rfl
  rw [Atom.ofChars?, parse, String.toList_ofList, hcode, hlex]
  rfl

theorem ofChars?_code {change : Change} (h : change.Proper) : ofChars? change.code.toList = some change := by
  cases change with
  | set a =>
    have hread : Atom.ofChars? a.code.toList = some a := Atom.ofChars?_code h
    simp [code, ofChars?, String.toList_append, hread]
  | size a =>
    have hcall : Atom.ofChars? ("Math.abs(".toList ++ (a.code.toList ++ ")".toList)) = none := ofChars?_call _
    have hinner : enclosed? "Math.abs(" ")" ("Math.abs(".toList ++ (a.code.toList ++ ")".toList)) = some a.code.toList :=
      enclosed?_append _ _ _
    have hread : Atom.ofChars? a.code.toList = some a := Atom.ofChars?_code h
    have hcode : (size a).code.toList = ' ' :: '=' :: ' ' :: ("Math.abs(".toList ++ (a.code.toList ++ ")".toList)) := by
      simp [code, String.toList_append]
    rw [hcode, ofChars?, hcall]
    simp only [hinner, Option.bind_some, hread, Option.map_some]
  | increment => rfl
  | decrement => rfl
  | add a =>
    have hread : Atom.ofChars? a.code.toList = some a := Atom.ofChars?_code h
    simp [code, ofChars?, String.toList_append, hread]
  | subtract a =>
    have hread : Atom.ofChars? a.code.toList = some a := Atom.ofChars?_code h
    simp [code, ofChars?, String.toList_append, hread]

/-- What is done to a variable is written behind its name. -/
theorem head_code (change : Change) : ∃ c cs, change.code.toList = c :: cs ∧ isWordChar c = false := by
  cases change with
  | increment => exact ⟨_, _, rfl, by decide⟩
  | decrement => exact ⟨_, _, rfl, by decide⟩
  | _ a => exact ⟨' ', _, by simp only [code, String.toList_append]; rfl, by decide⟩

theorem plain {change : Change} (h : change.Proper) : Plain change.code := by
  cases change with
  | set a => exact plain_append.2 ⟨plain_of_all (by decide), Atom.plain h⟩
  | size a =>
    exact plain_append.2 ⟨plain_append.2 ⟨plain_of_all (by decide), Atom.plain h⟩, plain_of_all (by decide)⟩
  | increment => exact plain_of_all (by decide)
  | decrement => exact plain_of_all (by decide)
  | add a => exact plain_append.2 ⟨plain_of_all (by decide), Atom.plain h⟩
  | subtract a => exact plain_append.2 ⟨plain_of_all (by decide), Atom.plain h⟩

end Change

namespace Assignment

/-- The variable has a name, and what is done to it is written with a word or a number. -/
structure Proper (s : Assignment) : Prop where
  name : Identifier.isLegal s.name = true
  change : s.change.Proper

variable {s : Assignment}

theorem ofChars?_code (h : s.Proper) : ofChars? s.code.toList = some s := by
  have hname := Identifier.isWordChar_of_mem h.name
  obtain ⟨c, cs, hchange, hc⟩ := s.change.head_code
  have hbehind : (c :: cs).takeWhile isWordChar = [] ∧ (c :: cs).dropWhile isWordChar = c :: cs := by simp [hc]
  have htake : s.code.toList.takeWhile isWordChar = s.name.toList := by
    rw [code, String.toList_append, List.takeWhile_append_of_pos hname, hchange, hbehind.1, List.append_nil]
  have hdrop : s.code.toList.dropWhile isWordChar = s.change.code.toList := by
    rw [code, String.toList_append, List.dropWhile_append_of_pos hname, hchange, hbehind.2]
  rw [ofChars?, htake, hdrop, Change.ofChars?_code h.change, String.ofList_toList]
  rfl

theorem head_code (h : s.Proper) : ∃ c cs, s.code.toList = c :: cs ∧ isWordChar c = true := by
  obtain ⟨c, cs, hname, hc⟩ := head_of_isLeaf (isLeaf_of_isLegal h.name)
  exact ⟨c, cs ++ s.change.code.toList, by simp [code, String.toList_append, hname], hc⟩

theorem plain (h : s.Proper) : Plain s.code := plain_append.2 ⟨plain_leaf (isLeaf_of_isLegal h.name), Change.plain h.change⟩

/-- A declaration is no assignment itself. -/
theorem ofChars?_declaration (h : s.Proper) : ofChars? ("var ".toList ++ s.code.toList) = none := by
  obtain ⟨c, cs, hcode, hc⟩ := head_code h
  have hchange : Change.ofChars? (' ' :: c :: cs) = none := by
    unfold Change.ofChars?
    split
    · rename_i heq
      cases heq
    · rename_i heq
      cases heq
    · rename_i heq
      obtain ⟨rfl, -⟩ := List.cons.inj (List.cons.inj heq).2
      exact absurd hc (by decide)
    · rename_i heq
      obtain ⟨rfl, -⟩ := List.cons.inj (List.cons.inj heq).2
      exact absurd hc (by decide)
    · rename_i heq
      obtain ⟨rfl, -⟩ := List.cons.inj (List.cons.inj heq).2
      exact absurd hc (by decide)
    · rfl
  have hdrop : ("var ".toList ++ s.code.toList).dropWhile isWordChar = ' ' :: c :: cs := by
    rw [hcode]
    rfl
  rw [ofChars?, hdrop, hchange]
  rfl

end Assignment

namespace Row

variable {s : Assignment} {t : Test}

theorem assignment?_code (h : s.Proper) : assignment? (s.code ++ ";").toList = some s := by
  have hinner : enclosed? "" ";" (s.code ++ ";").toList = some s.code.toList := by
    rw [String.toList_append]
    exact enclosed?_append "" ";" s.code.toList
  rw [assignment?, hinner, Option.bind_some, Assignment.ofChars?_code h]

theorem assignment?_declaration (h : s.Proper) : assignment? ("var " ++ s.code ++ ";").toList = some s := by
  have hinner : enclosed? "" ";" ("var " ++ s.code ++ ";").toList = some ("var ".toList ++ s.code.toList) := by
    rw [String.toList_append, String.toList_append]
    exact enclosed?_append "" ";" ("var ".toList ++ s.code.toList)
  rw [assignment?, hinner, Option.bind_some, Assignment.ofChars?_declaration h]
  exact (congrArg (·.bind Assignment.ofChars?) (dropStart?_append _ _)).trans (Assignment.ofChars?_code h)

theorem assignment?_brace (cs : List Char) : assignment? (cs ++ ['\x7b']) = none := by
  simp [assignment?, enclosed?, dropStart?]

theorem ofChars?_of_assignment {cs : List Char} (hcs : cs ≠ ['\x7d']) (h : assignment? cs = some s) :
    ofChars? cs = some (.assignment s) := by
  rw [ofChars?, if_neg hcs, h]

theorem ofChars?_condition (h : t.Proper) : ofChars? ("if (" ++ t.code ++ ") \x7b").toList = some (.condition t) := by
  have hcode : ("if (" ++ t.code ++ ") \x7b").toList = "if (".toList ++ (t.code.toList ++ ") \x7b".toList) := by
    rw [String.toList_append, String.toList_append, List.append_assoc]
  have hnone : assignment? ("if (" ++ t.code ++ ") \x7b").toList = none := by
    have hbrace := assignment?_brace ("if (".toList ++ (t.code.toList ++ ") ".toList))
    rw [List.append_assoc, List.append_assoc] at hbrace
    exact hcode ▸ hbrace
  have hclosing : ("if (" ++ t.code ++ ") \x7b").toList ≠ ['\x7d'] := by
    rw [hcode]
    exact fun h => absurd (List.cons.inj h).1 (by decide)
  rw [ofChars?, if_neg hclosing, hnone, hcode, enclosed?_append, Option.bind_some, Test.ofChars?_code h]

theorem splitChars_plain {s : String} (h : Plain s) : splitChars ';' s.toList = [s.toList] :=
  (splitChars_eq_singleton_iff ';' s.toList).2 fun hmem => (h ';' hmem).1 rfl

theorem ofChars?_loop {start update : Assignment} (hstart : start.Proper) (ht : t.Proper) (hupdate : update.Proper) :
    ofChars? ("for (" ++ start.code ++ "; " ++ t.code ++ "; " ++ update.code ++ ") \x7b").toList =
      some (.loop start t update) := by
  have hcode : ("for (" ++ start.code ++ "; " ++ t.code ++ "; " ++ update.code ++ ") \x7b").toList =
      "for (".toList ++ ((start.code.toList ++ ';' :: ((" " ++ t.code).toList ++ ';' :: (" " ++ update.code).toList)) ++
        ") \x7b".toList) := by
    simp [String.toList_append]
  have hsplit : splitChars ';' (start.code.toList ++ ';' :: ((" " ++ t.code).toList ++ ';' :: (" " ++ update.code).toList)) =
      [start.code.toList, ' ' :: t.code.toList, ' ' :: update.code.toList] := by
    have hblank : Plain " " := plain_of_all (by decide)
    have htest : Plain (" " ++ t.code) := plain_append.2 ⟨hblank, Test.plain ht⟩
    have hlast : Plain (" " ++ update.code) := plain_append.2 ⟨hblank, Assignment.plain hupdate⟩
    rw [splitChars_append fun hmem => (Assignment.plain hstart _ hmem).1 rfl, splitChars_append fun hmem => (htest _ hmem).1 rfl,
      splitChars_plain hlast, String.toList_append, String.toList_append]
    rfl
  have hnone : ∀ cs, assignment? ("for (".toList ++ (cs ++ ") \x7b".toList)) = none := by
    intro cs
    have hbrace := assignment?_brace ("for (".toList ++ (cs ++ ") ".toList))
    rw [List.append_assoc, List.append_assoc] at hbrace
    exact hbrace
  have hcondition : ∀ cs, enclosed? "if (" ") \x7b" ("for (".toList ++ cs) = none := by
    intro cs
    simp [enclosed?, dropStart?]
  have hclosing : ∀ cs, "for (".toList ++ cs ≠ ['\x7d'] := fun cs h => absurd (List.cons.inj h).1 (by decide)
  rw [hcode, ofChars?, if_neg (hclosing _), hnone, hcondition, Option.bind_none, loop?, enclosed?_append]
  simp only [Option.bind_eq_bind, Option.bind_some, hsplit, Assignment.ofChars?_code hstart, Test.ofChars?_code ht,
    Assignment.ofChars?_code hupdate]
  rfl

end Row

/-! ## Lines -/

theorem codeLines_blank {c : Char} (hc : isCodeBlank c = true) (cs : List Char) : codeLines (c :: cs) = codeLines cs := by
  unfold codeLines
  rw [splitChars]
  split
  · simp [isCodeLine]
  · split
    · rename_i heq
      simp [heq, hc, isCodeLine]
    · rename_i piece pieces heq
      simp [heq, hc]

theorem codeLines_indent {indent : List Char} (h : ∀ c ∈ indent, isCodeBlank c = true) (cs : List Char) :
    codeLines (indent ++ cs) = codeLines cs := by
  induction indent with
  | nil => rfl
  | cons c indent ih =>
    rw [List.forall_mem_cons] at h
    rw [List.cons_append, codeLines_blank h.1, ih h.2]

/-- A line that begins with no blank and ends nowhere inside. -/
theorem codeLines_text {s : String} {c : Char} {line : List Char} (hs : s.toList = c :: line) (hc : isCodeBlank c = false)
    (hslash : c ≠ '/') (hplain : '\n' ∉ s.toList) (cs : List Char) :
    codeLines ((s ++ "\n").toList ++ cs) = s.toList :: codeLines cs := by
  have hcode : (s ++ "\n").toList ++ cs = s.toList ++ '\n' :: cs := by simp [String.toList_append]
  have hline : isCodeLine s.toList = true := by
    rw [hs, isCodeLine]
    · exact nofun
    · exact fun rest h => hslash (List.cons.inj h).1
  have hdrop : s.toList.dropWhile isCodeBlank = s.toList := by simp [hs, hc]
  unfold codeLines
  rw [hcode, splitChars_append hplain, List.map_cons, hdrop, List.filter_cons, if_pos hline]

theorem codeLines_comment {line : List Char} (hline : '\n' ∉ line) (h : isCommentLine line = true) (cs : List Char) :
    codeLines (line ++ '\n' :: cs) = codeLines cs := by
  obtain ⟨pad, more, rfl, hpad⟩ := exists_slashes h
  have hblank : ∀ c ∈ pad, isCodeBlank c = true := by
    intro c hc
    have hc := hpad c hc
    simp only [isPad, Bool.or_eq_true, beq_iff_eq] at hc
    rcases hc with rfl | rfl <;> rfl
  have hdrop : (pad ++ '/' :: '/' :: more).dropWhile isCodeBlank = '/' :: '/' :: more := List.dropWhile_append_of_pos hblank
  have hskip : ¬isCodeLine ('/' :: '/' :: more) = true := Bool.false_ne_true
  unfold codeLines
  rw [splitChars_append hline, List.map_cons, hdrop, List.filter_cons, if_neg hskip]

/-- Comments are no code. -/
theorem codeLines_commentary {s : String} (h : Commentary s) (cs : List Char) : codeLines (s.toList ++ cs) = codeLines cs := by
  obtain ⟨lines, hlines, hs⟩ := h
  rw [hs]
  clear hs
  induction lines with
  | nil => rfl
  | cons line lines ih =>
    obtain ⟨⟨hline, hcomment⟩, hlines⟩ := List.forall_mem_cons.1 hlines
    rw [List.flatMap_cons, List.append_assoc, List.append_assoc]
    exact (codeLines_comment hline hcomment _).trans (ih hlines)

namespace Line

/-- The condition is proper, and so is the assignment. -/
def Proper : Line → Prop
  | .always s => s.Proper
  | .when test s => test.Proper ∧ s.Proper

end Line

/-- All words of the header are names, and the rest of it is numerals. -/
structure Loop.Proper (l : Loop) : Prop where
  before : ∀ line ∈ l.before, line.Proper
  start : l.start.Proper
  test : l.test.Proper
  update : l.update.Proper

namespace Loop

theorem not_mem_feed {s : String} (h : Plain s) : '\n' ∉ s.toList := fun hmem => (h _ hmem).2 rfl

theorem ofLines?_behind {line : Line} (h : line.Proper) {indent : String} (hindent : ∀ c ∈ indent.toList, isCodeBlank c = true)
    (cs : List Char) :
    ofLines? (codeLines ((line.code indent).toList ++ cs)) = (ofLines? (codeLines cs)).map (behind line) := by
  cases line with
  | always s =>
    have hcode : (Line.always s).code indent = ("var " ++ s.code ++ ";") ++ "\n" := by
      simp only [Line.code, String.append_assoc]
      rfl
    have hfeed : '\n' ∉ ("var " ++ s.code ++ ";").toList := by
      simpa [String.toList_append] using not_mem_feed (Assignment.plain h)
    have hread : Row.ofChars? ("var " ++ s.code ++ ";").toList = some (.assignment s) :=
      Row.ofChars?_of_assignment (by simp [String.toList_append]) (Row.assignment?_declaration h)
    rw [hcode, codeLines_text (c := 'v') (by simp only [String.toList_append]; rfl) (by decide) (by decide) hfeed, ofLines?,
      hread]
  | when test s =>
    obtain ⟨c, name, hs, hc⟩ := Assignment.head_code h.2
    have hcode : (Line.when test s).code indent =
        ("if (" ++ test.code ++ ") \x7b" ++ "\n") ++ (indent ++ (s.code ++ ";" ++ "\n" ++ ("\x7d" ++ "\n"))) := by
      simp only [Line.code, String.append_assoc]
      rfl
    have hcondition : '\n' ∉ ("if (" ++ test.code ++ ") \x7b").toList := by
      simpa [String.toList_append] using not_mem_feed (Test.plain h.1)
    have hbody : '\n' ∉ (s.code ++ ";").toList := by
      simpa [String.toList_append] using not_mem_feed (Assignment.plain h.2)
    have hblank : isCodeBlank c = false := by
      rw [Bool.eq_false_iff]
      exact fun hblank => absurd hc (by simp [Script.not_isWordChar_of_isCodeBlank hblank])
    have hslash : c ≠ '/' := by
      rintro rfl
      exact absurd hc (by decide)
    have hfirst : (s.code ++ ";").toList = c :: (name ++ [';']) := by simp [String.toList_append, hs]
    have hread : Row.ofChars? (s.code ++ ";").toList = some (.assignment s) :=
      Row.ofChars?_of_assignment (by rw [hfirst]; simp) (Row.assignment?_code h.2)
    have hclosing : Row.ofChars? "\x7d".toList = some .closing := rfl
    have hchars : ((Line.when test s).code indent).toList ++ cs = ("if (" ++ test.code ++ ") \x7b" ++ "\n").toList ++
        (indent.toList ++ ((s.code ++ ";" ++ "\n").toList ++ (("\x7d" ++ "\n").toList ++ cs))) := by
      rw [hcode]
      simp only [String.toList_append, List.append_assoc]
    rw [hchars, codeLines_text (c := 'i') (by simp only [String.toList_append]; rfl) (by decide) (by decide) hcondition,
      codeLines_indent hindent, codeLines_text hfirst hblank hslash hbody,
      codeLines_text (c := '\x7d') rfl (by decide) (by decide) (by decide), ofLines?, Row.ofChars?_condition h.1]
    simp only [hread, hclosing]

theorem ofLines?_code {l : Loop} (h : l.Proper) {indent : String} (hindent : ∀ c ∈ indent.toList, isCodeBlank c = true)
    (cs : List Char) : ofLines? (codeLines ((l.code indent).toList ++ cs)) = some l := by
  obtain ⟨before, start, test, update⟩ := l
  obtain ⟨hbefore, hstart, htest, hupdate⟩ := h
  induction before with
  | nil =>
    have hcode : (Loop.code indent ⟨[], start, test, update⟩).toList =
        ("for (" ++ start.code ++ "; " ++ test.code ++ "; " ++ update.code ++ ") \x7b" ++ "\n").toList := by
      simp [Loop.code, linesCode, String.toList_append]
    have hfeed : '\n' ∉ ("for (" ++ start.code ++ "; " ++ test.code ++ "; " ++ update.code ++ ") \x7b").toList := by
      simpa [String.toList_append] using And.intro (not_mem_feed (Assignment.plain hstart))
        (And.intro (not_mem_feed (Test.plain htest)) (not_mem_feed (Assignment.plain hupdate)))
    rw [hcode, codeLines_text (c := 'f') (by simp only [String.toList_append]; rfl) (by decide) (by decide) hfeed, ofLines?,
      Row.ofChars?_loop hstart htest hupdate]
  | cons line lines ih =>
    obtain ⟨hline, hlines⟩ := List.forall_mem_cons.1 hbefore
    have hcode : (Loop.code indent ⟨line :: lines, start, test, update⟩).toList ++ cs =
        (line.code indent).toList ++ ((Loop.code indent ⟨lines, start, test, update⟩).toList ++ cs) := by
      simp [Loop.code, linesCode, String.toList_append]
    rw [hcode, ofLines?_behind hline hindent, ih hlines hstart htest hupdate]
    rfl

/-- The header that code begins with behind comments is read back, whatever the body is. -/
theorem ofCode?_code {comments : String} (hcomments : Commentary comments) {l : Loop} (h : l.Proper) {indent : String}
    (hindent : ∀ c ∈ indent.toList, isCodeBlank c = true) (rest : String) :
    ofCode? (comments ++ l.code indent ++ rest) = some l := by
  have hcode : (comments ++ l.code indent ++ rest).toList = comments.toList ++ ((l.code indent).toList ++ rest.toList) := by
    rw [String.toList_append, String.toList_append, List.append_assoc]
  rw [ofCode?, hcode, codeLines_commentary hcomments, ofLines?_code h hindent]

end Loop

end Blockwright.Loops
